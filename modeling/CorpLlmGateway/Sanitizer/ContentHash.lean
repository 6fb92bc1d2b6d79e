import CorpLlmGateway.Hash.Sha256
import CorpLlmGateway.Sanitizer.Plan

/-!
# The key of Cache A

The model of `_content_hash` of `sanitizer/orchestrator.py`. The fields of a request
are joined with single separator bytes, without lengths, and the optional profile is
appended to the text, so one byte stream can belong to several requests.

* `contentStream_injOn_clean` — requests whose fields keep to the separators have
  different streams;
* `contentStream_unique_iff` — the requests that share their stream with no other.
-/

namespace CorpLlmGateway.Sanitizer

open TextScan Hash
open Unicode (utf8 utf8_cons utf8_append utf8_injective)

/-! ## The stream -/

/-- What the key of Cache A is made of. -/
structure KeyFields where
  teamId : Text
  rules : Rules
  text : Text
  profileFingerprint : Option Text
  oracleEnabled : Bool
  policyFingerprint : Digest
deriving DecidableEq

/-- `_CACHE_A_ALGORITHM_VERSION`. -/
def cacheAAlgorithmVersion : Text := "coverage-v2".toList

def oracleMode (enabled : Bool) : Text :=
  if enabled then "oracle:1".toList else "oracle:0".toList

/-- The bytes `_content_hash` feeds to SHA-256. -/
def contentStream (k : KeyFields) : List UInt8 :=
  utf8 cacheAAlgorithmVersion ++ [0x1c] ++ utf8 k.teamId ++ [0x1f] ++
    (k.rules.flatMap fun rule =>
      utf8 rule.pattern ++ [0x1e] ++ utf8 rule.replacement ++ [0x1f]) ++
    [0x1d] ++ utf8 k.text ++
    (match k.profileFingerprint with
      | none => []
      | some profile => [0x1c] ++ utf8 profile) ++
    [0x1b] ++ utf8 (oracleMode k.oracleEnabled) ++
    [0x1a] ++ utf8 k.policyFingerprint.digits

/-- `_content_hash(...)`. -/
def contentHash (k : KeyFields) : Digest := (sha256 (contentStream k)).hexdigest

/-! ## The stream as text -/

/-- The rules between their separators. -/
def rulesText : Rules → Text
  | [] => []
  | rule :: rules =>
      rule.pattern ++ '\x1e' :: (rule.replacement ++ '\x1f' :: rulesText rules)

def profileText : Option Text → Text
  | none => []
  | some profile => '\x1c' :: profile

/-- Team, rules, text and profile. -/
def coreText (k : KeyFields) : Text :=
  k.teamId ++ '\x1f' :: (rulesText k.rules ++ '\x1d' :: (k.text ++ profileText k.profileFingerprint))

/-- Oracle mode and policy, of fixed length. -/
def tailText (k : KeyFields) : Text :=
  '\x1b' :: (oracleMode k.oracleEnabled ++ '\x1a' :: k.policyFingerprint.digits)

theorem utf8_separators : String.utf8EncodeChar '\x1a' = [0x1a] ∧
    String.utf8EncodeChar '\x1b' = [0x1b] ∧ String.utf8EncodeChar '\x1c' = [0x1c] ∧
    String.utf8EncodeChar '\x1d' = [0x1d] ∧ String.utf8EncodeChar '\x1e' = [0x1e] ∧
    String.utf8EncodeChar '\x1f' = [0x1f] := by
  decide

theorem utf8_rulesText (rules : Rules) :
    utf8 (rulesText rules) = rules.flatMap fun rule =>
      utf8 rule.pattern ++ [0x1e] ++ utf8 rule.replacement ++ [0x1f] := by
  rcases utf8_separators with ⟨_, _, _, _, he, hf⟩
  induction rules with
  | nil => rfl
  | cons rule rules ih => simp [rulesText, utf8_cons, he, hf, ih]

theorem utf8_profileText (profile : Option Text) :
    utf8 (profileText profile) =
      match profile with
      | none => []
      | some profile => [0x1c] ++ utf8 profile := by
  rcases utf8_separators with ⟨_, _, hc, _⟩
  cases profile with
  | none => rfl
  | some profile => rw [profileText, utf8_cons, hc]

theorem contentStream_eq_utf8 (k : KeyFields) :
    contentStream k = utf8 (cacheAAlgorithmVersion ++ '\x1c' :: (coreText k ++ tailText k)) := by
  rcases utf8_separators with ⟨ha, hb, hc, hd, _, hf⟩
  unfold contentStream coreText tailText
  rw [← utf8_rulesText, ← utf8_profileText]
  simp only [utf8_append, utf8_cons, ha, hb, hc, hd, hf, List.append_assoc, List.cons_append,
    List.nil_append]

theorem oracleMode_length (enabled : Bool) : (oracleMode enabled).length = 8 := by
  cases enabled <;> rfl

theorem oracleMode_injective {a b : Bool} (h : oracleMode a = oracleMode b) : a = b := by
  revert a b
  decide

theorem tailText_length (k : KeyFields) : (tailText k).length = 74 := by
  simp only [tailText, List.length_cons, List.length_append, oracleMode_length,
    k.policyFingerprint.length]

theorem Digest.ext_digits {d d' : Digest} (h : d.digits = d'.digits) : d = d' := by
  cases d
  cases d'
  simpa using h

/-- The end of a stream has a fixed length, so it can be read off. -/
theorem contentStream_eq_iff {k k' : KeyFields} :
    contentStream k = contentStream k' ↔
      coreText k = coreText k' ∧ k.oracleEnabled = k'.oracleEnabled ∧
        k.policyFingerprint = k'.policyFingerprint := by
  rw [contentStream_eq_utf8, contentStream_eq_utf8, utf8_injective.eq_iff, List.append_right_inj,
    List.cons.injEq]
  constructor
  · rintro ⟨_, h⟩
    have hlen : (tailText k).length = (tailText k').length := by simp only [tailText_length]
    rcases List.append_inj' h hlen with ⟨hcore, htail⟩
    refine ⟨hcore, ?_⟩
    unfold tailText at htail
    rw [List.cons.injEq] at htail
    have hmode : (oracleMode k.oracleEnabled).length = (oracleMode k'.oracleEnabled).length := by
      rw [oracleMode_length, oracleMode_length]
    rcases List.append_inj htail.2 hmode with ⟨hor, hpol⟩
    exact ⟨oracleMode_injective hor, Digest.ext_digits (List.cons.inj hpol).2⟩
  · rintro ⟨hcore, hor, hpol⟩
    refine ⟨rfl, ?_⟩
    rw [hcore, tailText, tailText, hor, hpol]

/-! ## Reading a stream from the left -/

/-- The fields keep to the separators: each ends at the first separator behind it. -/
structure KeyFields.Clean (k : KeyFields) : Prop where
  team : '\x1f' ∉ k.teamId
  pattern : ∀ rule ∈ k.rules, '\x1e' ∉ rule.pattern ∧ rule.pattern.head? ≠ some '\x1d'
  replacement : ∀ rule ∈ k.rules, '\x1f' ∉ rule.replacement
  text : '\x1c' ∉ k.text

theorem cut_unique {c : Char} {w w' rest rest' : Text} (hw : c ∉ w) (hw' : c ∉ w')
    (h : w ++ c :: rest = w' ++ c :: rest') : w = w' ∧ rest = rest' := by
  have heq := middle_unique hw hw' h
  subst heq
  exact ⟨rfl, (List.cons.inj (List.append_cancel_left h)).2⟩

theorem head_rulesText {rule : Rule} (rules : Rules) (rest : Text)
    (hp : rule.pattern.head? ≠ some '\x1d') :
    (rulesText (rule :: rules) ++ '\x1d' :: rest).head? ≠ some '\x1d' := by
  cases hpat : rule.pattern with
  | nil => simp [rulesText, hpat]
  | cons c cs =>
    rw [hpat] at hp
    simpa [rulesText, hpat] using hp

theorem rulesText_unique {rules rules' : Rules} {rest rest' : Text}
    (hp : ∀ rule ∈ rules, '\x1e' ∉ rule.pattern ∧ rule.pattern.head? ≠ some '\x1d')
    (hr : ∀ rule ∈ rules, '\x1f' ∉ rule.replacement)
    (hp' : ∀ rule ∈ rules', '\x1e' ∉ rule.pattern ∧ rule.pattern.head? ≠ some '\x1d')
    (hr' : ∀ rule ∈ rules', '\x1f' ∉ rule.replacement)
    (h : rulesText rules ++ '\x1d' :: rest = rulesText rules' ++ '\x1d' :: rest') :
    rules = rules' ∧ rest = rest' := by
  induction rules generalizing rules' with
  | nil =>
    cases rules' with
    | nil => exact ⟨rfl, (List.cons.inj h).2⟩
    | cons rule' rules' =>
      have hhead := head_rulesText rules' rest' (hp' rule' (by simp)).2
      rw [← h] at hhead
      exact absurd rfl hhead
  | cons rule rules ih =>
    cases rules' with
    | nil =>
      have hhead := head_rulesText rules rest (hp rule (by simp)).2
      rw [h] at hhead
      exact absurd rfl hhead
    | cons rule' rules' =>
      simp only [rulesText, List.append_assoc, List.cons_append] at h
      rcases cut_unique (hp rule (by simp)).1 (hp' rule' (by simp)).1 h with ⟨hpat, h₁⟩
      rcases cut_unique (hr rule (by simp)) (hr' rule' (by simp)) h₁ with ⟨hrep, h₂⟩
      rcases ih (fun x hx => hp x (by simp [hx])) (fun x hx => hr x (by simp [hx]))
        (fun x hx => hp' x (by simp [hx])) (fun x hx => hr' x (by simp [hx])) h₂ with ⟨hrules, hrest⟩
      refine ⟨?_, hrest⟩
      rw [hrules]
      cases rule
      cases rule'
      simp_all

theorem profileText_unique {text text' : Text} {profile profile' : Option Text}
    (ht : '\x1c' ∉ text) (ht' : '\x1c' ∉ text')
    (h : text ++ profileText profile = text' ++ profileText profile') :
    text = text' ∧ profile = profile' := by
  cases profile with
  | none =>
    cases profile' with
    | none => simpa [profileText] using h
    | some p' =>
      simp only [profileText, List.append_nil] at h
      exact absurd (by simp [h]) ht
  | some p =>
    cases profile' with
    | none =>
      simp only [profileText, List.append_nil] at h
      exact absurd (by simp [← h]) ht'
    | some p' =>
      rcases cut_unique ht ht' h with ⟨htext, hp⟩
      exact ⟨htext, by rw [hp]⟩

/-- Clean requests have different streams. -/
theorem contentStream_injOn_clean {k k' : KeyFields} (hk : k.Clean) (hk' : k'.Clean)
    (h : contentStream k = contentStream k') : k = k' := by
  rcases contentStream_eq_iff.mp h with ⟨hcore, hor, hpol⟩
  rcases cut_unique hk.team hk'.team hcore with ⟨hteam, hcore⟩
  rcases rulesText_unique hk.pattern hk.replacement hk'.pattern hk'.replacement hcore with
    ⟨hrules, hcore⟩
  rcases profileText_unique hk.text hk'.text hcore with ⟨htext, hprofile⟩
  cases k
  cases k'
  simp_all

/-! ## Requests with a stream of their own -/

/-- No other request has the stream of such a request: without rules and without a
profile, nothing in the team or the text can be taken for a separator. -/
structure KeyFields.Unshared (k : KeyFields) : Prop where
  profile : k.profileFingerprint = none
  rules : k.rules = []
  text_profile : '\x1c' ∉ k.text
  text : ¬ ['\x1f', '\x1d'] <:+: k.text
  team : ¬ ['\x1f', '\x1d'] <:+: k.teamId
  team_rule : ¬ ∃ a b c, k.teamId = a ++ '\x1f' :: (b ++ '\x1e' :: c)

/-- Two occurrences of a pair of characters do not overlap. -/
theorem pair_occurrence {x y : Char} (hxy : x ≠ y) {z b t : Text}
    (h : x :: y :: b = z ++ x :: y :: t) : z = [] ∨ ∃ z', z = x :: y :: z' := by
  cases z with
  | nil => exact Or.inl rfl
  | cons c z =>
    cases z with
    | nil =>
      simp only [List.cons_append, List.nil_append, List.cons.injEq] at h
      exact absurd h.2.1.symm hxy
    | cons d z =>
      simp only [List.cons_append, List.cons.injEq] at h
      exact Or.inr ⟨z, by rw [h.1, h.2.1]⟩

/-- A text is split in one way at a pair of characters that occurs nowhere else. -/
theorem pair_split_unique {x y : Char} (hxy : x ≠ y) {a b s t : Text}
    (hs : ¬ [x, y] <:+: s) (ht : ¬ [x, y] <:+: t) (h : a ++ x :: y :: b = s ++ x :: y :: t) :
    a = s ∧ b = t := by
  rcases List.append_eq_append_iff.mp h with ⟨z, hz, hrest⟩ | ⟨z, hz, hrest⟩
  · rcases pair_occurrence hxy hrest with rfl | ⟨z', rfl⟩
    · simp_all
    · exact absurd ⟨a, z', by simp [hz]⟩ hs
  · rcases pair_occurrence hxy hrest with rfl | ⟨z', rfl⟩
    · simp_all
    · refine absurd ⟨z', b, ?_⟩ ht
      simpa using hrest.symm

/-- The rules end with a separator and hold another one. -/
theorem exists_rulesText_eq (rule : Rule) (rules : Rules) :
    ∃ q, rulesText (rule :: rules) = rule.pattern ++ '\x1e' :: (q ++ ['\x1f']) := by
  induction rules generalizing rule with
  | nil => exact ⟨rule.replacement, rfl⟩
  | cons rule' rules ih =>
    rcases ih rule' with ⟨q, hq⟩
    refine ⟨rule.replacement ++ '\x1f' :: (rule'.pattern ++ '\x1e' :: q), ?_⟩
    rw [rulesText, hq]
    simp

theorem KeyFields.Unshared.eq_of_coreText {k k' : KeyFields} (hk : k.Unshared)
    (h : coreText k' = coreText k) :
    k'.teamId = k.teamId ∧ k'.rules = k.rules ∧ k'.text = k.text ∧
      k'.profileFingerprint = k.profileFingerprint := by
  have hcore : coreText k = k.teamId ++ '\x1f' :: '\x1d' :: k.text := by
    simp [coreText, hk.rules, hk.profile, rulesText, profileText]
  rw [hcore] at h
  have hne : '\x1f' ≠ '\x1d' := by decide
  cases hr : k'.rules with
  | nil =>
    simp only [coreText, hr, rulesText, List.nil_append] at h
    rcases pair_split_unique hne hk.team hk.text h with ⟨hteam, htext⟩
    cases hp : k'.profileFingerprint with
    | none =>
      rw [hp, profileText, List.append_nil] at htext
      exact ⟨hteam, hk.rules.symm, htext, hk.profile.symm⟩
    | some profile =>
      -- a profile needs its separator in the text
      rw [hp, profileText] at htext
      exact absurd (by simp [← htext]) hk.text_profile
  | cons rule rules =>
    -- the last rule ends where the team of `k` ends, so that team holds a rule
    exfalso
    rcases exists_rulesText_eq rule rules with ⟨q, hq⟩
    simp only [coreText, hr, hq] at h
    have h' : (k'.teamId ++ '\x1f' :: (rule.pattern ++ '\x1e' :: q)) ++
        '\x1f' :: '\x1d' :: (k'.text ++ profileText k'.profileFingerprint) =
          k.teamId ++ '\x1f' :: '\x1d' :: k.text := by
      simpa using h
    have hteam := (pair_split_unique hne hk.team hk.text h').1
    exact hk.team_rule ⟨k'.teamId, rule.pattern, q, hteam.symm⟩

/-- A request with a stream of its own is unshared: each violated condition gives
another reading of the stream. -/
theorem unshared_of_unique {k : KeyFields} (h : ∀ k', coreText k' = coreText k →
    k'.oracleEnabled = k.oracleEnabled → k'.policyFingerprint = k.policyFingerprint → k' = k) :
    k.Unshared := by
  rcases k with ⟨team, rules, text, profile, oracle, policy⟩
  -- another reading has the same end
  have other : ∀ team' rules' text' profile',
      coreText ⟨team', rules', text', profile', oracle, policy⟩ =
          coreText ⟨team, rules, text, profile, oracle, policy⟩ →
        team' = team ∧ rules' = rules ∧ text' = text ∧ profile' = profile := by
    intro team' rules' text' profile' hcore
    have heq := h ⟨team', rules', text', profile', oracle, policy⟩ hcore rfl rfl
    simpa using heq
  have hprofile : profile = none := by
    cases profile with
    | none => rfl
    | some p =>
      have heq := other team rules (text ++ '\x1c' :: p) none (by simp [coreText, profileText])
      simp at heq
  have hrules : rules = [] := by
    cases rules with
    | nil => rfl
    | cons rule rules =>
      have heq := other (team ++ '\x1f' :: (rule.pattern ++ '\x1e' :: rule.replacement)) rules text
        profile (by simp [coreText, rulesText])
      simp at heq
  subst hprofile hrules
  refine ⟨rfl, rfl, ?_, ?_, ?_, ?_⟩
  · intro hmem
    rcases List.append_of_mem hmem with ⟨a, b, rfl⟩
    have heq := other team [] a (some b) (by simp [coreText, profileText])
    simp at heq
  · rintro ⟨a, b, rfl⟩
    have heq := other (team ++ '\x1f' :: '\x1d' :: a) [] b none
      (by simp [coreText, rulesText, profileText])
    simp at heq
  · rintro ⟨a, b, rfl⟩
    have heq := other a [] (b ++ '\x1f' :: '\x1d' :: text) none
      (by simp [coreText, rulesText, profileText])
    simp at heq
  · rintro ⟨a, b, c, rfl⟩
    have heq := other a [⟨b, c⟩] text none (by simp [coreText, rulesText, profileText])
    simp at heq

/-- **Key separation.** A request shares its stream with no other request exactly if
it is unshared, and two clean requests never share a stream. -/
theorem contentStream_unique_iff (k : KeyFields) :
    ((∀ k', contentStream k' = contentStream k → k' = k) ↔ k.Unshared) ∧
      ∀ k', k.Clean → k'.Clean → contentStream k = contentStream k' → k = k' := by
  refine ⟨?_, fun k' hk hk' => contentStream_injOn_clean hk hk'⟩
  simp only [contentStream_eq_iff]
  constructor
  · intro h
    exact unshared_of_unique fun k' hcore hor hpol => h k' ⟨hcore, hor, hpol⟩
  · rintro hk k' ⟨hcore, hor, hpol⟩
    rcases hk.eq_of_coreText hcore with ⟨hteam, hrules, htext, hprofile⟩
    cases k
    cases k'
    simp_all

/-- A policy fingerprint of zeros. -/
def zeroPolicy : Digest := ⟨List.replicate 64 '0', by simp, by decide⟩

/-- A text that ends in a separator and the fingerprint of a profile, sent without a
profile, and the text sent with that profile. -/
theorem contentStream_profile_collision :
    contentStream ⟨"team".toList, [], "x\x1cfp".toList, none, true, zeroPolicy⟩ =
        contentStream ⟨"team".toList, [], "x".toList, some "fp".toList, true, zeroPolicy⟩ ∧
      (⟨"team".toList, [], "x\x1cfp".toList, none, true, zeroPolicy⟩ : KeyFields) ≠
        ⟨"team".toList, [], "x".toList, some "fp".toList, true, zeroPolicy⟩ := by
  constructor
  · rw [contentStream_eq_iff]
    exact ⟨by decide, rfl, rfl⟩
  · decide

end CorpLlmGateway.Sanitizer
