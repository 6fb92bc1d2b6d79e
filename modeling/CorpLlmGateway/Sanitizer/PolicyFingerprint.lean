import CorpLlmGateway.Data.PrefixCode
import CorpLlmGateway.Hash.Sha256
import CorpLlmGateway.Text.PyStr

/-!
# The policy fingerprint

`SanitizationOrchestrator._compute_policy_fingerprint` hashes the settings that decide what is
redacted: the identities of the detectors, the gazetteer's signatures, the allowlist and the
oracle trigger, list by list through `_feed`.

* `Settings` — what the orchestrator was built with, in the order it was built with;
* `Policy` — what the fingerprint stands for, without an order where the source sorts;
* `preimage_eq_iff` — two settings feed the same bytes iff they have the same policy.
-/

namespace CorpLlmGateway.Sanitizer.PolicyFingerprint

open Hash PrefixCode
open Unicode (utf8 utf8_injective)

abbrev Bytes := List UInt8

/-! ## The bytes that are hashed -/

/-- `_POLICY_FINGERPRINT_VERSION`. -/
def policyFingerprintVersion : Bytes := utf8 "policy-v3".toList

structure Gazetteer where
  termSignature : List PyStr
  lemmatizerSignature : List PyStr
deriving DecidableEq

/-- The detectors of the local pass, by their identities. -/
structure LocalDetectors where
  detectors : List PyStr
  codeDetectors : List PyStr

/-- The settings that the fingerprint reads. The entries of the allowlist are a frozen set:
they come in some order, each of them once. -/
structure Settings where
  localDetectors : Option LocalDetectors
  gazetteer : Option Gazetteer
  allowlist : Option { entries : List PyStr // entries.Nodup }
  oracleTrigger : PyStr

namespace Settings

def detectors (s : Settings) : List PyStr :=
  match s.localDetectors with
  | none => []
  | some found => found.detectors

def codeDetectors (s : Settings) : List PyStr :=
  match s.localDetectors with
  | none => []
  | some found => found.codeDetectors

end Settings

/-- The order of `bytes`. -/
def BytesLe (a b : Bytes) : Prop := a.map UInt8.toNat ≤ b.map UInt8.toNat

instance : DecidableRel BytesLe := fun a b =>
  inferInstanceAs (Decidable (a.map UInt8.toNat ≤ b.map UInt8.toNat))

/-- `sorted(parts)`. -/
def sortedBytes (parts : List Bytes) : List Bytes := parts.insertionSort BytesLe

/-- `_feed(h, parts)`: what the call adds to the hashed bytes; a length of more than eight
bytes raises `OverflowError`. -/
def feed (parts : List Bytes) : Option Bytes :=
  if ∀ part ∈ parts, part.length < 256 ^ 8 then some (terminated (lengthPrefixed 8) 0x1c parts)
  else none

/-- `[t.encode("utf-8") for t in texts]`. -/
def encodeAll (texts : List PyStr) : Option (List Bytes) := texts.mapM PyStr.encode

/-- The two lists of a gazetteer, if there is one. -/
def gazetteerLists : Option Gazetteer → Option (List (List Bytes))
  | none => some []
  | some g => do
    let terms ← encodeAll g.termSignature
    let lemmatizers ← encodeAll g.lemmatizerSignature
    return [terms, lemmatizers]

/-- The list of the allowlist, if there is one. -/
def allowlistLists : Option { entries : List PyStr // entries.Nodup } →
    Option (List (List Bytes))
  | none => some []
  | some entries => do
    let entries ← encodeAll entries.val
    return [sortedBytes entries]

/-- The lists given to `_feed`, call by call. -/
def Settings.lists (s : Settings) : Option (List (List Bytes)) := do
  let detectors ← encodeAll s.detectors
  let codeDetectors ← encodeAll s.codeDetectors
  let gazetteer ← gazetteerLists s.gazetteer
  let allowlist ← allowlistLists s.allowlist
  let trigger ← s.oracleTrigger.encode
  return [[policyFingerprintVersion], [utf8 "detectors".toList], sortedBytes detectors,
      [utf8 "code_safe".toList], sortedBytes codeDetectors, [utf8 "gazetteer".toList]] ++
    gazetteer ++ [utf8 "allowlist".toList] :: allowlist ++
    [[utf8 "oracle_trigger".toList, trigger]]

/-- The bytes fed to SHA-256. -/
def Settings.preimage (s : Settings) : Option Bytes := do
  let lists ← s.lists
  let fed ← lists.mapM feed
  return fed.flatten

/-- `_compute_policy_fingerprint()`. -/
def Settings.computePolicyFingerprint (s : Settings) : Option Digest :=
  s.preimage.map fun bytes => (sha256 bytes).hexdigest

/-! ## The policy -/

/-- What decides the redaction: the source sorts the detectors and the allowlist, so their
order is no part of it. -/
structure Policy where
  detectors : Multiset PyStr
  codeSafe : Multiset PyStr
  gazetteer : Option Gazetteer
  allowlist : Option (Finset PyStr)
  trigger : PyStr

/-- The frozen set that a list without duplicates goes through. -/
def entrySet (a : { entries : List PyStr // entries.Nodup }) : Finset PyStr :=
  ⟨a.val, a.property⟩

def Settings.policy (s : Settings) : Policy where
  detectors := s.detectors
  codeSafe := s.codeDetectors
  gazetteer := s.gazetteer
  allowlist := s.allowlist.map entrySet
  trigger := s.oracleTrigger

/-! ## Encoded texts -/

theorem mapM_eq_some_map {α β : Type} {f : α → Option β} {g : α → β} {l : List α}
    (h : ∀ a ∈ l, f a = some (g a)) : l.mapM f = some (l.map g) := by
  induction l with
  | nil => rfl
  | cons a l ih =>
    obtain ⟨ha, hl⟩ := List.forall_mem_cons.mp h
    simp [List.mapM_cons, ha, ih hl]

/-- Texts that can be encoded are texts of scalar values. -/
theorem encodeAll_eq_some {texts : List PyStr} {parts : List Bytes}
    (h : encodeAll texts = some parts) :
    ∃ words : List (List Char), texts = words.map PyStr.ofText ∧ parts = words.map utf8 := by
  induction texts generalizing parts with
  | nil =>
    obtain rfl : [] = parts := by simpa [encodeAll] using h
    exact ⟨[], rfl, rfl⟩
  | cons text texts ih =>
    simp only [encodeAll, List.mapM_cons, Option.bind_eq_bind, Option.bind_eq_some_iff,
      Option.pure_def, Option.some.injEq] at h
    obtain ⟨part, hpart, rest, hrest, rfl⟩ := h
    obtain ⟨word, rfl, rfl⟩ := PyStr.encode_eq_some.mp hpart
    obtain ⟨words, rfl, rfl⟩ := ih hrest
    exact ⟨word :: words, rfl, rfl⟩

theorem encodeAll_inj {texts texts' : List PyStr} {parts : List Bytes}
    (h : encodeAll texts = some parts) (h' : encodeAll texts' = some parts) : texts = texts' := by
  obtain ⟨words, rfl, rfl⟩ := encodeAll_eq_some h
  obtain ⟨words', rfl, hparts⟩ := encodeAll_eq_some h'
  rw [List.map_injective_iff.mpr utf8_injective hparts]

theorem encodeAll_perm {texts texts' : List PyStr} {parts parts' : List Bytes}
    (h : encodeAll texts = some parts) (h' : encodeAll texts' = some parts') :
    parts.Perm parts' ↔ texts.Perm texts' := by
  obtain ⟨words, rfl, rfl⟩ := encodeAll_eq_some h
  obtain ⟨words', rfl, rfl⟩ := encodeAll_eq_some h'
  rw [List.map_perm_map_iff utf8_injective, List.map_perm_map_iff PyStr.ofText_injective]

/-! ## Sorting -/

instance : Std.Total BytesLe := ⟨fun a b => le_total (a.map UInt8.toNat) (b.map UInt8.toNat)⟩

instance : IsTrans Bytes BytesLe := ⟨fun _ _ _ hab hbc => le_trans (α := List ℕ) hab hbc⟩

theorem bytesLe_antisymm {a b : Bytes} (hab : BytesLe a b) (hba : BytesLe b a) : a = b :=
  List.map_injective_iff.mpr (fun _ _ => UInt8.toNat_inj.mp) (le_antisymm hab hba)

theorem sortedBytes_eq_iff {parts parts' : List Bytes} :
    sortedBytes parts = sortedBytes parts' ↔ parts.Perm parts' := by
  have hperm := List.perm_insertionSort BytesLe parts
  have hperm' := List.perm_insertionSort BytesLe parts'
  constructor
  · intro h
    have hsorted : (parts.insertionSort BytesLe).Perm parts' := by
      rw [show parts.insertionSort BytesLe = parts'.insertionSort BytesLe from h]
      exact hperm'
    exact hperm.symm.trans hsorted
  · intro h
    apply List.Perm.eq_of_pairwise (fun a b _ _ => bytesLe_antisymm)
      (List.pairwise_insertionSort BytesLe parts) (List.pairwise_insertionSort BytesLe parts')
    exact (hperm.trans h).trans hperm'.symm

/-! ## The lists are read back from the bytes -/

/-- Every part fits seven length bytes, so the eighth of its length field is zero. -/
def ShortParts (lists : List (List Bytes)) : Prop :=
  ∀ parts ∈ lists, ∀ part ∈ parts, part.length < 2 ^ 56

theorem prefixFree_terminated : PrefixFree (fun parts : List Bytes => ∀ part ∈ parts,
    part.length < 256 ^ 7) (terminated (lengthPrefixed 8) (0x1c : UInt8)) := by
  apply PrefixFree.terminated
  · intro a b s t ha hb heq
    exact prefixFree_lengthPrefixed 8 a b s t (ha.trans (by norm_num)) (hb.trans (by norm_num)) heq
  · exact avoids_lengthPrefixed 7 (by decide)

theorem mapM_feed {lists : List (List Bytes)} (h : ShortParts lists) :
    lists.mapM feed = some (lists.map (terminated (lengthPrefixed 8) 0x1c)) := by
  apply mapM_eq_some_map
  intro parts hparts
  have hfits : ∀ part ∈ parts, part.length < 256 ^ 8 := fun part hpart =>
    (h parts hparts part hpart).trans (by norm_num)
  rw [feed, if_pos hfits]

theorem fed_inj {lists lists' : List (List Bytes)} (h : ShortParts lists)
    (h' : ShortParts lists')
    (heq : (lists.map (terminated (lengthPrefixed 8) (0x1c : UInt8))).flatten =
      (lists'.map (terminated (lengthPrefixed 8) 0x1c)).flatten) : lists = lists' := by
  have hpow : (2 : ℕ) ^ 56 = 256 ^ 7 := by norm_num
  unfold ShortParts at h h'
  rw [hpow] at h h'
  exact prefixFree_terminated.flatMap_inj (fun parts _ => terminated_ne_nil parts) h h' heq

/-- The lists of the settings, from their encoded parts. -/
def arrange (detectors codeDetectors : List Bytes) (gazetteer allowlist : List (List Bytes))
    (trigger : Bytes) : List (List Bytes) :=
  [[policyFingerprintVersion], [utf8 "detectors".toList], sortedBytes detectors,
      [utf8 "code_safe".toList], sortedBytes codeDetectors, [utf8 "gazetteer".toList]] ++
    gazetteer ++ [utf8 "allowlist".toList] :: allowlist ++
    [[utf8 "oracle_trigger".toList, trigger]]

theorem lists_eq_some {s : Settings} {lists : List (List Bytes)} (h : s.lists = some lists) :
    ∃ detectors codeDetectors gazetteer allowlist trigger,
      encodeAll s.detectors = some detectors ∧ encodeAll s.codeDetectors = some codeDetectors ∧
      gazetteerLists s.gazetteer = some gazetteer ∧ allowlistLists s.allowlist = some allowlist ∧
      s.oracleTrigger.encode = some trigger ∧
      lists = arrange detectors codeDetectors gazetteer allowlist trigger := by
  simp only [Settings.lists, Option.bind_eq_bind, Option.bind_eq_some_iff, Option.pure_def,
    Option.some.injEq] at h
  obtain ⟨detectors, hd, codeDetectors, hc, gazetteer, hg, allowlist, ha, trigger, ht, rfl⟩ := h
  exact ⟨detectors, codeDetectors, gazetteer, allowlist, trigger, hd, hc, hg, ha, ht, rfl⟩

/-- The number of lists tells which of the optional ones are there: a gazetteer brings two,
an allowlist one. -/
theorem arrange_inj {d c d' c' : List Bytes} {g a g' a' : List (List Bytes)} {t t' : Bytes}
    (hg : g.length = 0 ∨ g.length = 2) (hg' : g'.length = 0 ∨ g'.length = 2)
    (ha : a.length ≤ 1) (ha' : a'.length ≤ 1) :
    arrange d c g a t = arrange d' c' g' a' t' ↔
      sortedBytes d = sortedBytes d' ∧ sortedBytes c = sortedBytes c' ∧ g = g' ∧ a = a' ∧
        t = t' := by
  constructor
  · intro h
    have hcount := congrArg List.length h
    simp only [arrange, List.length_append, List.length_cons, List.length_nil] at hcount
    have hglength : g.length = g'.length := by omega
    have halength : a.length = a'.length := by omega
    simp only [arrange, List.cons_append, List.nil_append, List.append_assoc, List.cons.injEq,
      true_and] at h
    obtain ⟨hd, hc, hrest⟩ := h
    obtain ⟨rfl, htail⟩ := List.append_inj hrest hglength
    simp only [List.cons.injEq, true_and] at htail
    obtain ⟨rfl, hlast⟩ := List.append_inj htail halength
    simp only [List.cons.injEq, true_and, and_true] at hlast
    exact ⟨hd, hc, rfl, rfl, hlast⟩
  · rintro ⟨hd, hc, rfl, rfl, rfl⟩
    rw [arrange, arrange, hd, hc]

theorem gazetteerLists_some {g : Gazetteer} {lists : List (List Bytes)}
    (h : gazetteerLists (some g) = some lists) :
    ∃ terms lemmatizers, encodeAll g.termSignature = some terms ∧
      encodeAll g.lemmatizerSignature = some lemmatizers ∧ lists = [terms, lemmatizers] := by
  simp only [gazetteerLists, Option.bind_eq_bind, Option.bind_eq_some_iff, Option.pure_def,
    Option.some.injEq] at h
  obtain ⟨terms, hterms, lemmatizers, hlemmatizers, rfl⟩ := h
  exact ⟨terms, lemmatizers, hterms, hlemmatizers, rfl⟩

theorem gazetteerLists_length {g : Option Gazetteer} {lists : List (List Bytes)}
    (h : gazetteerLists g = some lists) : lists.length = 0 ∨ lists.length = 2 := by
  cases g with
  | none =>
    cases h
    exact .inl rfl
  | some g =>
    obtain ⟨_, _, _, _, rfl⟩ := gazetteerLists_some h
    exact .inr rfl

theorem gazetteerLists_inj {g g' : Option Gazetteer} {lists : List (List Bytes)}
    (h : gazetteerLists g = some lists) (h' : gazetteerLists g' = some lists) : g = g' := by
  cases g with
  | none =>
    cases h
    cases g' with
    | none => rfl
    | some g' =>
      obtain ⟨_, _, _, _, hlists⟩ := gazetteerLists_some h'
      cases hlists
  | some g =>
    obtain ⟨terms, lemmatizers, hterms, hlemmatizers, rfl⟩ := gazetteerLists_some h
    cases g' with
    | none => cases h'
    | some g' =>
      obtain ⟨terms', lemmatizers', hterms', hlemmatizers', hlists⟩ := gazetteerLists_some h'
      simp only [List.cons.injEq, and_true] at hlists
      obtain ⟨rfl, rfl⟩ := hlists
      have hsignature := encodeAll_inj hterms hterms'
      have hlemmas := encodeAll_inj hlemmatizers hlemmatizers'
      cases g
      cases g'
      simp_all

theorem allowlistLists_some {a : { entries : List PyStr // entries.Nodup }}
    {lists : List (List Bytes)} (h : allowlistLists (some a) = some lists) :
    ∃ entries, encodeAll a.val = some entries ∧ lists = [sortedBytes entries] := by
  simp only [allowlistLists, Option.bind_eq_bind, Option.bind_eq_some_iff, Option.pure_def,
    Option.some.injEq] at h
  obtain ⟨entries, hentries, rfl⟩ := h
  exact ⟨entries, hentries, rfl⟩

theorem allowlistLists_length {a : Option { entries : List PyStr // entries.Nodup }}
    {lists : List (List Bytes)} (h : allowlistLists a = some lists) : lists.length ≤ 1 := by
  cases a with
  | none =>
    cases h
    exact Nat.zero_le _
  | some a =>
    obtain ⟨_, _, rfl⟩ := allowlistLists_some h
    exact Nat.le_refl _

theorem entrySet_eq_iff {a a' : { entries : List PyStr // entries.Nodup }} :
    entrySet a = entrySet a' ↔ a.val.Perm a'.val := by
  rw [← Finset.val_inj]
  exact Multiset.coe_eq_coe

theorem allowlistLists_eq_iff {a a' : Option { entries : List PyStr // entries.Nodup }}
    {lists lists' : List (List Bytes)} (h : allowlistLists a = some lists)
    (h' : allowlistLists a' = some lists') :
    lists = lists' ↔ a.map entrySet = a'.map entrySet := by
  cases a with
  | none =>
    cases h
    cases a' with
    | none =>
      cases h'
      simp
    | some a' =>
      obtain ⟨_, _, rfl⟩ := allowlistLists_some h'
      simp
  | some a =>
    obtain ⟨entries, hentries, rfl⟩ := allowlistLists_some h
    cases a' with
    | none =>
      cases h'
      simp
    | some a' =>
      obtain ⟨entries', hentries', rfl⟩ := allowlistLists_some h'
      simp [sortedBytes_eq_iff, encodeAll_perm hentries hentries', entrySet_eq_iff]

/-! ## The fingerprint stands for the policy -/

theorem lists_eq_iff {s s' : Settings} {lists lists' : List (List Bytes)}
    (h : s.lists = some lists) (h' : s'.lists = some lists') :
    lists = lists' ↔ s.policy = s'.policy := by
  obtain ⟨d, c, g, a, t, hd, hc, hg, ha, ht, rfl⟩ := lists_eq_some h
  obtain ⟨d', c', g', a', t', hd', hc', hg', ha', ht', rfl⟩ := lists_eq_some h'
  rw [arrange_inj (gazetteerLists_length hg) (gazetteerLists_length hg')
    (allowlistLists_length ha) (allowlistLists_length ha'), sortedBytes_eq_iff,
    sortedBytes_eq_iff, encodeAll_perm hd hd', encodeAll_perm hc hc', allowlistLists_eq_iff ha ha']
  have hgazetteer : g = g' ↔ s.gazetteer = s'.gazetteer := by
    constructor
    · rintro rfl
      exact gazetteerLists_inj hg hg'
    · intro heq
      rw [heq] at hg
      exact Option.some.inj (hg.symm.trans hg')
  have htrigger : t = t' ↔ s.oracleTrigger = s'.oracleTrigger := by
    constructor
    · rintro rfl
      exact PyStr.encode_inj ht ht'
    · intro heq
      rw [heq] at ht
      exact Option.some.inj (ht.symm.trans ht')
  rw [hgazetteer, htrigger]
  simp [Settings.policy]

/-- The lists that the settings feed have short parts. -/
def Settings.Short (s : Settings) : Prop := ∀ lists, s.lists = some lists → ShortParts lists

theorem preimage_eq_some {s : Settings} {bytes : Bytes} (hshort : s.Short)
    (h : s.preimage = some bytes) :
    ∃ lists, s.lists = some lists ∧ ShortParts lists ∧
      bytes = (lists.map (terminated (lengthPrefixed 8) 0x1c)).flatten := by
  simp only [Settings.preimage, Option.bind_eq_bind, Option.bind_eq_some_iff, Option.pure_def,
    Option.some.injEq] at h
  obtain ⟨lists, hlists, fed, hfed, rfl⟩ := h
  have hparts := hshort lists hlists
  rw [mapM_feed hparts] at hfed
  exact ⟨lists, hlists, hparts, by rw [Option.some.inj hfed]⟩

/-- **The preimage stands for the policy**: with parts of less than `2 ^ 56` bytes, two
settings feed the same bytes to SHA-256 iff they have the same policy. -/
theorem preimage_eq_iff {s s' : Settings} {bytes bytes' : Bytes}
    (hshort : s.Short) (hshort' : s'.Short)
    (h : s.preimage = some bytes) (h' : s'.preimage = some bytes') :
    bytes = bytes' ↔ s.policy = s'.policy := by
  obtain ⟨lists, hlists, hparts, rfl⟩ := preimage_eq_some hshort h
  obtain ⟨lists', hlists', hparts', rfl⟩ := preimage_eq_some hshort' h'
  rw [← lists_eq_iff hlists hlists']
  constructor
  · intro heq
    exact fed_inj hparts hparts' heq
  · rintro rfl
    rfl

/-- Two detectors and, among the allowed entries, the name of a section. -/
def twoDetectors : Settings where
  localDetectors := some ⟨["b".py, "a".py], ["c".py]⟩
  gazetteer := none
  allowlist := some ⟨["allowlist".py], by decide⟩
  oracleTrigger := "always".py

/-- The same detectors the other way round. -/
def twoDetectorsSwapped : Settings :=
  { twoDetectors with localDetectors := some ⟨["a".py, "b".py], ["c".py]⟩ }

theorem short_of_all {s : Settings} (h : (s.lists.all fun lists =>
    lists.all fun parts => parts.all fun part => decide (part.length < 2 ^ 56)) = true) :
    s.Short := by
  intro lists hlists
  rw [hlists] at h
  simpa [ShortParts] using h

theorem preimage_twoDetectors :
    ∃ bytes bytes', twoDetectors.preimage = some bytes ∧
      twoDetectorsSwapped.preimage = some bytes' ∧
      (bytes = bytes' ↔ twoDetectors.policy = twoDetectorsSwapped.policy) := by
  have hshort : twoDetectors.Short := short_of_all (by decide +kernel)
  have hshort' : twoDetectorsSwapped.Short := short_of_all (by decide +kernel)
  have hsome : twoDetectors.preimage.isSome := by decide +kernel
  have hsome' : twoDetectorsSwapped.preimage.isSome := by decide +kernel
  obtain ⟨bytes, h⟩ := Option.isSome_iff_exists.mp hsome
  obtain ⟨bytes', h'⟩ := Option.isSome_iff_exists.mp hsome'
  exact ⟨bytes, bytes', h, h', preimage_eq_iff hshort hshort' h h'⟩

end CorpLlmGateway.Sanitizer.PolicyFingerprint
