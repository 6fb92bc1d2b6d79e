import CorpLlmGateway.Sanitizer.Orchestrator
import CorpLlmGateway.Text.Numerals

/-!
# Merging oracle modes

The model of `normalize_oracle_trigger` of `sanitizer/orchestrator.py`, of the ranking
of oracle modes in `profiles/base.py` and of `effective_oracle_trigger`. Modes are
texts; a merge keeps the one that ranks highest. The ranking is total, while the sets
of leaves that two modes send to the oracle need not be nested: a sampled mode and
`any_local_finding` are incomparable.

* `broadest_text` — the mode of a merge, as a trigger;
* `broadest_keeps_iff` — when a merge keeps every leaf of its layers.
-/

namespace CorpLlmGateway.Profiles

open TextScan CorpLlmGateway.Sanitizer CorpLlmGateway.Detectors
open Numerals (parseInt)
open SanitizationOrchestrator (halfSampled)

/-! ## Texts -/

/-- `str.lower()`, as far as names in ASCII can tell: no other character has one of
their letters as its lower case. -/
def lower (s : Text) : Text := s.map Char.toLower

/-- `str.partition(":")`, without the separator; there is no second part without one. -/
def partitionColon (s : Text) : Text × Text :=
  (s.takeWhile (· != ':'), (s.dropWhile (· != ':')).drop 1)

/-! ## Triggers -/

/-- The canonical text of a trigger. -/
def triggerText : OracleTrigger → Text
  | .gazetteerHit => "gazetteer_hit".toList
  | .anyLocalFinding => "any_local_finding".toList
  | .always => "always".toList
  | .sampled pct => "sampled:".toList ++ Nat.toDigits 10 pct

/-- `normalize_oracle_trigger(value)`; `none` for a `ValueError`. -/
def normalizeOracleTrigger (value : Option Text) : Option OracleTrigger :=
  let value := value.getD []
  let trigger := lower (strip Unicode.isSpace (if value.isEmpty then "gazetteer_hit".toList else value))
  if trigger = "gazetteer_hit".toList then some .gazetteerHit
  else if trigger = "any_local_finding".toList then some .anyLocalFinding
  else if trigger = "always".toList then some .always
  else if "sampled:".toList.isPrefixOf trigger then do
    let pct ← parseInt (trigger.drop 8)
    if h : 0 ≤ pct ∧ pct ≤ 100 then some (.sampled ⟨pct.toNat, by omega⟩) else none
  else none

/-! ## The ranking -/

/-- `_sampled_pct(mode)`. -/
def sampledPct (mode : Text) : Option ℤ :=
  let parts := partitionColon mode
  if lower (strip Unicode.isSpace parts.1) ≠ "sampled".toList then none else parseInt (strip Unicode.isSpace parts.2)

/-- `_canonical_oracle_mode(mode)`. -/
def canonicalOracleMode (mode : Text) : Text :=
  match sampledPct mode with
  | none => mode
  | some pct =>
      if 100 ≤ pct then "always".toList else if pct ≤ 0 then "gazetteer_hit".toList else mode

/-- `_ORACLE_COVERAGE`. -/
def oracleCoverage : List (Text × ℤ) :=
  [("gazetteer_hit".toList, 0), ("sampled".toList, 1), ("any_local_finding".toList, 2),
    ("always".toList, 3)]

/-- `oracle_rank(mode)`. -/
def oracleRank (mode : Text) : ℤ :=
  (oracleCoverage.lookup (lower (strip Unicode.isSpace (partitionColon (canonicalOracleMode mode)).1))).getD (-1)

/-- The key of the maximum: rank first, then percentage. -/
def modeKey (mode : Text) : ℤ × ℤ := (oracleRank mode, (sampledPct mode).getD 0)

/-- The order of two tuples in Python. -/
def KeyLe (a b : ℤ × ℤ) : Prop := a.1 < b.1 ∨ a.1 = b.1 ∧ a.2 ≤ b.2

instance : DecidableRel KeyLe := fun _ _ => inferInstanceAs (Decidable (_ ∨ _))

theorem KeyLe.refl (a : ℤ × ℤ) : KeyLe a a := .inr ⟨rfl, le_rfl⟩

theorem KeyLe.trans {a b c : ℤ × ℤ} (hab : KeyLe a b) (hbc : KeyLe b c) : KeyLe a c := by
  unfold KeyLe at *
  omega

theorem KeyLe.of_not {a b : ℤ × ℤ} (h : ¬ KeyLe a b) : KeyLe b a := by
  unfold KeyLe at *
  omega

/-- One comparison of `max(..., key=...)`, which keeps the first of equals. -/
def keepBroader (best mode : Text) : Text :=
  if KeyLe (modeKey mode) (modeKey best) then best else mode

/-- `broadest_oracle_mode(*modes)`. -/
def broadestOracleMode (modes : List Text) : Text :=
  match modes.map canonicalOracleMode with
  | [] => "gazetteer_hit".toList
  | mode :: rest => rest.foldl keepBroader mode

/-- `effective_oracle_trigger(global_trigger, policy_mode)`. -/
def effectiveOracleTrigger (globalTrigger policyMode : Text) : Option Text := do
  let globalMode ← normalizeOracleTrigger (some globalTrigger)
  let profileMode ← normalizeOracleTrigger (some policyMode)
  return broadestOracleMode [triggerText globalMode, triggerText profileMode]

/-! ## The ranking of canonical texts -/

/-- The two degenerate percentages are fixed modes. -/
def canonicalTrigger : OracleTrigger → OracleTrigger
  | .sampled pct =>
      if 100 ≤ pct.val then .always else if pct.val ≤ 0 then .gazetteerHit else .sampled pct
  | t => t

/-- Rank and percentage of a trigger. -/
def triggerKey : OracleTrigger → ℤ × ℤ
  | .gazetteerHit => (0, 0)
  | .sampled pct => (1, pct.val)
  | .anyLocalFinding => (2, 0)
  | .always => (3, 0)

theorem normalize_text (t : OracleTrigger) :
    normalizeOracleTrigger (some (triggerText t)) = some t := by
  have hsampled : ∀ pct : Fin 101,
      normalizeOracleTrigger (some (triggerText (.sampled pct))) = some (.sampled pct) := by
    decide +kernel
  cases t with
  | sampled pct => exact hsampled pct
  | gazetteerHit => decide +kernel
  | anyLocalFinding => decide +kernel
  | always => decide +kernel

theorem canonical_text (t : OracleTrigger) :
    canonicalOracleMode (triggerText t) = triggerText (canonicalTrigger t) := by
  have hsampled : ∀ pct : Fin 101, canonicalOracleMode (triggerText (.sampled pct)) =
      triggerText (canonicalTrigger (.sampled pct)) := by
    decide +kernel
  cases t with
  | sampled pct => exact hsampled pct
  | gazetteerHit => decide +kernel
  | anyLocalFinding => decide +kernel
  | always => decide +kernel

theorem modeKey_text (t : OracleTrigger) :
    modeKey (triggerText (canonicalTrigger t)) = triggerKey (canonicalTrigger t) := by
  have hsampled : ∀ pct : Fin 101, modeKey (triggerText (canonicalTrigger (.sampled pct))) =
      triggerKey (canonicalTrigger (.sampled pct)) := by
    decide +kernel
  cases t with
  | sampled pct => exact hsampled pct
  | gazetteerHit => decide +kernel
  | anyLocalFinding => decide +kernel
  | always => decide +kernel

/-- The loop of the maximum returns one of the modes, and no other one ranks higher. -/
theorem foldl_keepBroader (best : Text) (modes : List Text) :
    modes.foldl keepBroader best ∈ best :: modes ∧
      ∀ m ∈ best :: modes, KeyLe (modeKey m) (modeKey (modes.foldl keepBroader best)) := by
  induction modes generalizing best with
  | nil => simp [KeyLe.refl]
  | cons mode modes ih =>
    obtain ⟨hmem, hle⟩ := ih (keepBroader best mode)
    rw [List.foldl_cons]
    -- the winner of the first comparison is above both of its sides
    have hstep : KeyLe (modeKey best) (modeKey (keepBroader best mode)) ∧
        KeyLe (modeKey mode) (modeKey (keepBroader best mode)) ∧
        (keepBroader best mode = best ∨ keepBroader best mode = mode) := by
      unfold keepBroader
      split
      · next h => exact ⟨.refl _, h, .inl rfl⟩
      · next h => exact ⟨.of_not h, .refl _, .inr rfl⟩
    obtain ⟨hbest, hmode, heq⟩ := hstep
    have htop := hle _ List.mem_cons_self
    refine ⟨?_, ?_⟩
    · rcases List.mem_cons.mp hmem with h | h
      · rw [h]
        rcases heq with h' | h' <;> simp [h']
      · simp [h]
    · intro m hm
      rcases List.mem_cons.mp hm with rfl | hm
      · exact hbest.trans htop
      rcases List.mem_cons.mp hm with rfl | hm
      · exact hmode.trans htop
      · exact hle m (List.mem_cons_of_mem _ hm)

/-- The mode of a merge is the canonical mode of one of its layers, and no other layer
ranks higher. -/
theorem broadest_text {ts : List OracleTrigger} (hne : ts ≠ []) :
    ∃ t ∈ ts, broadestOracleMode (ts.map triggerText) = triggerText (canonicalTrigger t) ∧
      ∀ t' ∈ ts,
        KeyLe (triggerKey (canonicalTrigger t')) (triggerKey (canonicalTrigger t)) := by
  have hmodes : (ts.map triggerText).map canonicalOracleMode =
      ts.map fun t => triggerText (canonicalTrigger t) := by
    rw [List.map_map]
    exact List.map_congr_left fun t _ => canonical_text t
  obtain ⟨t₀, rest, rfl⟩ := List.exists_cons_of_ne_nil hne
  obtain ⟨hmem, hle⟩ := foldl_keepBroader (triggerText (canonicalTrigger t₀))
    (rest.map fun t => triggerText (canonicalTrigger t))
  rw [← List.map_cons (f := fun t => triggerText (canonicalTrigger t))] at hmem hle
  obtain ⟨t, ht, heq⟩ := List.mem_map.mp hmem
  refine ⟨t, ht, ?_, ?_⟩
  · rw [broadestOracleMode, hmodes, heq]
    rfl
  · intro t' ht'
    have h := hle _ (List.mem_map_of_mem ht')
    rwa [← heq, modeKey_text, modeKey_text] at h

/-! ## Coverage -/

/-- Whether an orchestrator that is built with a mode asks the oracle about a leaf. -/
def runsUnder (o : SanitizationOrchestrator) (mode : Text)
    (gazFindings localFindings : List Finding) (rulesPairs : List Pair)
    (conversationId text : Text) : Bool :=
  match normalizeOracleTrigger (some mode) with
  | some t =>
      { o with oracleTrigger := t }.oracleShouldRun gazFindings localFindings rulesPairs
        conversationId text
  | none => false

section Coverage

variable {o : SanitizationOrchestrator} {gazFindings localFindings : List Finding}
  {rulesPairs : List Pair} {conversationId text : Text}

/-- What a trigger asks of a leaf without a gazetteer hit. -/
def Asks (localFindings : List Finding) (rulesPairs : List Pair) (seed : Text) :
    OracleTrigger → Prop
  | .gazetteerHit => False
  | .sampled pct => sampleSelected seed pct = true
  | .anyLocalFinding => localFindings ≠ [] ∨ rulesPairs ≠ []
  | .always => True

theorem runsUnder_iff (henabled : o.oracleEnabled = true) (t : OracleTrigger) :
    runsUnder o (triggerText t) gazFindings localFindings rulesPairs conversationId text = true ↔
      gazFindings ≠ [] ∨ Asks localFindings rulesPairs (sampleSeed conversationId text) t := by
  have hshould :
      runsUnder o (triggerText t) gazFindings localFindings rulesPairs conversationId text =
      { o with oracleTrigger := t }.oracleShouldRun gazFindings localFindings rulesPairs
        conversationId text := by
    simp only [runsUnder, normalize_text]
  rw [hshould]
  cases gazFindings with
  | cons f fs => simp [SanitizationOrchestrator.oracleShouldRun, henabled]
  | nil =>
    cases t <;> simp [SanitizationOrchestrator.oracleShouldRun, henabled, Asks]

/-- The degenerate percentages ask what their fixed modes ask. -/
theorem asks_canonical {seed : Text} (t : OracleTrigger) :
    Asks localFindings rulesPairs seed (canonicalTrigger t) ↔
      Asks localFindings rulesPairs seed t := by
  cases t with
  | sampled pct =>
    simp only [canonicalTrigger]
    split
    · next h => simp [Asks, sampleSelected, h, show ¬ pct.val ≤ 0 by omega]
    · split
      · next h => simp [Asks, sampleSelected, h]
      · rfl
  | gazetteerHit => rfl
  | anyLocalFinding => rfl
  | always => rfl

/-- A higher percentage selects every text a lower one selects. -/
theorem sampleSelected_mono {seed : Text} {pct pct' : ℕ} (hle : pct ≤ pct')
    (h : sampleSelected seed pct = true) : sampleSelected seed pct' = true := by
  unfold sampleSelected at h ⊢
  split at h
  · exact absurd h (by simp)
  rw [if_neg (by omega)]
  split at h
  · rw [if_pos (by omega)]
  · split
    · rfl
    · simp only [decide_eq_true_eq] at h ⊢
      omega

/-- A leaf without any finding that a sampled layer selects, under layers whose broadest
mode waits for a finding. -/
structure SampleLost (ts : List OracleTrigger) (gazFindings localFindings : List Finding)
    (rulesPairs : List Pair) (seed : Text) : Prop where
  no_gazetteer : gazFindings = []
  no_finding : localFindings = []
  no_pair : rulesPairs = []
  waits : .anyLocalFinding ∈ ts
  not_always : .always ∉ ts
  not_full : .sampled 100 ∉ ts
  selected : ∃ pct : Fin 101, .sampled pct ∈ ts ∧ sampleSelected seed pct = true

/-- A canonical trigger is `always` exactly for the two spellings of it. -/
theorem canonicalTrigger_eq_always {t : OracleTrigger} :
    canonicalTrigger t = .always ↔ t = .always ∨ t = .sampled 100 := by
  cases t with
  | sampled pct =>
    have hfull : ∀ pct : Fin 101, canonicalTrigger (.sampled pct) = .always ↔
        OracleTrigger.sampled pct = .always ∨ OracleTrigger.sampled pct = .sampled 100 := by
      decide +kernel
    exact hfull pct
  | gazetteerHit => simp [canonicalTrigger]
  | anyLocalFinding => simp [canonicalTrigger]
  | always => simp [canonicalTrigger]

theorem canonicalTrigger_eq_anyLocalFinding {t : OracleTrigger} :
    canonicalTrigger t = .anyLocalFinding ↔ t = .anyLocalFinding := by
  cases t with
  | sampled pct =>
    simp only [canonicalTrigger]
    split
    · simp
    · split <;> simp
  | gazetteerHit => simp [canonicalTrigger]
  | anyLocalFinding => simp [canonicalTrigger]
  | always => simp [canonicalTrigger]

/-- Of two triggers in the order of the ranking the higher asks whatever the lower one
asks, unless a sampled trigger meets one that waits for a finding. -/
theorem asks_of_keyLe {seed : Text} {t t' : OracleTrigger}
    (hle : KeyLe (triggerKey t') (triggerKey t))
    (hask : Asks localFindings rulesPairs seed t')
    (hwait : t = .anyLocalFinding → localFindings = [] → rulesPairs = [] →
      ∀ pct, t' ≠ .sampled pct) :
    Asks localFindings rulesPairs seed t := by
  cases t with
  | always => trivial
  | gazetteerHit =>
    cases t' with
    | gazetteerHit => exact hask
    | sampled pct => simp [KeyLe, triggerKey] at hle
    | anyLocalFinding => simp [KeyLe, triggerKey] at hle
    | always => simp [KeyLe, triggerKey] at hle
  | sampled pct =>
    cases t' with
    | gazetteerHit => exact hask.elim
    | sampled pct' =>
      have hpct : pct'.val ≤ pct.val := by simpa [KeyLe, triggerKey] using hle
      exact sampleSelected_mono hpct hask
    | anyLocalFinding => simp [KeyLe, triggerKey] at hle
    | always => simp [KeyLe, triggerKey] at hle
  | anyLocalFinding =>
    cases t' with
    | gazetteerHit => exact hask.elim
    | sampled pct' =>
      by_contra hnone
      simp only [Asks, not_or, not_not] at hnone
      exact hwait rfl hnone.1 hnone.2 pct' rfl
    | anyLocalFinding => exact hask
    | always => simp [KeyLe, triggerKey] at hle

/-- A merge keeps every leaf that one of its layers sends to the oracle, except for a
sampled leaf under layers that wait for a finding: the ranking puts `any_local_finding`
above every sampled mode, and a leaf can be selected without having a finding. -/
theorem broadest_keeps_iff (o : SanitizationOrchestrator) (henabled : o.oracleEnabled = true)
    (ts : List OracleTrigger) (hne : ts ≠ []) (gazFindings localFindings : List Finding)
    (rulesPairs : List Pair) (conversationId text : Text) :
    (∀ mode ∈ ts.map triggerText,
      runsUnder o mode gazFindings localFindings rulesPairs conversationId text = true →
        runsUnder o (broadestOracleMode (ts.map triggerText)) gazFindings localFindings rulesPairs
          conversationId text = true) ↔
      ¬ SampleLost ts gazFindings localFindings rulesPairs (sampleSeed conversationId text) := by
  obtain ⟨t, ht, hbroadest, htop⟩ := broadest_text hne
  rw [hbroadest]
  simp only [List.forall_mem_map, runsUnder_iff henabled, asks_canonical]
  constructor
  · intro hkeeps hlost
    obtain ⟨pct, hmem, hselected⟩ := hlost.selected
    -- the winner ranks at least as high as the waiting layer and is not `always`
    have hwaits : canonicalTrigger t = .anyLocalFinding := by
      have hle := htop _ hlost.waits
      cases hcanonical : canonicalTrigger t with
      | anyLocalFinding => rfl
      | always =>
        rcases canonicalTrigger_eq_always.mp hcanonical with rfl | rfl
        · exact absurd ht hlost.not_always
        · exact absurd ht hlost.not_full
      | gazetteerHit =>
        rw [hcanonical] at hle
        simp [KeyLe, triggerKey, canonicalTrigger] at hle
      | sampled pct' =>
        rw [hcanonical] at hle
        simp [KeyLe, triggerKey, canonicalTrigger] at hle
    rw [canonicalTrigger_eq_anyLocalFinding] at hwaits
    subst hwaits
    rcases hkeeps _ hmem (.inr hselected) with h | h | h
    · exact h hlost.no_gazetteer
    · exact h hlost.no_finding
    · exact h hlost.no_pair
  · intro hkept t' ht' hruns
    rcases hruns with hgaz | hask
    · exact .inl hgaz
    by_cases hgaz : gazFindings = []
    · refine .inr ((asks_canonical t).mp
        (asks_of_keyLe (htop t' ht') ((asks_canonical t').mpr hask) ?_))
      intro hwaits hfinding hpair pct hsampled
      -- nothing ranks above the waiting layer, so no layer is `always`
      have hnone : ∀ t'' ∈ ts, canonicalTrigger t'' ≠ .always := by
        intro t'' ht'' halways
        have hle := htop t'' ht''
        simp [halways, hwaits, KeyLe, triggerKey] at hle
      have hmem : .anyLocalFinding ∈ ts := canonicalTrigger_eq_anyLocalFinding.mp hwaits ▸ ht
      refine hkept ⟨hgaz, hfinding, hpair, hmem, ?_, ?_, ?_⟩
      · exact fun h => hnone _ h rfl
      · exact fun h => hnone _ h (canonicalTrigger_eq_always.mpr (.inr rfl))
      · cases t' with
        | sampled pct' => exact ⟨pct', ht', hask⟩
        | gazetteerHit => simp [canonicalTrigger] at hsampled
        | anyLocalFinding => simp [canonicalTrigger] at hsampled
        | always => simp [canonicalTrigger] at hsampled
    · exact .inl hgaz

end Coverage

/-- Two sampled layers over the same leaf: the merge keeps it. -/
theorem broadest_keeps_sampled :
    halfSampled.oracleEnabled = true ∧ ∀ mode ∈ [OracleTrigger.sampled 20, .sampled 50].map triggerText,
      runsUnder halfSampled mode [] [] [] "c1".toList "hi bob".toList = true →
        runsUnder halfSampled
          (broadestOracleMode ([OracleTrigger.sampled 20, .sampled 50].map triggerText)) [] [] []
          "c1".toList "hi bob".toList = true :=
  ⟨rfl, (broadest_keeps_iff halfSampled rfl [.sampled 20, .sampled 50] (by simp) [] [] [] _ _).mpr
    fun hlost => absurd hlost.waits (by simp)⟩

/-- A layer that samples half of the leaves selects this one; merged with a layer that
waits for a finding, the oracle is not asked. -/
theorem broadest_skips_sampled :
    runsUnder halfSampled "sampled:50".toList [] [] [] "c1".toList "hi bob".toList = true ∧
      broadestOracleMode ["sampled:50".toList, "any_local_finding".toList] =
        "any_local_finding".toList ∧
      runsUnder halfSampled
        (broadestOracleMode ["sampled:50".toList, "any_local_finding".toList]) [] [] []
        "c1".toList "hi bob".toList = false := by
  decide +kernel

end CorpLlmGateway.Profiles
