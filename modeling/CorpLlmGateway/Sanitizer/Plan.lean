import CorpLlmGateway.Rules.Models
import CorpLlmGateway.Sanitizer.RoundTrip
import CorpLlmGateway.Sanitizer.Spans

/-!
# Replacement plans

The model of `_rule_matches` and `_plan_replacements` of `sanitizer/orchestrator.py`.
Rule matches and the occurrences of the other originals compete in one pool, longest
span first, and the winners are replaced.

* `plan_ok` — a plan built from rule matches of the text is always applied;
* `plan_replay` — planning again from the pairs a plan kept gives the same plan.
-/

namespace CorpLlmGateway.Sanitizer

open TextScan

/-! ## Rule matches -/

/-- A rule of `replace.md`. -/
abbrev Rule := CorpLlmGateway.Rules.Rule Char

/-- The rules of a team, in file order. -/
abbrev Rules := List Rule

/-- `_MatchedRule`. -/
structure MatchedRule where
  start : ℕ
  stop : ℕ
  original : Text
  replacement : Text
deriving DecidableEq, Repr

/-- `_rule_pattern(source)`: the literal, compared without case. -/
def rulePattern (source : Text) : Matcher Char Unit := litBy Unicode.eqIgnoreCase source

/-- Longest pattern first; the sort is stable, so equal lengths keep the file order. -/
def orderedRules (rules : Rules) : Rules :=
  rules.insertionSort fun a b => b.pattern.length ≤ a.pattern.length

def MatchedRule.range (m : MatchedRule) : ℕ × ℕ := (m.start, m.stop)

/-- All matches of all rules, in the order in which they are tried. -/
def ruleCandidates (rules : Rules) (text : Text) : List MatchedRule :=
  (orderedRules rules).flatMap fun rule =>
    (finditer (rulePattern rule.pattern) text).map fun h =>
      ⟨h.start, h.stop, slice text h.start h.stop, rule.replacement⟩

/-- `_rule_matches(rules, text)`. -/
def ruleMatches (rules : Rules) (text : Text) : List MatchedRule :=
  (selectSpans MatchedRule.range (ruleCandidates rules text)).insertionSort
    fun a b => a.start ≤ b.start

/-! ## Planning -/

/-- The pairs with a non-empty original, the first pair of an original. -/
def uniquePairs (pairs : List Pair) : Dict Text Text :=
  Dict.ofPairs (pairs.filter fun e => e.1 ≠ [])

/-- The originals owned by rules: those given, or those whose match has its own pair. -/
def activeRuleOrigins (unique : Dict Text Text) (found : List MatchedRule) :
    Option (Finset Text) → Finset Text
  | some active => active
  | none =>
      ((found.filter fun m => (m.original, m.replacement) ∈ unique.entries).map
        MatchedRule.original).toFinset

/-- A candidate span; `isFinding` is 0 for a rule match and 1 for a finding. -/
structure Candidate where
  isFinding : ℕ
  span : AppliedSpan
deriving DecidableEq, Repr

def Candidate.range (c : Candidate) : ℕ × ℕ := (c.span.start, c.span.stop)

/-- The sort key `(-length, is_finding, start, pair_index)`; the pair index is the
position of the original among the unique pairs. -/
def Candidate.sortKey (originals : List Text) (c : Candidate) : ℤ ×ₗ ℕ ×ₗ ℕ ×ₗ ℕ :=
  toLex (-((c.span.stop : ℤ) - c.span.start),
    toLex (c.isFinding, toLex (c.span.start, originals.idxOf c.span.original)))

def Candidate.le (originals : List Text) (a b : Candidate) : Prop :=
  a.sortKey originals ≤ b.sortKey originals

instance (originals : List Text) : DecidableRel (Candidate.le originals) := fun a b =>
  inferInstanceAs (Decidable (a.sortKey originals ≤ b.sortKey originals))

/-- The candidates: rule matches of active originals, then the occurrences of the
other originals. -/
def candidates (text : Text) (originals : List Text) (found : List MatchedRule)
    (active : Finset Text) : List Candidate :=
  ((found.filter fun m => m.original ∈ active ∧ m.original ∈ originals).map fun m =>
      ⟨0, ⟨m.start, m.stop, m.original⟩⟩) ++
    (originals.filter fun o => o ∉ active).flatMap fun o =>
      (finditer (lit o) text).map fun h => ⟨1, ⟨h.start, h.stop, o⟩⟩

/-- The candidates in the order in which they are tried. -/
def candidatePool (text : Text) (originals : List Text) (found : List MatchedRule)
    (active : Finset Text) : List Candidate :=
  (candidates text originals found active).insertionSort (Candidate.le originals)

/-- `_ReplacementPlan`. -/
structure ReplacementPlan where
  sanitizedText : Text
  pairs : List Pair
  spans : List AppliedSpan
  ruleOriginals : Finset Text
deriving DecidableEq

/-- The selected spans in text order. -/
def planSpans (pool : List Candidate) : List AppliedSpan :=
  ((selectSpans Candidate.range pool).map Candidate.span).insertionSort AppliedSpan.le

/-- The originals that rules own in a planning call. -/
def ownedOriginals (pairs : List Pair) (found : List MatchedRule)
    (active : Option (Finset Text)) : Finset Text :=
  activeRuleOrigins (uniquePairs pairs) found active

/-- The pool of a planning call. -/
def planPool (text : Text) (pairs : List Pair) (found : List MatchedRule)
    (active : Option (Finset Text)) : List Candidate :=
  candidatePool text (uniquePairs pairs).keys found (ownedOriginals pairs found active)

/-- The pairs whose original was selected. -/
def usedPairs (pairs : List Pair) (spans : List AppliedSpan) : List Pair :=
  (uniquePairs pairs).entries.filter fun e => e.1 ∈ spans.map AppliedSpan.original

/-- `_plan_replacements(text, pairs, rule_matches, active_rule_origins=active)`. -/
def planReplacements (text : Text) (pairs : List Pair) (found : List MatchedRule)
    (active : Option (Finset Text)) : Except StaleSpanError ReplacementPlan :=
  let spans := planSpans (planPool text pairs found active)
  match applySpans text spans (usedPairs pairs spans) with
  | .error e => .error e
  | .ok sanitizedText => .ok
      { sanitizedText
        pairs := usedPairs pairs spans
        spans
        ruleOriginals := (ownedOriginals pairs found active).filter
          (· ∈ spans.map AppliedSpan.original) }

/-! ## Candidates are ranges of the text -/

/-- A match is a range of the text. -/
structure MatchedRule.On (text : Text) (m : MatchedRule) : Prop where
  le : m.start ≤ m.stop
  bound : m.stop ≤ text.length
  covers : slice text m.start m.stop = m.original

theorem ruleMatches_on (rules : Rules) (text : Text) : ∀ m ∈ ruleMatches rules text, m.On text := by
  intro m hm
  have hc : m ∈ ruleCandidates rules text :=
    (Selection.greedy_sublist _ _).subset ((List.mem_insertionSort _).mp hm)
  rcases List.mem_flatMap.mp hc with ⟨rule, _, hr⟩
  rcases List.mem_map.mp hr with ⟨h, hh, rfl⟩
  exact ⟨(mem_finditer hh).2.1, (litBy_sound _ _).stop_le hh, rfl⟩

/-- A candidate is a non-empty range of the text whose original has a pair. -/
structure Candidate.Valid (text : Text) (originals : List Text) (c : Candidate) : Prop where
  lt : c.span.start < c.span.stop
  bound : c.span.stop ≤ text.length
  covers : slice text c.span.start c.span.stop = c.span.original
  known : c.span.original ∈ originals

/-- A hit of a literal is an occurrence of it. -/
theorem hit_of_lit {o text : Text} {h : Hit Unit} (hh : h ∈ finditer (lit o) text) :
    h.stop = h.start + o.length ∧ o <+: text.drop h.start := by
  rcases mem_finditer hh with ⟨_, hle, hat⟩
  rcases lit_at.mp hat with ⟨hpre, hlen⟩
  exact ⟨by omega, hpre⟩

theorem uniquePairs_ne_nil (pairs : List Pair) : ∀ o ∈ (uniquePairs pairs).keys, o ≠ [] := by
  intro o ho
  have hmem := Dict.mem_keys_ofPairs.mp ho
  rcases List.mem_map.mp hmem with ⟨e, he, rfl⟩
  simpa using (List.mem_filter.mp he).2

theorem mem_uniquePairs_keys {pairs : List Pair} {o : Text} (ho : o ∈ pairs.map Prod.fst)
    (hne : o ≠ []) : o ∈ (uniquePairs pairs).keys := by
  rcases List.mem_map.mp ho with ⟨e, he, rfl⟩
  refine Dict.mem_keys_ofPairs.mpr (List.mem_map_of_mem (List.mem_filter.mpr ⟨he, ?_⟩))
  simpa using hne

section Pool

variable {text : Text} {originals : List Text} {found : List MatchedRule} {active : Finset Text}

theorem candidates_valid (hfound : ∀ m ∈ found, m.On text) (hne : ∀ o ∈ originals, o ≠ []) :
    ∀ c ∈ candidates text originals found active, c.Valid text originals := by
  intro c hc
  rcases List.mem_append.mp hc with hc | hc
  · rcases List.mem_map.mp hc with ⟨m, hm, rfl⟩
    rcases List.mem_filter.mp hm with ⟨hm, hact⟩
    have hknown : m.original ∈ originals := (of_decide_eq_true hact).2
    have hon := hfound m hm
    refine ⟨lt_of_le_of_ne hon.le ?_, hon.bound, hon.covers, hknown⟩
    intro (heq : m.start = m.stop)
    -- an empty match has the empty original, which has no pair
    have hempty : m.original = [] := by rw [← hon.covers, heq, slice_self]
    exact hne _ hknown hempty
  · rcases List.mem_flatMap.mp hc with ⟨o, ho, hc⟩
    rcases List.mem_map.mp hc with ⟨h, hh, rfl⟩
    have hknown : o ∈ originals := (List.mem_filter.mp ho).1
    rcases hit_of_lit hh with ⟨hstop, hpre⟩
    have hlen : 0 < o.length := List.length_pos_iff.mpr (hne o hknown)
    refine ⟨?_, (litBy_sound _ _).stop_le hh, ?_, hknown⟩
    · show h.start < h.stop
      omega
    · show slice text h.start h.stop = o
      rw [hstop, slice_eq_of_prefix_drop hpre]

/-- The candidates are tried in order of their keys. -/
def Candidate.Ahead (originals : List Text) (a b : Candidate) : Prop :=
  a.sortKey originals < b.sortKey originals

instance (originals : List Text) : Std.Total (Candidate.le originals) :=
  ⟨fun a b => le_total (a.sortKey originals) (b.sortKey originals)⟩

instance (originals : List Text) : IsTrans Candidate (Candidate.le originals) :=
  ⟨fun _ _ _ hab hbc => le_trans (α := ℤ ×ₗ ℕ ×ₗ ℕ ×ₗ ℕ) hab hbc⟩

theorem Candidate.Valid.eq_of_sortKey {a b : Candidate} (ha : a.Valid text originals)
    (hb : b.Valid text originals) (h : a.sortKey originals = b.sortKey originals) : a = b := by
  rcases a with ⟨fa, sa, ea, oa⟩
  rcases b with ⟨fb, sb, eb, ob⟩
  simp only [Candidate.sortKey, EmbeddingLike.apply_eq_iff_eq, Prod.mk.injEq] at h
  rcases h with ⟨hlen, rfl, rfl, _⟩
  have hstop : ea = eb := by omega
  subst hstop
  have hoa : slice text sa ea = oa := ha.covers
  have hob : slice text sa ea = ob := hb.covers
  rw [← hoa, ← hob]

theorem candidatePool_sorted (hfound : ∀ m ∈ found, m.On text) (hne : ∀ o ∈ originals, o ≠ []) :
    (candidatePool text originals found active).Pairwise fun a b =>
      Candidate.Ahead originals a b ∨ a = b := by
  have hpw := List.pairwise_insertionSort (Candidate.le originals)
    (candidates text originals found active)
  refine hpw.imp_of_mem ?_
  intro a b ha hb hab
  rcases lt_or_eq_of_le (show a.sortKey originals ≤ b.sortKey originals from hab) with hlt | heq
  · exact Or.inl hlt
  · have hva := candidates_valid hfound hne a ((List.mem_insertionSort _).mp ha)
    have hvb := candidates_valid hfound hne b ((List.mem_insertionSort _).mp hb)
    exact Or.inr (hva.eq_of_sortKey hvb heq)

theorem candidatePool_valid (hfound : ∀ m ∈ found, m.On text) (hne : ∀ o ∈ originals, o ≠ []) :
    ∀ c ∈ candidatePool text originals found active, c.Valid text originals := by
  intro c hc
  exact candidates_valid hfound hne c ((List.mem_insertionSort _).mp hc)

end Pool

/-! ## A plan is applied -/

section Plan

variable {text : Text} {originals : List Text} {pool : List Candidate}
  (hvalid : ∀ c ∈ pool, c.Valid text originals)

include hvalid

theorem mem_selected_valid {c : Candidate} (hc : c ∈ selectSpans Candidate.range pool) :
    c.Valid text originals :=
  hvalid c ((Selection.greedy_sublist _ _).subset hc)

/-- The selected spans are disjoint ranges of the text. -/
theorem planSpans_ok : PlanOk text (planSpans pool) := by
  have hne : ∀ c ∈ pool, c.range.1 < c.range.2 := fun c hc => (hvalid c hc).lt
  constructor
  · intro s hs
    rcases List.mem_map.mp ((List.mem_insertionSort _).mp hs) with ⟨c, hc, rfl⟩
    have hv := mem_selected_valid hvalid hc
    exact ⟨hv.lt, hv.bound, hv.covers⟩
  · have hdis : ((selectSpans Candidate.range pool).map Candidate.span).Pairwise fun a b =>
        a.stop ≤ b.start ∨ b.stop ≤ a.start := by
      rw [List.pairwise_map]
      refine (selectSpans_disjoint hne).imp ?_
      intro a b hab
      simp only [Overlap, Candidate.range] at hab
      omega
    refine (List.perm_insertionSort AppliedSpan.le _).symm.pairwise hdis ?_
    intro a b hab
    exact hab.symm

theorem planSpans_known : ∀ s ∈ planSpans pool, s.original ∈ originals := by
  intro s hs
  rcases List.mem_map.mp ((List.mem_insertionSort _).mp hs) with ⟨c, hc, rfl⟩
  exact (mem_selected_valid hvalid hc).known

end Plan

theorem planPool_valid {text : Text} {found : List MatchedRule} (hfound : ∀ m ∈ found, m.On text)
    (pairs : List Pair) (active : Option (Finset Text)) :
    ∀ c ∈ planPool text pairs found active, c.Valid text (uniquePairs pairs).keys :=
  candidatePool_valid hfound (uniquePairs_ne_nil pairs)

/-- **A plan built from matches of the text is always applied**, with the selected
spans. -/
theorem plan_ok {text : Text} {found : List MatchedRule} (hfound : ∀ m ∈ found, m.On text)
    (pairs : List Pair) (active : Option (Finset Text)) :
    ∃ plan, planReplacements text pairs found active = .ok plan ∧
      plan.spans = planSpans (planPool text pairs found active) := by
  have hvalid := planPool_valid hfound pairs active
  have hpair : ∀ s ∈ planSpans (planPool text pairs found active),
      s.original ∈ (usedPairs pairs (planSpans (planPool text pairs found active))).map Prod.fst := by
    intro s hs
    rcases List.mem_map.mp (planSpans_known hvalid s hs) with ⟨e, he, heq⟩
    refine List.mem_map.mpr ⟨e, List.mem_filter.mpr ⟨he, ?_⟩, heq⟩
    rw [decide_eq_true_eq, heq]
    exact List.mem_map_of_mem hs
  rcases applySpans_marked (planSpans_ok hvalid) hpair with ⟨ms, hok, _⟩
  simp only [planReplacements, hok]
  exact ⟨_, rfl, rfl⟩

/-! ## Planning again from the kept pairs -/

theorem mem_usedPairs {pairs : List Pair} {spans : List AppliedSpan} {e : Pair} :
    e ∈ usedPairs pairs spans ↔
      e ∈ (uniquePairs pairs).entries ∧ e.1 ∈ spans.map AppliedSpan.original := by
  simp only [usedPairs, List.mem_filter, decide_eq_true_eq]

/-- The pairs a plan keeps are their own unique pairs. -/
theorem uniquePairs_usedPairs (pairs : List Pair) (spans : List AppliedSpan) :
    (uniquePairs (usedPairs pairs spans)).entries = usedPairs pairs spans := by
  have hne : (usedPairs pairs spans).filter (fun e => e.1 ≠ []) = usedPairs pairs spans := by
    rw [List.filter_eq_self]
    intro e he
    have hkey : e.1 ∈ (uniquePairs pairs).keys := List.mem_map_of_mem (List.mem_filter.mp he).1
    simpa using uniquePairs_ne_nil pairs e.1 hkey
  unfold uniquePairs at hne ⊢
  rw [hne]
  apply Dict.entries_ofPairs
  exact ((uniquePairs pairs).nodup.sublist (List.filter_sublist.map _))

/-- The position of kept elements in a list orders them as before. -/
theorem idxOf_filter_le {α : Type} [BEq α] [LawfulBEq α] (P : α → Bool) {l : List α} {a b : α}
    (ha : P a = true) (hb : P b = true) (hmem : a ∈ l) (hmem' : b ∈ l) :
    (l.filter P).idxOf a ≤ (l.filter P).idxOf b ↔ l.idxOf a ≤ l.idxOf b := by
  induction l with
  | nil => exact absurd hmem List.not_mem_nil
  | cons x l ih =>
    by_cases hx : P x = true
    · rw [List.filter_cons_of_pos hx]
      by_cases hxa : x = a
      · simp [hxa, List.idxOf_cons_self]
      · rw [List.idxOf_cons_ne _ hxa, List.idxOf_cons_ne _ hxa]
        by_cases hxb : x = b
        · simp [hxb, List.idxOf_cons_self]
        · rw [List.idxOf_cons_ne _ hxb, List.idxOf_cons_ne _ hxb, Nat.succ_le_succ_iff,
            Nat.succ_le_succ_iff]
          exact ih (List.mem_of_ne_of_mem (Ne.symm hxa) hmem)
            (List.mem_of_ne_of_mem (Ne.symm hxb) hmem')
    · have hxa : x ≠ a := fun h => hx (h ▸ ha)
      have hxb : x ≠ b := fun h => hx (h ▸ hb)
      rw [List.filter_cons_of_neg hx, List.idxOf_cons_ne _ hxa, List.idxOf_cons_ne _ hxb]
      rw [ih (List.mem_of_ne_of_mem hxa.symm hmem) (List.mem_of_ne_of_mem hxb.symm hmem'),
        Nat.succ_le_succ_iff]

section Replay

variable {text : Text} {found : List MatchedRule}

theorem keys_usedPairs (pairs : List Pair) (spans : List AppliedSpan) :
    (uniquePairs (usedPairs pairs spans)).keys =
      (uniquePairs pairs).keys.filter fun o => o ∈ spans.map AppliedSpan.original := by
  unfold Dict.keys
  rw [uniquePairs_usedPairs, usedPairs, List.filter_map]
  rfl

theorem mem_ownedOriginals {pairs : List Pair} {o : Text} :
    o ∈ ownedOriginals pairs found none ↔
      ∃ m ∈ found, m.original = o ∧ (m.original, m.replacement) ∈ (uniquePairs pairs).entries := by
  simp only [ownedOriginals, activeRuleOrigins, List.mem_toFinset, List.mem_map, List.mem_filter,
    decide_eq_true_eq, and_assoc]
  constructor
  · rintro ⟨m, hm, he, ho⟩
    exact ⟨m, hm, ho, he⟩
  · rintro ⟨m, hm, ho, he⟩
    exact ⟨m, hm, he, ho⟩

/-- Rules own the originals they owned before, as far as those were selected. -/
theorem mem_ownedOriginals_usedPairs {pairs : List Pair} {spans : List AppliedSpan} {o : Text} :
    o ∈ ownedOriginals (usedPairs pairs spans) found none ↔
      o ∈ ownedOriginals pairs found none ∧ o ∈ spans.map AppliedSpan.original := by
  simp only [mem_ownedOriginals, uniquePairs_usedPairs, mem_usedPairs]
  constructor
  · rintro ⟨m, hm, rfl, he, hu⟩
    exact ⟨⟨m, hm, rfl, he⟩, hu⟩
  · rintro ⟨⟨m, hm, rfl, he⟩, hu⟩
    exact ⟨m, hm, rfl, he, hu⟩

theorem filter_flatMap_of_const {α β : Type} {f : α → List β} {P : β → Bool} {Q : α → Bool}
    (h : ∀ a, ∀ b ∈ f a, P b = Q a) (l : List α) :
    (l.flatMap f).filter P = (l.filter Q).flatMap f := by
  induction l with
  | nil => rfl
  | cons a l ih =>
    rw [List.flatMap_cons, List.filter_append, ih]
    by_cases ha : Q a = true
    · rw [List.filter_cons_of_pos ha, List.flatMap_cons, List.filter_eq_self.mpr]
      intro b hb
      rw [h a b hb, ha]
    · rw [List.filter_cons_of_neg ha, List.filter_eq_nil_iff.mpr, List.nil_append]
      intro b hb
      rw [h a b hb]
      exact ha

/-- The candidates of the kept pairs are the candidates with a selected original. -/
theorem candidates_usedPairs (pairs : List Pair) (spans : List AppliedSpan) :
    candidates text (uniquePairs (usedPairs pairs spans)).keys found
        (ownedOriginals (usedPairs pairs spans) found none) =
      (candidates text (uniquePairs pairs).keys found (ownedOriginals pairs found none)).filter
        fun c => c.span.original ∈ spans.map AppliedSpan.original := by
  unfold candidates
  rw [List.filter_append]
  congr 1
  · rw [List.filter_map, List.filter_filter]
    congr 1
    apply List.filter_congr
    intro m _
    simp only [Function.comp, keys_usedPairs, mem_ownedOriginals_usedPairs, List.mem_filter,
      decide_eq_true_eq, ← Bool.decide_and]
    congr 1
    exact propext (by tauto)
  · rw [filter_flatMap_of_const (Q := fun o => decide (o ∈ spans.map AppliedSpan.original)),
      keys_usedPairs, List.filter_filter, List.filter_filter]
    · congr 1
      apply List.filter_congr
      intro o _
      simp only [mem_ownedOriginals_usedPairs, ← Bool.decide_and]
      congr 1
      exact propext (by tauto)
    · intro o c hc
      rcases List.mem_map.mp hc with ⟨h, _, rfl⟩
      rfl

theorem candidates_known {originals : List Text} {active : Finset Text} :
    ∀ c ∈ candidates text originals found active, c.span.original ∈ originals := by
  intro c hc
  rcases List.mem_append.mp hc with hc | hc
  · rcases List.mem_map.mp hc with ⟨m, hm, rfl⟩
    exact (of_decide_eq_true (List.mem_filter.mp hm).2).2
  · rcases List.mem_flatMap.mp hc with ⟨o, ho, hc⟩
    rcases List.mem_map.mp hc with ⟨h, _, rfl⟩
    exact (List.mem_filter.mp ho).1

/-- Dropping unused originals renumbers the pairs without reordering candidates. -/
theorem Candidate.le_filter {originals : List Text} {P : Text → Bool} {a b : Candidate}
    (ha : P a.span.original = true) (hb : P b.span.original = true)
    (hka : a.span.original ∈ originals) (hkb : b.span.original ∈ originals) :
    Candidate.le originals a b ↔ Candidate.le (originals.filter P) a b := by
  simp only [Candidate.le, Candidate.sortKey, Prod.Lex.toLex_le_toLex,
    idxOf_filter_le P ha hb hka hkb]

/-- The pool of the kept pairs is the pool without the candidates that lost for good. -/
theorem planPool_usedPairs (pairs : List Pair) (spans : List AppliedSpan) :
    planPool text (usedPairs pairs spans) found none =
      (planPool text pairs found none).filter fun c =>
        c.span.original ∈ spans.map AppliedSpan.original := by
  unfold planPool candidatePool
  rw [candidates_usedPairs, keys_usedPairs, ← Selection.insertionSort_filter]
  have hsort := List.map_insertionSort (Candidate.le (uniquePairs pairs).keys)
    (Candidate.le ((uniquePairs pairs).keys.filter fun o => o ∈ spans.map AppliedSpan.original)) id
    ((candidates text (uniquePairs pairs).keys found (ownedOriginals pairs found none)).filter
      fun c => c.span.original ∈ spans.map AppliedSpan.original) ?_
  · simpa using hsort.symm
  · intro a ha b hb
    rcases List.mem_filter.mp ha with ⟨hca, hua⟩
    rcases List.mem_filter.mp hb with ⟨hcb, hub⟩
    exact Candidate.le_filter hua hub (candidates_known a hca) (candidates_known b hcb)

/-- Candidates that lost left no trace in the selection. -/
theorem planSpans_usedPairs (pairs : List Pair) :
    planSpans (planPool text (usedPairs pairs (planSpans (planPool text pairs found none)))
      found none) = planSpans (planPool text pairs found none) := by
  have hkeep : ∀ c ∈ selectSpans Candidate.range (planPool text pairs found none),
      decide (c.span.original ∈ (planSpans (planPool text pairs found none)).map
        AppliedSpan.original) = true := by
    intro c hc
    rw [decide_eq_true_eq]
    exact List.mem_map_of_mem ((List.mem_insertionSort _).mpr (List.mem_map_of_mem hc))
  rw [planPool_usedPairs]
  show ((selectSpans _ _).map _).insertionSort _ = ((selectSpans _ _).map _).insertionSort _
  unfold selectSpans at hkeep ⊢
  rw [Selection.greedy_filter hkeep]

/-- Planning again from the kept pairs gives the same plan. -/
theorem plan_replay_of_ok {pairs : List Pair} {plan : ReplacementPlan}
    (h : planReplacements text pairs found none = .ok plan) :
    planReplacements text plan.pairs found none = .ok plan := by
  simp only [planReplacements] at h
  split at h
  · exact absurd h (by simp)
  · next sanitized hok =>
    have hplan := Except.ok.inj h
    subst hplan
    have hpairs : usedPairs (usedPairs pairs (planSpans (planPool text pairs found none)))
        (planSpans (planPool text pairs found none)) =
          usedPairs pairs (planSpans (planPool text pairs found none)) := by
      rw [usedPairs, uniquePairs_usedPairs, List.filter_eq_self]
      intro e he
      exact decide_eq_true (mem_usedPairs.mp he).2
    have howned : (ownedOriginals (usedPairs pairs (planSpans (planPool text pairs found none)))
        found none).filter (· ∈ (planSpans (planPool text pairs found none)).map
          AppliedSpan.original) = (ownedOriginals pairs found none).filter
            (· ∈ (planSpans (planPool text pairs found none)).map AppliedSpan.original) := by
      ext o
      simp only [Finset.mem_filter, mem_ownedOriginals_usedPairs]
      tauto
    simp only [planReplacements, planSpans_usedPairs, hpairs, hok, howned]

end Replay

/-- **Replaying a plan.** For rule matches of a text and any pairs, the plan exists,
and planning again from the pairs it kept gives the same text, pairs, spans and rule
originals. -/
theorem plan_replay {text : Text} {found : List MatchedRule} (hfound : ∀ m ∈ found, m.On text)
    (pairs : List Pair) :
    ∃ plan, planReplacements text pairs found none = .ok plan ∧
      planReplacements text plan.pairs found none = .ok plan := by
  rcases plan_ok hfound pairs none with ⟨plan, hok, _⟩
  exact ⟨plan, hok, plan_replay_of_ok hok⟩

/-- A rule match, a longer finding that beats it and a pair that never occurs. -/
theorem plan_replay_overlapping :
    ∃ plan, planReplacements "zzzzabcdx".toList
        [("none".toList, "[N_001]".toList), ("zzzzab".toList, "[F_001]".toList),
          ("abcd".toList, "R1".toList)]
        (ruleMatches [⟨"abcd".toList, "R1".toList⟩] "zzzzabcdx".toList) none = .ok plan ∧
      planReplacements "zzzzabcdx".toList plan.pairs
        (ruleMatches [⟨"abcd".toList, "R1".toList⟩] "zzzzabcdx".toList) none = .ok plan :=
  plan_replay (ruleMatches_on _ _) _

/-! ## Well-formed plans -/

theorem uniquePairs_entries (pairs : List Pair) :
    (uniquePairs pairs).entries = Dict.firsts (pairs.filter fun e => e.1 ≠ []) :=
  Dict.entries_ofPairs_firsts _

/-- What a plan is: disjoint ranges of the text in order, of which every candidate that is
missing overlaps one that is at least as long, and the first pairs of their originals. -/
structure ReplacementPlan.WellFormed (text : Text) (pairs : List Pair) (found : List MatchedRule)
    (active : Option (Finset Text)) (plan : ReplacementPlan) : Prop where
  covers : ∀ s ∈ plan.spans, s.start < s.stop ∧ s.stop ≤ text.length ∧
    slice text s.start s.stop = s.original
  sorted : plan.spans.Pairwise fun a b => a.stop ≤ b.start
  rejected : ∀ c ∈ candidates text (uniquePairs pairs).keys found (ownedOriginals pairs found active),
    c.span ∉ plan.spans → ∃ s ∈ plan.spans, Overlap (s.start, s.stop) c.range ∧
      c.span.stop - c.span.start ≤ s.stop - s.start
  pairs_eq : plan.pairs = (Dict.firsts pairs).filter fun e =>
    e.1 ∈ plan.spans.map AppliedSpan.original

section WellFormed

variable {text : Text} {found : List MatchedRule} (hfound : ∀ m ∈ found, m.On text)
  (pairs : List Pair) (active : Option (Finset Text))

include hfound

/-- The selected spans in text order do not overlap. -/
theorem planSpans_sorted :
    (planSpans (planPool text pairs found active)).Pairwise fun a b => a.stop ≤ b.start := by
  have hok := planSpans_ok (planPool_valid hfound pairs active)
  have hsort : (planSpans (planPool text pairs found active)).insertionSort AppliedSpan.le =
      planSpans (planPool text pairs found active) :=
    (pairwise_le_insertionSort _).insertionSort_eq
  rw [← hsort]
  exact hok.sorted

/-- A candidate is selected, or overlaps a selected one that is at least as long. -/
theorem exists_selected_longer {c : Candidate} (hc : c ∈ planPool text pairs found active)
    (hno : c.span ∉ planSpans (planPool text pairs found active)) :
    ∃ s ∈ planSpans (planPool text pairs found active), Overlap (s.start, s.stop) c.range ∧
      c.span.stop - c.span.start ≤ s.stop - s.start := by
  have hvalid := planPool_valid hfound pairs active
  have hne : ∀ c ∈ planPool text pairs found active, c.range.1 < c.range.2 :=
    fun c hc => (hvalid c hc).lt
  have hmem : ∀ d ∈ selectSpans Candidate.range (planPool text pairs found active),
      d.span ∈ planSpans (planPool text pairs found active) := fun d hd =>
    (List.mem_insertionSort _).mpr (List.mem_map_of_mem hd)
  have hdropped := Selection.greedy_dropped (refuse_iff_overlap Candidate.range)
    (holds_accept Candidate.range) (holds_nil Candidate.range) hne
    (candidatePool_sorted hfound (uniquePairs_ne_nil pairs)) hc fun hsel => hno (hmem c hsel)
  rcases hdropped with ⟨d, hd, -⟩ | ⟨d, hd, hahead, hcon⟩
  · exact absurd hd List.not_mem_nil
  · refine ⟨d.span, hmem d hd, hcon, ?_⟩
    -- the key begins with the negated length
    have hlen : -((d.span.stop : ℤ) - d.span.start) ≤ -((c.span.stop : ℤ) - c.span.start) := by
      rcases Prod.Lex.toLex_lt_toLex.mp hahead with hlt | ⟨heq, -⟩
      · exact le_of_lt hlt
      · exact le_of_eq heq
    have hd' := (hvalid d ((Selection.greedy_sublist _ _).subset hd)).lt
    omega

end WellFormed

/-- Planning from rule matches of the text never fails, and every plan is well formed. -/
theorem plan_wellFormed (text : Text) (pairs : List Pair) (found : List MatchedRule)
    (active : Option (Finset Text)) (hfound : ∀ m ∈ found, m.On text) :
    ∃ plan, planReplacements text pairs found active = .ok plan ∧
      plan.WellFormed text pairs found active := by
  obtain ⟨plan, hok, hspans⟩ := plan_ok hfound pairs active
  refine ⟨plan, hok, ?_, ?_, ?_, ?_⟩
  · rw [hspans]
    exact (planSpans_ok (planPool_valid hfound pairs active)).covers
  · rw [hspans]
    exact planSpans_sorted hfound pairs active
  · intro c hc hno
    rw [hspans] at hno ⊢
    exact exists_selected_longer hfound pairs active ((List.mem_insertionSort _).mpr hc) hno
  · have hpairs : plan.pairs = usedPairs pairs plan.spans := by
      simp only [planReplacements] at hok
      split at hok
      · cases hok
      · cases hok
        rfl
    have hcovers := (planSpans_ok (planPool_valid hfound pairs active)).covers
    rw [hpairs, usedPairs, uniquePairs_entries, Dict.firsts_filter fun o => decide (o ≠ []),
      List.filter_filter]
    refine List.filter_congr fun e _ => ?_
    by_cases he : e.1 = []
    · -- no span covers an empty original
      have hnot : ¬e.1 ∈ plan.spans.map AppliedSpan.original := by
        intro hmem
        obtain ⟨s, hs, hse⟩ := List.mem_map.mp hmem
        rw [hspans] at hs
        obtain ⟨hlt, hle, hslice⟩ := hcovers s hs
        have hlen := slice_length (Nat.le_of_lt hlt) hle
        rw [hslice, hse, he] at hlen
        simp only [List.length_nil] at hlen
        omega
      simp [he, he ▸ hnot]
    · simp [he]

/-- The plan for a rule match inside a longer finding. -/
theorem plan_wellFormed_overlapping :
    let found := ruleMatches [⟨"abcd".toList, "R1".toList⟩] "zzzzabcdx".toList
    (∀ m ∈ found, m.On "zzzzabcdx".toList) ∧
      ∃ plan, planReplacements "zzzzabcdx".toList
          [("zzzzab".toList, "[F_001]".toList), ("abcd".toList, "R1".toList)] found none =
        .ok plan ∧
        plan.WellFormed "zzzzabcdx".toList
          [("zzzzab".toList, "[F_001]".toList), ("abcd".toList, "R1".toList)] found none :=
  ⟨ruleMatches_on _ _, plan_wellFormed _ _ _ _ (ruleMatches_on _ _)⟩

end CorpLlmGateway.Sanitizer
