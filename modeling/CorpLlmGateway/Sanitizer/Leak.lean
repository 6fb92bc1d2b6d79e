import CorpLlmGateway.Sanitizer.Plan

/-!
# What a plan leaves in the text

The stretches of text between the spans of a plan are sent as they are. A literal
survives in one of them only if an occurrence of it overlaps no selected span.
Every candidate overlaps a selected one, so only occurrences that never became
candidates can survive: those that the left-to-right scan of their own literal skips,
and rule matches dropped in favour of a longer rule that then loses itself.

* `gaps_clean` — a literal whose occurrences all overlap a span is gone;
* `plan_leakFree` — when no original that rules do not own survives;
* `plan_ruleLeakFree` — when no rule pattern survives.
-/

namespace CorpLlmGateway.Sanitizer

open TextScan

/-! ## The text between the spans -/

/-- The stretches of text between sorted spans, from a cursor on. -/
def gapsFrom (text : Text) : ℕ → List AppliedSpan → List Text
  | cursor, [] => [text.drop cursor]
  | cursor, s :: ss => slice text cursor s.start :: gapsFrom text s.stop ss

/-- The maximal stretches of text that a plan leaves as they are. -/
def gaps (text : Text) (spans : List AppliedSpan) : List Text := gapsFrom text 0 spans

section Gaps

variable {r : Char → Char → Bool} {p text : Text}

theorem prefixBy_take {n : ℕ} {t : Text} :
    prefixBy r p (t.take n) = true ↔ prefixBy r p t = true ∧ p.length ≤ n := by
  induction p generalizing n t with
  | nil => simp [prefixBy]
  | cons a p ih =>
    cases t with
    | nil => simp [prefixBy]
    | cons b t =>
      cases n with
      | zero => simp [prefixBy]
      | succ n => simp [prefixBy, ih, and_assoc]

/-- A literal in a slice is an occurrence in the text that ends before the slice does. -/
theorem prefixBy_slice {a b j : ℕ} (hp : p ≠ []) :
    prefixBy r p ((slice text a b).drop j) = true ↔
      prefixBy r p (text.drop (a + j)) = true ∧ a + j + p.length ≤ b := by
  have hlen : 0 < p.length := List.length_pos_iff.mpr hp
  rw [slice, List.drop_take, List.drop_drop, prefixBy_take]
  constructor
  · rintro ⟨h₁, h₂⟩
    exact ⟨h₁, by omega⟩
  · rintro ⟨h₁, h₂⟩
    exact ⟨h₁, by omega⟩

/-- A literal survives between sorted spans exactly if one of its occurrences lies
clear of all of them. -/
theorem mem_gapsFrom (hp : p ≠ []) {cursor : ℕ} {spans : List AppliedSpan}
    (hlt : ∀ s ∈ spans, s.start < s.stop) (hcur : ∀ s ∈ spans, cursor ≤ s.start)
    (hsort : spans.Pairwise fun a b => a.stop ≤ b.start) :
    (∃ g ∈ gapsFrom text cursor spans, ∃ j, prefixBy r p (g.drop j) = true) ↔
      ∃ i, cursor ≤ i ∧ prefixBy r p (text.drop i) = true ∧
        ∀ s ∈ spans, i + p.length ≤ s.start ∨ s.stop ≤ i := by
  induction spans generalizing cursor with
  | nil =>
    simp only [gapsFrom, List.mem_singleton, exists_eq_left, List.drop_drop, List.not_mem_nil,
      false_implies, implies_true, and_true]
    constructor
    · rintro ⟨j, hj⟩
      exact ⟨cursor + j, by omega, hj⟩
    · rintro ⟨i, hi, hpre⟩
      exact ⟨i - cursor, by rwa [show cursor + (i - cursor) = i by omega]⟩
  | cons s ss ih =>
    rw [List.pairwise_cons] at hsort
    have hs := hlt s List.mem_cons_self
    have hcs := hcur s List.mem_cons_self
    have hrest := ih (fun t ht => hlt t (List.mem_cons_of_mem _ ht)) hsort.1 hsort.2
    simp only [gapsFrom, List.mem_cons, exists_eq_or_imp, prefixBy_slice hp, hrest,
      forall_eq_or_imp]
    constructor
    · rintro (⟨j, hpre, hle⟩ | ⟨i, hi, hpre, hclear⟩)
      · refine ⟨cursor + j, by omega, hpre, Or.inl hle, ?_⟩
        intro t ht
        have := hsort.1 t ht
        left
        omega
      · exact ⟨i, by omega, hpre, Or.inr hi, hclear⟩
    · rintro ⟨i, hi, hpre, hle | hge, hclear⟩
      · refine Or.inl ⟨i - cursor, ?_⟩
        rw [show cursor + (i - cursor) = i by omega]
        exact ⟨hpre, hle⟩
      · exact Or.inr ⟨i, hge, hpre, hclear⟩

end Gaps

/-! ## What survives a plan -/

/-- The range of an occurrence of a literal. -/
def rangeAt (p : Text) (i : ℕ) : ℕ × ℕ := (i, i + p.length)

/-- An occurrence of an original that rules do not own. -/
structure FreeOccurrence (text : Text) (pairs : List Pair) (found : List MatchedRule)
    (active : Option (Finset Text)) (o : Text) (i : ℕ) : Prop where
  known : o ∈ pairs.map Prod.fst
  nonempty : o ≠ []
  free : o ∉ ownedOriginals pairs found active
  occurs : o <+: text.drop i

/-- The scan for a literal lists every occurrence, or an earlier one that overlaps it. -/
theorem exists_hit_over {r : Char → Char → Bool} {p text : Text} {i : ℕ} (hp : p ≠ [])
    (h : prefixBy r p (text.drop i) = true) :
    ∃ x ∈ finditer (litBy r p) text, x.stop = x.start + p.length ∧
      prefixBy r p (text.drop x.start) = true ∧ (x.start = i ∨ x.start < i ∧ i < x.stop) := by
  have hlen := prefixBy_length h
  have hpos := List.length_pos_iff.mpr hp
  rw [List.length_drop] at hlen
  obtain ⟨x, hx, hcover⟩ := finditer_complete (by omega) (litBy_at.mpr ⟨h, rfl⟩)
  obtain ⟨-, hle, hat⟩ := mem_finditer hx
  obtain ⟨hpre, hstop⟩ := litBy_at.mp hat
  exact ⟨x, hx, by omega, hpre, hcover⟩

section Survive

variable {text : Text} {found : List MatchedRule} {pairs : List Pair}
  {active : Option (Finset Text)}

/-- A selected span is a rule match, or the scan for an original that rules do not own
lists it. -/
theorem mem_planSpans_cases {s : AppliedSpan}
    (hs : s ∈ planSpans (planPool text pairs found active)) :
    (∃ m ∈ found, m.range = (s.start, s.stop)) ∨
      FreeOccurrence text pairs found active s.original s.start ∧
        ⟨s.start, s.stop, ()⟩ ∈ finditer (lit s.original) text := by
  obtain ⟨c, hc, rfl⟩ := List.mem_map.mp ((List.mem_insertionSort _).mp hs)
  have hpool := (Selection.greedy_sublist _ _).subset hc
  rcases List.mem_append.mp ((List.mem_insertionSort _).mp hpool) with hr | hf
  · obtain ⟨m, hm, rfl⟩ := List.mem_map.mp hr
    exact .inl ⟨m, (List.mem_filter.mp hm).1, rfl⟩
  · obtain ⟨o, ho, hf⟩ := List.mem_flatMap.mp hf
    obtain ⟨h, hh, rfl⟩ := List.mem_map.mp hf
    obtain ⟨ho, hfree⟩ := List.mem_filter.mp ho
    have hknown : o ∈ pairs.map Prod.fst := by
      obtain ⟨e, he, rfl⟩ := List.mem_map.mp (Dict.mem_keys_ofPairs.mp ho)
      exact List.mem_map_of_mem (List.mem_filter.mp he).1
    exact .inr ⟨⟨hknown, uniquePairs_ne_nil pairs _ ho, of_decide_eq_true hfree,
      (hit_of_lit hh).2⟩, hh⟩

/-- What the scan for an original that rules do not own lists is a candidate. -/
theorem FreeOccurrence.candidate {o : Text} {i : ℕ}
    (h : FreeOccurrence text pairs found active o i) {x : Hit Unit}
    (hx : x ∈ finditer (lit o) text) :
    ⟨1, ⟨x.start, x.stop, o⟩⟩ ∈ planPool text pairs found active := by
  refine (List.mem_insertionSort _).mpr (List.mem_append_right _ (List.mem_flatMap.mpr ?_))
  exact ⟨o, List.mem_filter.mpr ⟨mem_uniquePairs_keys h.known h.nonempty, by simpa using h.free⟩,
    List.mem_map_of_mem hx⟩

/-- The scan for an original lists every occurrence, or an earlier one that overlaps it. -/
theorem FreeOccurrence.listed {o : Text} {i : ℕ}
    (h : FreeOccurrence text pairs found active o i) :
    ∃ x ∈ finditer (lit o) text, x.stop = x.start + o.length ∧
      (x.start = i ∨ x.start < i ∧ i < x.stop) := by
  obtain ⟨x, hx, hstop, -, hcover⟩ := exists_hit_over h.nonempty (prefixBy_beq.mpr h.occurs)
  exact ⟨x, hx, hstop, hcover⟩

section Found

variable (hfound : ∀ m ∈ found, m.On text)

include hfound

/-- Every candidate overlaps a selected span that is at least as long. -/
theorem exists_selected_overlap {c : Candidate} (hc : c ∈ planPool text pairs found active) :
    ∃ s ∈ planSpans (planPool text pairs found active), Overlap (s.start, s.stop) c.range ∧
      c.range.2 - c.range.1 ≤ s.stop - s.start := by
  by_cases hsel : c.span ∈ planSpans (planPool text pairs found active)
  · have hlt := (planPool_valid hfound pairs active c hc).lt
    exact ⟨c.span, hsel, ⟨hlt, hlt⟩, le_rfl⟩
  · exact exists_selected_longer hfound pairs active hc hsel

/-- A literal is gone from the text between the spans if every occurrence of it overlaps one
of them. -/
theorem gaps_clean {r : Char → Char → Bool} {p : Text} (hp : p ≠ [])
    (h : ∀ i, prefixBy r p (text.drop i) = true →
      ∃ s ∈ planSpans (planPool text pairs found active), Overlap (s.start, s.stop) (rangeAt p i)) :
    ∀ g ∈ gaps text (planSpans (planPool text pairs found active)), ∀ j,
      prefixBy r p (g.drop j) = false := by
  intro g hg j
  by_contra hj
  rw [Bool.not_eq_false] at hj
  have hplan := planSpans_ok (planPool_valid hfound pairs active)
  obtain ⟨i, -, hi, hclear⟩ := (mem_gapsFrom hp (fun s hs => (hplan.covers s hs).1)
    (fun s _ => Nat.zero_le s.start) (planSpans_sorted hfound pairs active)).mp ⟨g, hg, j, hj⟩
  obtain ⟨s, hs, hover⟩ := h i hi
  have hno := hclear s hs
  simp only [Overlap, rangeAt] at hover
  omega

end Found

end Survive

/-! ## Leak freedom -/

theorem infix_iff_prefixBy {o g : Text} :
    o <:+: g ↔ ∃ j, prefixBy (fun a b => a == b) o (g.drop j) = true := by
  simp only [prefixBy_beq]
  constructor
  · intro h
    rcases infix_iff_drop.mp h with ⟨j, _, hj⟩
    exact ⟨j, hj⟩
  · rintro ⟨j, hj⟩
    exact hj.isInfix.trans (List.drop_suffix _ _).isInfix

theorem finditer_litBy_eq_nil {r : Char → Char → Bool} {p g : Text} (hp : p ≠ []) :
    finditer (litBy r p) g = [] ↔ ∀ j, prefixBy r p (g.drop j) = false := by
  constructor
  · intro hnil j
    by_contra hj
    rw [Bool.not_eq_false] at hj
    have hlen := prefixBy_length hj
    have hpos : 0 < p.length := List.length_pos_iff.mpr hp
    rw [List.length_drop] at hlen
    rcases finditer_complete (by omega) (litBy_at.mpr ⟨hj, rfl⟩) with ⟨h, hh, _⟩
    rw [hnil] at hh
    exact absurd hh List.not_mem_nil
  · intro hno
    apply finditer_eq_nil
    intro j _
    simp [Matcher.at, litBy, hno j]

/-- A range that may beat an occurrence of `o`: a rule match, or an occurrence of another
original that rules do not own, that is at least as long. -/
def Rival (text : Text) (pairs : List Pair) (found : List MatchedRule)
    (active : Option (Finset Text)) (o : Text) (r : ℕ × ℕ) : Prop :=
  o.length ≤ r.2 - r.1 ∧ ((∃ m ∈ found, m.range = r) ∨
    ∃ o' k, FreeOccurrence text pairs found active o' k ∧ o' ≠ o ∧ rangeAt o' k = r)

/-- **Leak freedom.** The scan for an original may skip an occurrence that overlaps an earlier
one. If every rival that overlaps the earlier one overlaps the other as well, no stretch that
the plan leaves contains an original that rules do not own. -/
theorem plan_leakFree (rules : Rules) (text : Text) (pairs : List Pair)
    (active : Option (Finset Text))
    (hrivals : ∀ o i j, i < j → FreeOccurrence text pairs (ruleMatches rules text) active o i →
      FreeOccurrence text pairs (ruleMatches rules text) active o j →
      Overlap (rangeAt o i) (rangeAt o j) →
      ∀ r, Rival text pairs (ruleMatches rules text) active o r →
        Overlap r (rangeAt o i) → Overlap r (rangeAt o j)) :
    ∃ plan, planReplacements text pairs (ruleMatches rules text) active = .ok plan ∧
      ∀ o ∈ pairs.map Prod.fst, o ≠ [] →
        o ∉ ownedOriginals pairs (ruleMatches rules text) active →
        ∀ g ∈ gaps text plan.spans, ¬ o <:+: g := by
  have hfound := ruleMatches_on rules text
  obtain ⟨plan, hok, hspans⟩ := plan_ok hfound pairs active
  refine ⟨plan, hok, ?_⟩
  intro o ho hne hown
  rw [hspans]
  simp only [infix_iff_prefixBy, not_exists, Bool.not_eq_true]
  refine gaps_clean hfound hne fun j hj => ?_
  have hfree : FreeOccurrence text pairs (ruleMatches rules text) active o j :=
    ⟨ho, hne, hown, prefixBy_beq.mp hj⟩
  obtain ⟨x, hx, hstop, hcover⟩ := hfree.listed
  obtain ⟨s, hs, hover, hlong⟩ := exists_selected_overlap hfound (hfree.candidate hx)
  refine ⟨s, hs, ?_⟩
  simp only [Candidate.range, hstop, Nat.add_sub_cancel_left] at hover hlong
  rcases hcover with rfl | ⟨hlt, hin⟩
  · exact hover
  -- the listed occurrence overlaps the skipped one, and so does what beats it
  have hboth : Overlap (rangeAt o x.start) (rangeAt o j) := by
    simp only [Overlap, rangeAt]
    omega
  have hbeaten := hrivals o _ _ hlt ⟨ho, hne, hown, (hit_of_lit hx).2⟩ hfree hboth
    (s.start, s.stop)
  rcases mem_planSpans_cases hs with hrule | ⟨hother, hlisted⟩
  · exact hbeaten ⟨hlong, .inl hrule⟩ hover
  by_cases heq : s.original = o
  · -- the scan does not list two occurrences that overlap
    rw [heq] at hlisted
    rcases finditer_apart hlisted hx with rfl | happart
    · simp only [Overlap, rangeAt] at hstop hlt hin ⊢
      omega
    · simp only [Overlap] at hover happart
      omega
  · have hrange : rangeAt s.original s.start = (s.start, s.stop) :=
      congrArg (s.start, ·) (hit_of_lit hlisted).1.symm
    exact hbeaten ⟨hlong, .inr ⟨_, _, hother, heq, hrange⟩⟩ hover

/-- The scan for `aba` in `zababa` skips its second occurrence, and the longer `zaba` that
beats the first one overlaps both. -/
theorem plan_leakFree_skipped :
    ∃ plan, planReplacements "zababa".toList
        [("zaba".toList, "[A_001]".toList), ("aba".toList, "[B_001]".toList)]
        (ruleMatches [] "zababa".toList) none = .ok plan ∧
      ∀ g ∈ gaps "zababa".toList plan.spans, ¬ "aba".toList <:+: g := by
  have hlong : ∀ k, "zaba".toList <+: "zababa".toList.drop k → k = 0 := by
    intro k hk
    have hle := hk.length_le
    have hk' : k ≤ 2 := by simp at hle; omega
    interval_cases k <;> revert hk <;> decide
  have hshort : ∀ k, "aba".toList <+: "zababa".toList.drop k → k = 1 ∨ k = 3 := by
    intro k hk
    have hle := hk.length_le
    have hk' : k ≤ 3 := by simp at hle; omega
    interval_cases k <;> revert hk <;> decide
  have hplan := plan_leakFree [] "zababa".toList
    [("zaba".toList, "[A_001]".toList), ("aba".toList, "[B_001]".toList)] none (by
      rintro o i j - hi hj - r ⟨hlen, ⟨m, hm, -⟩ | ⟨o', k, hk, hne, rfl⟩⟩ hover
      · cases hm
      rcases List.mem_pair.mp hi.known with rfl | rfl
      · rw [hlong j hj.occurs, ← hlong i hi.occurs]
        exact hover
      · obtain rfl := (List.mem_pair.mp hk.known).resolve_right hne
        rw [hlong k hk.occurs]
        rcases hshort j hj.occurs with rfl | rfl <;> exact ⟨by decide, by decide⟩)
  obtain ⟨plan, hok, hclean⟩ := hplan
  exact ⟨plan, hok, hclean _ (List.mem_cons_of_mem _ List.mem_cons_self) (by decide) (by decide)⟩

/-- The scan for `aba` in `xxababa` skips its second occurrence, and its first one
loses to the longer `xxab`. -/
theorem plan_leaks_skipped :
    ∃ plan, planReplacements "xxababa".toList
        [("xxab".toList, "[A_001]".toList), ("aba".toList, "[B_001]".toList)]
        (ruleMatches [] "xxababa".toList) none = .ok plan ∧
      "aba".toList ∉ ownedOriginals
        [("xxab".toList, "[A_001]".toList), ("aba".toList, "[B_001]".toList)]
        (ruleMatches [] "xxababa".toList) none ∧
      ∃ g ∈ gaps "xxababa".toList plan.spans, "aba".toList <:+: g :=
  ⟨⟨"[A_001]aba".toList, [("xxab".toList, "[A_001]".toList)], [⟨0, 4, "xxab".toList⟩], ∅⟩,
    by decide, by decide, by decide⟩

/-! ## Rule leak freedom -/

/-- The pattern of a rule matches at a position. -/
structure RuleOccurrence (rules : Rules) (text : Text) (rule : Rule) (i : ℕ) : Prop where
  mem : rule ∈ rules
  hit : prefixBy Unicode.eqIgnoreCase rule.pattern (text.drop i) = true

/-- Two overlapping matches of one rule, of which the scan may skip the second. What may beat
the first one, a match of another rule or a finding, overlaps the second one as well, and rules
own the text of the first one. -/
structure SafeOverlap (rules : Rules) (text : Text) (pairs : List Pair) (rule : Rule)
    (i j : ℕ) : Prop where
  matched : ∀ rule' k, RuleOccurrence rules text rule' k → rule'.pattern ≠ rule.pattern →
    rule.pattern.length ≤ rule'.pattern.length →
    Overlap (rangeAt rule'.pattern k) (rangeAt rule.pattern i) →
      Overlap (rangeAt rule'.pattern k) (rangeAt rule.pattern j)
  found : ∀ o k, FreeOccurrence text pairs (ruleMatches rules text) none o k →
    rule.pattern.length ≤ o.length → Overlap (rangeAt o k) (rangeAt rule.pattern i) →
      Overlap (rangeAt o k) (rangeAt rule.pattern j)
  owned : ∀ o, o.length = rule.pattern.length →
    ¬FreeOccurrence text pairs (ruleMatches rules text) none o i

/-- Dropping matches is harmless: a finding that may beat one of two overlapping matches of
different rules overlaps the other as well, and overlapping matches of one rule are safe. -/
structure RuleSafe (rules : Rules) (text : Text) (pairs : List Pair) : Prop where
  same : ∀ rule i j, i < j → RuleOccurrence rules text rule i → RuleOccurrence rules text rule j →
    Overlap (rangeAt rule.pattern i) (rangeAt rule.pattern j) →
      SafeOverlap rules text pairs rule i j
  other : ∀ rule rule' i j, RuleOccurrence rules text rule i → RuleOccurrence rules text rule' j →
    rule.pattern ≠ rule'.pattern → rule'.pattern.length ≤ rule.pattern.length →
    Overlap (rangeAt rule.pattern i) (rangeAt rule'.pattern j) →
    ∀ o k, FreeOccurrence text pairs (ruleMatches rules text) none o k →
      rule.pattern.length ≤ o.length → Overlap (rangeAt o k) (rangeAt rule.pattern i) →
        Overlap (rangeAt o k) (rangeAt rule'.pattern j)

section RuleMatches

variable {rules : Rules} {text : Text}

theorem mem_ruleCandidates {m : MatchedRule} (hm : m ∈ ruleCandidates rules text) :
    ∃ rule, RuleOccurrence rules text rule m.start ∧ m.range = rangeAt rule.pattern m.start ∧
      ⟨m.start, m.stop, ()⟩ ∈ finditer (rulePattern rule.pattern) text := by
  obtain ⟨rule, hrule, hm⟩ := List.mem_flatMap.mp hm
  obtain ⟨h, hh, rfl⟩ := List.mem_map.mp hm
  obtain ⟨-, hle, hat⟩ := mem_finditer hh
  obtain ⟨hpre, hlen⟩ := litBy_at.mp hat
  refine ⟨rule, ⟨(List.mem_insertionSort _).mp hrule, hpre⟩, congrArg (h.start, ·) ?_, hh⟩
  show h.stop = h.start + _
  omega

theorem mem_ruleMatches {m : MatchedRule} (hm : m ∈ ruleMatches rules text) :
    m ∈ ruleCandidates rules text :=
  (Selection.greedy_sublist _ _).subset ((List.mem_insertionSort _).mp hm)

theorem length_of_mem_hits {p : Text} {x : Hit Unit} (hx : x ∈ finditer (rulePattern p) text) :
    x.stop - x.start = p.length :=
  (litBy_at.mp (mem_finditer hx).2.2).2

instance : Std.Total fun a b : Rule => b.pattern.length ≤ a.pattern.length :=
  ⟨fun a b => le_total b.pattern.length a.pattern.length⟩

instance : IsTrans Rule fun a b => b.pattern.length ≤ a.pattern.length :=
  ⟨fun _ _ _ hab hbc => le_trans hbc hab⟩

/-- Longer matches are tried first. -/
theorem ruleCandidates_sorted (rules : Rules) (text : Text) :
    (ruleCandidates rules text).Pairwise fun a b => b.stop - b.start ≤ a.stop - a.start := by
  rw [ruleCandidates, List.pairwise_flatMap]
  constructor
  · intro rule _
    rw [List.pairwise_map]
    refine List.pairwise_of_forall_mem_list fun a ha b hb => ?_
    exact ((length_of_mem_hits hb).trans (length_of_mem_hits ha).symm).le
  · refine (List.pairwise_insertionSort _ rules).imp fun {r r'} hlen a ha b hb => ?_
    obtain ⟨x, hx, rfl⟩ := List.mem_map.mp ha
    obtain ⟨y, hy, rfl⟩ := List.mem_map.mp hb
    exact ((length_of_mem_hits hy).trans_le hlen).trans_eq (length_of_mem_hits hx).symm

variable (hne : ∀ rule ∈ rules, rule.pattern ≠ [])

include hne

theorem ruleCandidates_nonempty : ∀ m ∈ ruleCandidates rules text, m.range.1 < m.range.2 := by
  intro m hm
  obtain ⟨rule, hrule, hrange, -⟩ := mem_ruleCandidates hm
  have hpos := List.length_pos_iff.mpr (hne rule hrule.mem)
  rw [hrange]
  exact Nat.lt_add_of_pos_right hpos

/-- What a rule finds overlaps a match that is at least as long. -/
theorem exists_match_overlap {m : MatchedRule} (hm : m ∈ ruleCandidates rules text) :
    ∃ m' ∈ ruleMatches rules text, Overlap m'.range m.range ∧
      m.range.2 - m.range.1 ≤ m'.range.2 - m'.range.1 := by
  have hpos : ∀ m ∈ ruleCandidates rules text, _ := ruleCandidates_nonempty hne
  by_cases hsel : m ∈ selectSpans MatchedRule.range (ruleCandidates rules text)
  · exact ⟨m, (List.mem_insertionSort _).mpr hsel, ⟨hpos m hm, hpos m hm⟩, le_rfl⟩
  · rcases Selection.greedy_dropped (refuse_iff_overlap MatchedRule.range)
      (holds_accept MatchedRule.range) (holds_nil MatchedRule.range) hpos
      ((ruleCandidates_sorted rules text).imp Or.inl) hm hsel with ⟨d, hd, -⟩ | ⟨d, hd, hlong, hover⟩
    · exact absurd hd List.not_mem_nil
    · exact ⟨d, (List.mem_insertionSort _).mpr hd, hover, hlong⟩

theorem ruleMatches_apart {m m' : MatchedRule} (hm : m ∈ ruleMatches rules text)
    (hm' : m' ∈ ruleMatches rules text) (hover : Overlap m.range m'.range) : m = m' := by
  have hpos : ∀ m ∈ ruleCandidates rules text, _ := ruleCandidates_nonempty hne
  have hpw := (Selection.greedy_conflictFree (refuse_iff_overlap MatchedRule.range)
    (holds_accept MatchedRule.range) (holds_nil MatchedRule.range) hpos).2
  have hsymm : Std.Symm fun a b : MatchedRule => ¬ Overlap a.range b.range :=
    ⟨fun _ _ hno hover => hno hover.symm⟩
  by_contra hdiff
  exact hpw.forall ((List.mem_insertionSort _).mp hm) ((List.mem_insertionSort _).mp hm') hdiff hover

/-- What an occurrence of a rule is dropped for: a match of the rule itself that the scan lists
there or earlier, or one of another rule that beats such a match. -/
theorem RuleOccurrence.dropped {rule : Rule} {j : ℕ} (h : RuleOccurrence rules text rule j) :
    ∃ i, (i = j ∨ i < j ∧ RuleOccurrence rules text rule i ∧
        Overlap (rangeAt rule.pattern i) (rangeAt rule.pattern j)) ∧
      ∃ m ∈ ruleMatches rules text, m.range = rangeAt rule.pattern i ∨
        ∃ rule', RuleOccurrence rules text rule' m.start ∧ rule'.pattern ≠ rule.pattern ∧
          m.range = rangeAt rule'.pattern m.start ∧
          rule.pattern.length ≤ rule'.pattern.length ∧
          Overlap m.range (rangeAt rule.pattern i) := by
  obtain ⟨x, hx, hstop, hpre, hcover⟩ := exists_hit_over (hne rule h.mem) h.hit
  have hrangex : (x.start, x.stop) = rangeAt rule.pattern x.start := congrArg (x.start, ·) hstop
  have hlisted : (⟨x.start, x.stop, slice text x.start x.stop, rule.replacement⟩ : MatchedRule) ∈
      ruleCandidates rules text :=
    List.mem_flatMap.mpr ⟨rule, (List.mem_insertionSort _).mpr h.mem, List.mem_map_of_mem hx⟩
  obtain ⟨m, hm, hover, hlong⟩ := exists_match_overlap hne hlisted
  obtain ⟨rule', hrule', hrange, hhit⟩ := mem_ruleCandidates (mem_ruleMatches hm)
  refine ⟨x.start, ?_, m, hm, ?_⟩
  · refine hcover.imp_right fun hlt => ⟨hlt.1, ⟨h.mem, hpre⟩, ?_⟩
    simp only [Overlap, rangeAt]
    omega
  simp only [MatchedRule.range, hrangex] at hover hlong
  by_cases hsame : rule'.pattern = rule.pattern
  · -- one scan lists both, so they are the same
    rw [hsame] at hhit
    rcases finditer_apart hhit hx with heq | happart
    · subst heq
      exact .inl hrangex
    · simp only [Overlap, rangeAt] at hover happart
      omega
  · refine .inr ⟨rule', hrule', hsame, hrange, ?_, hover⟩
    have hstop' : m.stop = m.start + rule'.pattern.length := congrArg Prod.snd hrange
    simp only [rangeAt] at hlong
    omega

section Safe

variable {pairs : List Pair} (hsafe : RuleSafe rules text pairs)

include hsafe

/-- A match whose original has a pair is a candidate of the plan. -/
theorem exists_candidate {m : MatchedRule} (hm : m ∈ ruleMatches rules text)
    (hpair : m.original ∈ pairs.map Prod.fst) :
    ∃ c ∈ planPool text pairs (ruleMatches rules text) none, c.range = m.range := by
  obtain ⟨rule, hrule, hrange, -⟩ := mem_ruleCandidates (mem_ruleMatches hm)
  have hon := ruleMatches_on rules text m hm
  have hpos := List.length_pos_iff.mpr (hne rule hrule.mem)
  have hlen : m.original.length = m.stop - m.start := by
    rw [← hon.covers, slice_length hon.le hon.bound]
  have hstop : m.stop = m.start + rule.pattern.length := congrArg Prod.snd hrange
  have hnil : m.original ≠ [] := List.length_pos_iff.mp (by omega)
  by_cases hown : m.original ∈ ownedOriginals pairs (ruleMatches rules text) none
  · refine ⟨⟨0, ⟨m.start, m.stop, m.original⟩⟩, ?_, rfl⟩
    refine (List.mem_insertionSort _).mpr (List.mem_append_left _ (List.mem_map.mpr ⟨m, ?_, rfl⟩))
    exact List.mem_filter.mpr ⟨hm, decide_eq_true ⟨hown, mem_uniquePairs_keys hpair hnil⟩⟩
  · -- every occurrence of the original is a match of the rule
    have hocc : m.original <+: text.drop m.start := by
      rw [← hon.covers]
      exact List.take_prefix _ _
    have hrule' : ∀ k, m.original <+: text.drop k → RuleOccurrence rules text rule k := by
      intro k hk
      have htake := List.prefix_iff_eq_take.mp hocc
      have hpre := prefixBy_take.mpr ⟨hrule.hit, (by omega : rule.pattern.length ≤ m.original.length)⟩
      rw [← htake, List.prefix_iff_eq_take.mp hk, prefixBy_take] at hpre
      exact ⟨hrule.mem, hpre.1⟩
    have hfree : FreeOccurrence text pairs (ruleMatches rules text) none m.original m.start :=
      ⟨hpair, hnil, hown, hocc⟩
    obtain ⟨x, hx, hxstop, hcover⟩ := hfree.listed
    have hxocc := (hit_of_lit hx).2
    rcases hcover with hstart | ⟨hbefore, hover⟩
    · refine ⟨_, hfree.candidate hx, ?_⟩
      simp only [Candidate.range, MatchedRule.range, Prod.mk.injEq]
      omega
    · have hboth : Overlap (rangeAt rule.pattern x.start) (rangeAt rule.pattern m.start) := by
        simp only [Overlap, rangeAt]
        omega
      exact absurd ⟨hpair, hnil, hown, hxocc⟩
        ((hsafe.same rule _ _ hbefore (hrule' _ hxocc) hrule hboth).owned _ (by omega))

/-- An occurrence of a rule overlaps a match, and what may beat the match overlaps the
occurrence as well. -/
theorem RuleOccurrence.guarded {rule : Rule} {j : ℕ} (h : RuleOccurrence rules text rule j) :
    ∃ m ∈ ruleMatches rules text, Overlap m.range (rangeAt rule.pattern j) ∧
      ∀ o k, FreeOccurrence text pairs (ruleMatches rules text) none o k →
        m.range.2 - m.range.1 ≤ o.length → Overlap (rangeAt o k) m.range →
          Overlap (rangeAt o k) (rangeAt rule.pattern j) := by
  have hpos := List.length_pos_iff.mpr (hne rule h.mem)
  obtain ⟨i, hi, m, hm, hrange | ⟨rule', hrule', hdiff, hrange, hle, hover⟩⟩ := h.dropped hne
  · refine ⟨m, hm, ?_⟩
    simp only [hrange]
    rcases hi with rfl | ⟨hlt, hi, hij⟩
    · refine ⟨?_, fun o k _ _ hk => hk⟩
      simp only [Overlap, rangeAt]
      omega
    · refine ⟨hij, fun o k ho hlong => (hsafe.same rule i j hlt hi h hij).found o k ho ?_⟩
      simpa [rangeAt] using hlong
  · have hmatched : Overlap m.range (rangeAt rule.pattern j) := by
      rcases hi with rfl | ⟨hlt, hi, hij⟩
      · exact hover
      · rw [hrange] at hover ⊢
        exact (hsafe.same rule i j hlt hi h hij).matched rule' _ hrule' hdiff hle hover
    refine ⟨m, hm, hmatched, ?_⟩
    simp only [hrange] at hmatched ⊢
    intro o k ho hlong
    refine hsafe.other rule' rule _ j hrule' h hdiff hle hmatched o k ho ?_
    simpa [rangeAt] using hlong

end Safe

end RuleMatches

/-- **Rule leak freedom.** A match is dropped for a longer one of another rule, which may then
lose to a finding. Where that is harmless, no stretch that the plan leaves has a match of a
rule. -/
theorem plan_ruleLeakFree (rules : Rules) (text : Text) (pairs : List Pair)
    (hne : ∀ rule ∈ rules, rule.pattern ≠ [])
    (hpairs : ∀ m ∈ ruleMatches rules text, (m.original, m.replacement) ∈ pairs)
    (hsafe : RuleSafe rules text pairs) :
    ∃ plan, planReplacements text pairs (ruleMatches rules text) none = .ok plan ∧
      ∀ rule ∈ rules, ∀ g ∈ gaps text plan.spans, finditer (rulePattern rule.pattern) g = [] := by
  have hfound := ruleMatches_on rules text
  obtain ⟨plan, hok, hspans⟩ := plan_ok hfound pairs none
  refine ⟨plan, hok, ?_⟩
  intro rule hrule g hg
  rw [rulePattern, finditer_litBy_eq_nil (hne rule hrule)]
  rw [hspans] at hg
  refine gaps_clean hfound (hne rule hrule) (fun j hj => ?_) g hg
  -- the match that the occurrence is dropped for, and the span that this one loses to
  obtain ⟨m, hm, hmatched, hguard⟩ := RuleOccurrence.guarded hne hsafe ⟨hrule, hj⟩
  obtain ⟨c, hc, hrangec⟩ := exists_candidate hne hsafe hm (List.mem_map_of_mem (hpairs m hm))
  obtain ⟨s, hs, hover, hlong⟩ := exists_selected_overlap hfound hc
  rw [hrangec] at hover hlong
  refine ⟨s, hs, ?_⟩
  rcases mem_planSpans_cases hs with ⟨m', hm', hrange'⟩ | ⟨hfree, hlisted⟩
  · rw [← hrange'] at hover ⊢
    rwa [ruleMatches_apart hne hm' hm hover]
  · have hstop : s.stop = s.start + s.original.length := (hit_of_lit hlisted).1
    rw [hstop] at hover hlong ⊢
    rw [Nat.add_sub_cancel_left] at hlong
    exact hguard _ _ hfree hlong hover

/-- The rule `dx` is dropped for the longer `abcd`, which then loses to the finding `zabcd`:
it overlaps both. -/
theorem plan_ruleLeakFree_dropped :
    ∃ plan, planReplacements "zabcdx".toList
        [("zabcd".toList, "[F_001]".toList), ("abcd".toList, "R1".toList)]
        (ruleMatches [⟨"abcd".toList, "R1".toList⟩, ⟨"dx".toList, "R2".toList⟩]
          "zabcdx".toList) none = .ok plan ∧
      ∀ g ∈ gaps "zabcdx".toList plan.spans, finditer (rulePattern "dx".toList) g = [] := by
  have hlong : ∀ i, prefixBy Unicode.eqIgnoreCase "abcd".toList ("zabcdx".toList.drop i) = true →
      i = 1 := by
    intro i hi
    have hle := prefixBy_length hi
    have hi' : i ≤ 2 := by simp at hle; omega
    interval_cases i <;> revert hi <;> decide
  have hshort : ∀ i, prefixBy Unicode.eqIgnoreCase "dx".toList ("zabcdx".toList.drop i) = true →
      i = 4 := by
    intro i hi
    have hle := prefixBy_length hi
    have hi' : i ≤ 4 := by simp at hle; omega
    interval_cases i <;> revert hi <;> decide
  have hplan := plan_ruleLeakFree [⟨"abcd".toList, "R1".toList⟩, ⟨"dx".toList, "R2".toList⟩]
    "zabcdx".toList [("zabcd".toList, "[F_001]".toList), ("abcd".toList, "R1".toList)]
    (by decide) (by decide) (by
      constructor
      · rintro rule i j hlt ⟨hmem, hi⟩ ⟨-, hj⟩ -
        rcases List.mem_pair.mp hmem with rfl | rfl
        · exact absurd ((hlong i hi).trans (hlong j hj).symm) hlt.ne
        · exact absurd ((hshort i hi).trans (hshort j hj).symm) hlt.ne
      rintro rule rule' i j - ⟨hmem, hj⟩ - - - o k ho - -
      obtain rfl : o = "zabcd".toList := by
        rcases List.mem_pair.mp ho.known with rfl | rfl
        · rfl
        · exact absurd (by decide) ho.free
      obtain rfl : k = 0 := by
        have hle := ho.occurs.length_le
        have hk : k ≤ 1 := by simp at hle; omega
        have hocc := ho.occurs
        clear ho
        interval_cases k
        · rfl
        · exact absurd hocc (by decide)
      rcases List.mem_pair.mp hmem with rfl | rfl
      · rw [hlong j hj]
        exact ⟨by decide, by decide⟩
      · rw [hshort j hj]
        exact ⟨by decide, by decide⟩)
  obtain ⟨plan, hok, hclean⟩ := hplan
  exact ⟨plan, hok, hclean _ (List.mem_cons_of_mem _ List.mem_cons_self)⟩

/-- The rule `dx` is dropped for the longer `abcd`, which then loses to the finding
`zzzzab`. -/
theorem plan_leaks_dropped_rule :
    (∀ m ∈ ruleMatches [⟨"abcd".toList, "R1".toList⟩, ⟨"dx".toList, "R2".toList⟩]
        "zzzzabcdx".toList, (m.original, m.replacement) ∈
          [("zzzzab".toList, "[F_001]".toList), ("abcd".toList, "R1".toList)]) ∧
      ∃ plan, planReplacements "zzzzabcdx".toList
          [("zzzzab".toList, "[F_001]".toList), ("abcd".toList, "R1".toList)]
          (ruleMatches [⟨"abcd".toList, "R1".toList⟩, ⟨"dx".toList, "R2".toList⟩]
            "zzzzabcdx".toList) none = .ok plan ∧
        ∃ g ∈ gaps "zzzzabcdx".toList plan.spans, finditer (rulePattern "dx".toList) g ≠ [] :=
  ⟨by decide, ⟨"[F_001]cdx".toList, [("zzzzab".toList, "[F_001]".toList)],
    [⟨0, 6, "zzzzab".toList⟩], ∅⟩, by decide, by decide⟩

end CorpLlmGateway.Sanitizer
