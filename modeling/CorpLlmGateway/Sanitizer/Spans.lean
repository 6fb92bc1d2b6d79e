import CorpLlmGateway.Data.Bisect
import CorpLlmGateway.Data.Selection
import CorpLlmGateway.Sanitizer.Placeholder

/-!
# Non-overlapping spans

The model of `_NonOverlappingSpans` of `sanitizer/orchestrator.py`: accepted spans
are kept in two parallel lists sorted by start, and a candidate is compared with its
two neighbours only.

* `Tracks.overlaps_iff` — for a non-empty candidate the neighbour test is the overlap test
  against all accepted spans;
* `Tracks.add` — adding a span that overlaps none keeps the lists sorted;
* `overlaps_history` — so the test is the linear scan over whatever was added;
* `mem_selectSpans_iff_wins` — the selected candidates are the winners of the pool.
-/

namespace CorpLlmGateway.Sanitizer

/-- `bisect.bisect_right(xs, x)` on a sorted list: the number of elements up to `x`. -/
def bisectRight (xs : List ℕ) (x : ℕ) : ℕ := (xs.takeWhile fun y => y ≤ x).length

/-- `_NonOverlappingSpans`. -/
structure NonOverlappingSpans where
  starts : List ℕ
  ends : List ℕ

namespace NonOverlappingSpans

def empty : NonOverlappingSpans := ⟨[], []⟩

def overlaps (o : NonOverlappingSpans) (start stop : ℕ) : Bool :=
  let i := bisectRight o.starts start
  if 0 < i ∧ start < o.ends.getD (i - 1) 0 then true
  else decide (i < o.starts.length ∧ o.starts.getD i 0 < stop)

def add (o : NonOverlappingSpans) (start stop : ℕ) : NonOverlappingSpans :=
  let i := bisectRight o.starts start
  ⟨o.starts.insertIdx i start, o.ends.insertIdx i stop⟩

/-! ## What the lists hold -/

/-- The lists hold the spans `acc`, sorted and apart. A span may be empty. -/
structure Tracks (o : NonOverlappingSpans) (acc : List (ℕ × ℕ)) : Prop where
  intro ::
  sorted : ∃ spans : List (ℕ × ℕ), o.starts = spans.map Prod.fst ∧ o.ends = spans.map Prod.snd ∧
    (spans.Pairwise fun a b => a.2 ≤ b.1) ∧ (∀ s ∈ spans, s.1 ≤ s.2) ∧ ∀ s, s ∈ spans ↔ s ∈ acc

theorem tracks_empty : empty.Tracks [] :=
  ⟨[], rfl, rfl, .nil, by simp, by simp⟩

/-- A start position splits the sorted spans into those that begin up to it and
those that begin behind it. -/
theorem exists_split {spans : List (ℕ × ℕ)} (hsort : spans.Pairwise fun a b => a.2 ≤ b.1)
    (hne : ∀ s ∈ spans, s.1 ≤ s.2) (start : ℕ) :
    ∃ l r, spans = l ++ r ∧ (∀ s ∈ l, s.1 ≤ start) ∧ (∀ s ∈ r, start < s.1) ∧
      bisectRight (spans.map Prod.fst) start = l.length := by
  induction spans with
  | nil => exact ⟨[], [], rfl, by simp, by simp, rfl⟩
  | cons s spans ih =>
    rw [List.pairwise_cons] at hsort
    by_cases hs : s.1 ≤ start
    · rcases ih hsort.2 fun x hx => hne x (List.mem_cons_of_mem _ hx) with ⟨l, r, rfl, hl, hr, hi⟩
      refine ⟨s :: l, r, rfl, ?_, hr, ?_⟩
      · intro x hx
        rcases List.mem_cons.mp hx with rfl | hx
        · exact hs
        · exact hl x hx
      · simpa [bisectRight, hs] using hi
    · refine ⟨[], s :: spans, rfl, by simp, ?_, by simp [bisectRight, hs]⟩
      intro x hx
      rcases List.mem_cons.mp hx with rfl | hx
      · omega
      · have h₁ := hsort.1 x hx
        have h₂ := hne s List.mem_cons_self
        omega

/-- The neighbour test in terms of the split. -/
theorem overlaps_split {l r : List (ℕ × ℕ)} {start stop : ℕ}
    (hi : bisectRight ((l ++ r).map Prod.fst) start = l.length) :
    (⟨(l ++ r).map Prod.fst, (l ++ r).map Prod.snd⟩ : NonOverlappingSpans).overlaps start stop =
        true ↔
      (∃ s, l.getLast? = some s ∧ start < s.2) ∨ ∃ s, r.head? = some s ∧ s.1 < stop := by
  unfold overlaps
  simp only [hi]
  have hlast : (0 < l.length ∧ start < ((l ++ r).map Prod.snd).getD (l.length - 1) 0) ↔
      ∃ s, l.getLast? = some s ∧ start < s.2 := by
    rcases List.eq_nil_or_concat l with rfl | ⟨l', s, rfl⟩
    · simp
    · simp
  have hhead : (l.length < ((l ++ r).map Prod.fst).length ∧
      ((l ++ r).map Prod.fst).getD l.length 0 < stop) ↔ ∃ s, r.head? = some s ∧ s.1 < stop := by
    cases r with
    | nil => simp
    | cons s r => simp
  rw [← hlast, ← hhead]
  split
  · next h => exact iff_of_true rfl (Or.inl h)
  · next h => simp only [decide_eq_true_eq, h, false_or]

/-- **The neighbour test is the overlap test.** -/
theorem Tracks.overlaps_iff {o : NonOverlappingSpans} {acc : List (ℕ × ℕ)} (h : o.Tracks acc)
    {start stop : ℕ} (hlt : start < stop) :
    o.overlaps start stop = true ↔ ∃ s ∈ acc, start < s.2 ∧ s.1 < stop := by
  rcases h with ⟨spans, hs, he, hsort, hne, hmem⟩
  rcases exists_split hsort hne start with ⟨l, r, rfl, hl, hr, hi⟩
  have ho : o = ⟨(l ++ r).map Prod.fst, (l ++ r).map Prod.snd⟩ := by
    cases o
    simp_all
  rw [ho, overlaps_split hi]
  rw [List.pairwise_append] at hsort
  constructor
  · rintro (⟨s, hs, hlt'⟩ | ⟨s, hs, hlt'⟩)
    · have hsl : s ∈ l := List.mem_of_getLast? hs
      have := hl s hsl
      exact ⟨s, (hmem s).mp (by simp [hsl]), hlt', by omega⟩
    · have hsr : s ∈ r := List.mem_of_head? hs
      have h₁ := hr s hsr
      have h₂ := hne s (by simp [hsr])
      exact ⟨s, (hmem s).mp (by simp [hsr]), by omega, hlt'⟩
  · rintro ⟨s, hs, h₁, h₂⟩
    rcases List.mem_append.mp ((hmem s).mpr hs) with hsl | hsr
    · -- of the spans that begin up to `start` only the last one can reach past it
      left
      rcases List.eq_nil_or_concat l with rfl | ⟨l', t, rfl⟩
      · exact absurd hsl List.not_mem_nil
      · refine ⟨t, by simp, ?_⟩
        rw [List.concat_eq_append] at hsl hsort hl
        rcases List.mem_append.mp hsl with hs' | hs'
        · have h₃ := (List.pairwise_append.mp hsort.1).2.2 s hs' t (by simp)
          have h₄ := hl t (by simp)
          omega
        · rw [← List.mem_singleton.mp hs']
          exact h₁
    · right
      cases r with
      | nil => exact absurd hsr List.not_mem_nil
      | cons t r =>
        refine ⟨t, rfl, ?_⟩
        rcases List.mem_cons.mp hsr with rfl | hs'
        · exact h₂
        · have h₃ := (List.pairwise_cons.mp hsort.2.1).1 s hs'
          have h₄ := hne t (by simp)
          omega

theorem insertIdx_length_append {α : Type*} (l r : List α) (x : α) :
    (l ++ r).insertIdx l.length x = l ++ x :: r := by
  induction l with
  | nil => rfl
  | cons a l ih => simp [ih]

/-- What the neighbours of a free span leave it: the spans on its left end before it, those on
its right begin behind it. -/
theorem free_of_overlaps {l r : List (ℕ × ℕ)} {start stop : ℕ}
    (hsort : (l ++ r).Pairwise fun a b => a.2 ≤ b.1) (hle : ∀ s ∈ l ++ r, s.1 ≤ s.2)
    (hi : bisectRight ((l ++ r).map Prod.fst) start = l.length)
    (hno : (⟨(l ++ r).map Prod.fst, (l ++ r).map Prod.snd⟩ : NonOverlappingSpans).overlaps
      start stop = false) :
    (∀ s ∈ l, s.2 ≤ start) ∧ ∀ s ∈ r, stop ≤ s.1 := by
  obtain ⟨hleft, hright⟩ : (¬∃ s, l.getLast? = some s ∧ start < s.2) ∧
      ¬∃ s, r.head? = some s ∧ s.1 < stop := by
    rw [← not_or, ← overlaps_split hi, hno]
    simp
  rw [List.pairwise_append] at hsort
  constructor
  · intro s hs
    rcases List.eq_nil_or_concat l with rfl | ⟨l', t, rfl⟩
    · exact absurd hs List.not_mem_nil
    · have ht : t.2 ≤ start := by
        by_contra hlt
        exact hleft ⟨t, by simp, Nat.lt_of_not_le hlt⟩
      rw [List.concat_eq_append] at hs hsort hle
      rcases List.mem_append.mp hs with hs | hs
      · have h₁ := (List.pairwise_append.mp hsort.1).2.2 s hs t (by simp)
        have h₂ := hle t (by simp)
        omega
      · rw [List.mem_singleton.mp hs]
        exact ht
  · intro s hs
    cases r with
    | nil => exact absurd hs List.not_mem_nil
    | cons t r =>
      have ht : stop ≤ t.1 := by
        by_contra hlt
        exact hright ⟨t, rfl, Nat.lt_of_not_le hlt⟩
      rcases List.mem_cons.mp hs with rfl | hs
      · exact ht
      · have h₁ := (List.pairwise_cons.mp hsort.2.1).1 s hs
        have h₂ := hle t (by simp)
        omega

/-- Adding a span that overlaps none of the others. -/
theorem Tracks.add {o : NonOverlappingSpans} {acc : List (ℕ × ℕ)} (h : o.Tracks acc)
    {start stop : ℕ} (hle : start ≤ stop) (hno : o.overlaps start stop = false) :
    (o.add start stop).Tracks ((start, stop) :: acc) := by
  rcases h with ⟨spans, hs, he, hsort, hne, hmem⟩
  rcases exists_split hsort hne start with ⟨l, r, rfl, hl, hr, hi⟩
  have ho : o = ⟨(l ++ r).map Prod.fst, (l ++ r).map Prod.snd⟩ := by
    cases o
    simp_all
  obtain ⟨hleft, hright⟩ := free_of_overlaps hsort hne hi (ho ▸ hno)
  refine ⟨l ++ (start, stop) :: r, ?_, ?_, ?_, ?_, ?_⟩
  · have hi' : bisectRight o.starts start = (l.map Prod.fst).length := by rw [hs, hi, List.length_map]
    simp only [NonOverlappingSpans.add, hi']
    rw [hs, List.map_append, List.map_append, List.map_cons]
    exact insertIdx_length_append _ _ _
  · have hi' : bisectRight o.starts start = (l.map Prod.snd).length := by rw [hs, hi, List.length_map]
    simp only [NonOverlappingSpans.add, hi']
    rw [he, List.map_append, List.map_append, List.map_cons]
    exact insertIdx_length_append _ _ _
  · rw [List.pairwise_append] at hsort ⊢
    refine ⟨hsort.1, List.pairwise_cons.mpr ⟨hright, hsort.2.1⟩, ?_⟩
    intro s hs t ht
    rcases List.mem_cons.mp ht with rfl | ht
    · exact hleft s hs
    · exact hsort.2.2 s hs t ht
  · intro s hs
    rcases List.mem_append.mp hs with hs | hs
    · exact hne s (by simp [hs])
    · rcases List.mem_cons.mp hs with rfl | hs
      · exact hle
      · exact hne s (by simp [hs])
  · intro s
    rw [List.mem_cons, ← hmem s]
    simp only [List.mem_append, List.mem_cons]
    tauto

/-! ## Histories -/

/-- The lists after any history in which a span was added only when `overlaps` had just been
false for it, and the spans that were added. -/
inductive Accepted : NonOverlappingSpans → List (ℕ × ℕ) → Prop
  | empty : Accepted .empty []
  | add {o : NonOverlappingSpans} {acc : List (ℕ × ℕ)} {start stop : ℕ} (h : Accepted o acc)
      (hle : start ≤ stop) (hno : o.overlaps start stop = false) :
      Accepted (o.add start stop) ((start, stop) :: acc)

theorem Accepted.tracks {o : NonOverlappingSpans} {acc : List (ℕ × ℕ)} (h : Accepted o acc) :
    o.Tracks acc := by
  induction h with
  | empty => exact tracks_empty
  | add _ hle hno ih => exact ih.add hle hno

/-- **The neighbour test is the linear scan** over all spans that were ever added. -/
theorem overlaps_history {o : NonOverlappingSpans} {acc : List (ℕ × ℕ)} (h : Accepted o acc)
    {start stop : ℕ} (hlt : start < stop) :
    o.overlaps start stop = true ↔ ∃ s ∈ acc, start < s.2 ∧ s.1 < stop :=
  h.tracks.overlaps_iff hlt

/-- Two spans that touch and a candidate that reaches into both. -/
theorem overlaps_history_touching :
    let o := (empty.add 10 20).add 0 10
    Accepted o [(0, 10), (10, 20)] ∧ 9 < 21 ∧
      (o.overlaps 9 21 = true ↔ ∃ s ∈ [(0, 10), (10, 20)], 9 < s.2 ∧ s.1 < 21) := by
  intro o
  have ho : Accepted o [(0, 10), (10, 20)] :=
    .add (.add .empty (by decide) (by decide)) (by decide) (by decide)
  exact ⟨ho, by decide, overlaps_history ho (by decide)⟩

/-! ## Non-empty spans -/

/-- The lists hold the spans `acc`: sorted, non-empty and disjoint. -/
structure Holds (o : NonOverlappingSpans) (acc : List (ℕ × ℕ)) : Prop where
  intro ::
  sorted : ∃ spans : List (ℕ × ℕ), o.starts = spans.map Prod.fst ∧ o.ends = spans.map Prod.snd ∧
    (spans.Pairwise fun a b => a.2 ≤ b.1) ∧ (∀ s ∈ spans, s.1 < s.2) ∧ ∀ s, s ∈ spans ↔ s ∈ acc

theorem holds_iff {o : NonOverlappingSpans} {acc : List (ℕ × ℕ)} :
    o.Holds acc ↔ o.Tracks acc ∧ ∀ s ∈ acc, s.1 < s.2 := by
  constructor
  · rintro ⟨spans, hs, he, hsort, hne, hmem⟩
    refine ⟨⟨spans, hs, he, hsort, fun s hs => (hne s hs).le, hmem⟩, ?_⟩
    intro s hs
    exact hne s ((hmem s).mpr hs)
  · rintro ⟨⟨spans, hs, he, hsort, -, hmem⟩, hne⟩
    exact ⟨spans, hs, he, hsort, fun s hs => hne s ((hmem s).mp hs), hmem⟩

theorem holds_empty : empty.Holds [] := holds_iff.mpr ⟨tracks_empty, by simp⟩

theorem overlaps_iff {o : NonOverlappingSpans} {acc : List (ℕ × ℕ)} (h : o.Holds acc)
    {start stop : ℕ} (hlt : start < stop) :
    o.overlaps start stop = true ↔ ∃ s ∈ acc, start < s.2 ∧ s.1 < stop :=
  (holds_iff.mp h).1.overlaps_iff hlt

theorem Holds.add {o : NonOverlappingSpans} {acc : List (ℕ × ℕ)} (h : o.Holds acc)
    {start stop : ℕ} (hlt : start < stop) (hno : o.overlaps start stop = false) :
    (o.add start stop).Holds ((start, stop) :: acc) := by
  obtain ⟨htracks, hne⟩ := holds_iff.mp h
  exact holds_iff.mpr ⟨htracks.add hlt.le hno, List.forall_mem_cons.mpr ⟨hlt, hne⟩⟩

end NonOverlappingSpans

/-! ## The selection loop -/

/-- The loop that both selections share: a candidate that overlaps an accepted one is
dropped. -/
def selectSpans {α : Type} (span : α → ℕ × ℕ) (cs : List α) : List α :=
  Selection.greedy (fun o c => NonOverlappingSpans.overlaps o (span c).1 (span c).2)
    (fun o c => o.add (span c).1 (span c).2) NonOverlappingSpans.empty cs

/-- Two ranges share a position. -/
def Overlap (s t : ℕ × ℕ) : Prop := s.1 < t.2 ∧ t.1 < s.2

theorem Overlap.symm {s t : ℕ × ℕ} (h : Overlap s t) : Overlap t s := ⟨h.2, h.1⟩

section Select

variable {α : Type} {span : α → ℕ × ℕ}

theorem refuse_iff_overlap (span : α → ℕ × ℕ) (o : NonOverlappingSpans) (acc : List α) (c : α)
    (h : o.Holds (acc.map span)) (hc : (span c).1 < (span c).2) :
    o.overlaps (span c).1 (span c).2 = true ↔ ∃ d ∈ acc, Overlap (span d) (span c) := by
  rw [NonOverlappingSpans.overlaps_iff h hc]
  constructor
  · rintro ⟨s, hs, h₁, h₂⟩
    rcases List.mem_map.mp hs with ⟨d, hd, rfl⟩
    exact ⟨d, hd, h₂, h₁⟩
  · rintro ⟨d, hd, h₁, h₂⟩
    exact ⟨_, List.mem_map_of_mem hd, h₂, h₁⟩

theorem holds_nil (span : α → ℕ × ℕ) : NonOverlappingSpans.empty.Holds (([] : List α).map span) :=
  NonOverlappingSpans.holds_empty

theorem holds_accept (span : α → ℕ × ℕ) (o : NonOverlappingSpans) (acc : List α) (c : α)
    (h : o.Holds (acc.map span)) (hc : (span c).1 < (span c).2)
    (hno : o.overlaps (span c).1 (span c).2 = false) :
    (o.add (span c).1 (span c).2).Holds ((c :: acc).map span) :=
  h.add hc hno

/-- The selection looks at the ranges only. -/
theorem map_selectSpans (span : α → ℕ × ℕ) (cs : List α) :
    (selectSpans span cs).map span = selectSpans id (cs.map span) := by
  refine (Selection.greedy_map span id ?_ ?_ NonOverlappingSpans.empty cs).symm
  · exact fun _ _ => rfl
  · exact fun _ _ => rfl

/-- Candidates that are tried later do not change the selection so far. -/
theorem selectSpans_append (span : α → ℕ × ℕ) (cs ds : List α) :
    ∃ es, selectSpans span (cs ++ ds) = selectSpans span cs ++ es ∧ es.Sublist ds := by
  unfold selectSpans
  obtain ⟨s', hs'⟩ : ∃ s', Selection.greedy
      (fun o c => NonOverlappingSpans.overlaps o (span c).1 (span c).2)
      (fun o c => o.add (span c).1 (span c).2) NonOverlappingSpans.empty (cs ++ ds) = _ :=
    Selection.greedy_append NonOverlappingSpans.empty cs ds
  exact ⟨_, hs', Selection.greedy_sublist s' ds⟩

variable {cs : List α} (hne : ∀ c ∈ cs, (span c).1 < (span c).2)

include hne

/-- The selected candidates are disjoint. -/
theorem selectSpans_disjoint :
    (selectSpans span cs).Pairwise fun a b => ¬ Overlap (span a) (span b) :=
  (Selection.greedy_conflictFree (refuse_iff_overlap span)
    (holds_accept span) (holds_nil span) hne).2

variable {prior : α → α → Prop} (hasymm : ∀ a b, prior a b → ¬ prior b a)
  (hsort : cs.Pairwise fun a b => prior a b ∨ a = b)

include hsort

/-- Every candidate overlaps a selected one. -/
theorem exists_selectSpans_overlap {c : α} (hc : c ∈ cs) :
    ∃ d ∈ selectSpans span cs, Overlap (span d) (span c) := by
  by_cases hsel : c ∈ selectSpans span cs
  · exact ⟨c, hsel, hne c hc, hne c hc⟩
  · rcases Selection.greedy_dropped (refuse_iff_overlap span)
      (holds_accept span) (holds_nil span) hne hsort hc hsel
      with ⟨d, hd, _⟩ | ⟨d, hd, _, hcon⟩
    · exact absurd hd List.not_mem_nil
    · exact ⟨d, hd, hcon⟩

include hasymm

/-- **The selected candidates are the winners.** -/
theorem mem_selectSpans_iff_wins {c : α} :
    c ∈ selectSpans span cs ↔
      Selection.Wins (fun d c => Overlap (span d) (span c)) prior cs c :=
  Selection.mem_greedy_iff_wins (refuse_iff_overlap span)
    (holds_accept span) hasymm (holds_nil span) hne hsort

end Select

end CorpLlmGateway.Sanitizer
