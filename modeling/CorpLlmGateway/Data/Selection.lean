import Mathlib

/-!
# Greedy selection

Candidates are tried in order of priority against a state that remembers the
accepted ones; a candidate that the state refuses is dropped. When the state says
whether an accepted candidate conflicts with a new one, the accepted candidates are
the *winners*: a candidate wins if every conflicting candidate of higher priority
loses, and loses if one of them wins.

* `greedy_filter` — dropping candidates that were not accepted changes nothing;
* `mem_greedy_iff_wins` — the accepted candidates are the winners;
* `wins_or_beaten` — a candidate wins or is beaten by a winner;
* `wins_part_iff` — a part of the pool that is closed under conflicts keeps its winners;
* `Wins.covered` — what a larger pool does to the winners of a part;
* `insertionSort_filter`, `pairwise_insertionSort_stable` — the stable sort commutes with
  dropping elements and keeps the order of elements that compare equal.
-/

namespace Selection

variable {α σ : Type}

/-! ## The loop -/

/-- Try the candidates in order; `refuse` asks the state, `add` records an accepted
candidate. -/
def greedy (refuse : σ → α → Bool) (add : σ → α → σ) : σ → List α → List α
  | _, [] => []
  | s, c :: cs =>
      if refuse s c then greedy refuse add s cs else c :: greedy refuse add (add s c) cs

section Loop

variable {refuse : σ → α → Bool} {add : σ → α → σ}

theorem greedy_sublist (s : σ) (cs : List α) : (greedy refuse add s cs).Sublist cs := by
  induction cs generalizing s with
  | nil => exact .slnil
  | cons c cs ih =>
    unfold greedy
    split
    · exact (ih s).cons c
    · exact (ih _).cons_cons c

/-- Candidates that were not accepted left no trace in the state, so they can be
dropped from the start. -/
theorem greedy_filter {P : α → Bool} {s : σ} {cs : List α}
    (h : ∀ c ∈ greedy refuse add s cs, P c = true) :
    greedy refuse add s (cs.filter P) = greedy refuse add s cs := by
  induction cs generalizing s with
  | nil => rfl
  | cons c cs ih =>
    by_cases hc : refuse s c = true
    · have hskip : greedy refuse add s (c :: cs) = greedy refuse add s cs := by
        rw [greedy, if_pos hc]
      rw [hskip] at h ⊢
      by_cases hP : P c = true
      · rw [List.filter_cons_of_pos hP, greedy, if_pos hc, ih h]
      · rw [List.filter_cons_of_neg hP, ih h]
    · have htake : greedy refuse add s (c :: cs) = c :: greedy refuse add (add s c) cs := by
        rw [greedy, if_neg hc]
      rw [htake] at h ⊢
      have hP : P c = true := h c List.mem_cons_self
      rw [List.filter_cons_of_pos hP, greedy, if_neg hc,
        ih fun d hd => h d (List.mem_cons_of_mem _ hd)]

/-- The loop over a list of candidates that begins with `cs`. -/
theorem greedy_append (s : σ) (cs ds : List α) :
    ∃ s', greedy refuse add s (cs ++ ds) = greedy refuse add s cs ++ greedy refuse add s' ds := by
  induction cs generalizing s with
  | nil => exact ⟨s, rfl⟩
  | cons c cs ih =>
    simp only [List.cons_append, greedy]
    split
    · exact ih s
    · obtain ⟨s', hs'⟩ := ih (add s c)
      exact ⟨s', by rw [hs', List.cons_append]⟩

/-- Renaming candidates and states in a way the loop does not see. -/
theorem greedy_map {β τ : Type} {refuse' : τ → β → Bool} {add' : τ → β → τ} (f : α → β) (g : σ → τ)
    (hrefuse : ∀ s c, refuse' (g s) (f c) = refuse s c)
    (hadd : ∀ s c, add' (g s) (f c) = g (add s c)) (s : σ) (cs : List α) :
    greedy refuse' add' (g s) (cs.map f) = (greedy refuse add s cs).map f := by
  induction cs generalizing s with
  | nil => rfl
  | cons c cs ih =>
    simp only [List.map_cons, greedy, hrefuse, hadd]
    split
    · exact ih s
    · rw [List.map_cons, ih]

end Loop

/-! ## Winners -/

/-- The fate of a candidate of a pool: `true` if it wins, `false` if it loses. -/
inductive Fate (conflict prior : α → α → Prop) (pool : List α) : Bool → α → Prop
  | wins {c : α} (h : ∀ d ∈ pool, prior d c → conflict d c → Fate conflict prior pool false d) :
      Fate conflict prior pool true c
  | loses {c d : α} (hd : d ∈ pool) (hprior : prior d c) (hconflict : conflict d c)
      (h : Fate conflict prior pool true d) : Fate conflict prior pool false c

/-- A candidate of the pool wins if every conflicting one of higher priority loses. -/
def Wins (conflict prior : α → α → Prop) (pool : List α) (c : α) : Prop :=
  c ∈ pool ∧ Fate conflict prior pool true c

/-- A candidate does not both win and lose. -/
theorem Fate.unique {conflict prior : α → α → Prop} {pool : List α} {c : α} {b b' : Bool}
    (h : Fate conflict prior pool b c) (h' : Fate conflict prior pool b' c) : b = b' := by
  induction h generalizing b' with
  | wins _ ih =>
    cases h' with
    | wins _ => rfl
    | loses hd hprior hconflict hw => exact absurd (ih _ hd hprior hconflict hw) (by simp)
  | loses hd hprior hconflict _ ih =>
    cases h' with
    | wins hall => exact absurd (ih (hall _ hd hprior hconflict)) (by simp)
    | loses _ _ _ _ => rfl

/-- Two winners do not conflict. -/
theorem Wins.not_conflict {conflict prior : α → α → Prop} {pool : List α} {c d : α}
    (hc : Wins conflict prior pool c) (hd : Wins conflict prior pool d) (hprior : prior d c) :
    ¬ conflict d c := by
  intro hcon
  have hlose : Fate conflict prior pool false c := .loses hd.1 hprior hcon hd.2
  exact absurd (hc.2.unique hlose) (by simp)

/-- A candidate that no candidate of higher priority conflicts with wins. -/
theorem wins_of_conflictFree {conflict prior : α → α → Prop} {pool : List α} {c : α} (hc : c ∈ pool)
    (h : ∀ d ∈ pool, prior d c → ¬ conflict d c) : Wins conflict prior pool c :=
  ⟨hc, .wins fun d hd hprior hcon => absurd hcon (h d hd hprior)⟩

section Closed

variable {conflict prior : α → α → Prop} {pool part : List α} (hsub : ∀ c ∈ part, c ∈ pool)
  (hclosed : ∀ c ∈ part, ∀ d ∈ pool, conflict d c → d ∈ part)

include hsub hclosed

theorem Fate.of_part {b : Bool} {c : α} (hc : c ∈ part) (h : Fate conflict prior part b c) :
    Fate conflict prior pool b c := by
  induction h with
  | wins _ ih =>
    refine .wins fun d hd hprior hcon => ?_
    have hd' := hclosed _ hc d hd hcon
    exact ih d hd' hprior hcon hd'
  | loses hd hprior hcon _ ih => exact .loses (hsub _ hd) hprior hcon (ih hd)

theorem Fate.to_part {b : Bool} {c : α} (hc : c ∈ part) (h : Fate conflict prior pool b c) :
    Fate conflict prior part b c := by
  induction h with
  | wins _ ih => exact .wins fun d hd hprior hcon => ih d (hsub d hd) hprior hcon hd
  | loses hd hprior hcon _ ih =>
    have hd' := hclosed _ hc _ hd hcon
    exact .loses hd' hprior hcon (ih hd')

/-- A part of a pool whose candidates conflict with nothing outside it has the same
winners on its own. -/
theorem wins_part_iff {c : α} (hc : c ∈ part) :
    Wins conflict prior part c ↔ Wins conflict prior pool c :=
  ⟨fun h => ⟨hsub c hc, h.2.of_part hsub hclosed hc⟩,
    fun h => ⟨hc, h.2.to_part hsub hclosed hc⟩⟩

end Closed

section Covered

variable {conflict prior covers : α → α → Prop} {pool part : List α}
  (htrans : ∀ a b c, prior a b → prior b c → prior a c)
  (hmono : ∀ a b c, covers a b → conflict b c → conflict a c) (hsub : ∀ c ∈ part, c ∈ pool)
  (htotal : ∀ c ∈ pool, Wins conflict prior pool c ∨
    ∃ d, Wins conflict prior pool d ∧ prior d c ∧ conflict d c)
  (hnew : ∀ c ∈ part, ∀ d ∈ pool, d ∉ part → prior d c → conflict d c → covers d c)

include htrans hmono hsub htotal hnew

/-- If what a pool adds to a part of it covers the candidates of the part that it beats, a
winner of the part wins in the pool or is covered by a winner. -/
theorem Wins.covered {c : α} (h : Wins conflict prior part c) :
    Wins conflict prior pool c ∨ ∃ d, Wins conflict prior pool d ∧ prior d c ∧ covers d c := by
  obtain ⟨hc, hfate⟩ := h
  generalize hb : true = b at hfate
  -- a candidate that loses in the part loses to a winner of it that is covered in the pool
  have hboth : (b = true → c ∈ part → Wins conflict prior pool c ∨
      ∃ d, Wins conflict prior pool d ∧ prior d c ∧ covers d c) ∧
      (b = false → ∃ e, prior e c ∧ conflict e c ∧ (Wins conflict prior pool e ∨
        ∃ d, Wins conflict prior pool d ∧ prior d e ∧ covers d e)) := by
    clear hb hc
    induction hfate with
    | @wins c hall ih =>
      refine ⟨fun _ hc => ?_, by simp⟩
      rcases htotal c (hsub c hc) with hwin | ⟨d, hd, hprior, hcon⟩
      · exact .inl hwin
      by_cases hmem : d ∈ part
      · obtain ⟨e, hed, hcon', hwin | ⟨a, ha, hae, hcov⟩⟩ := (ih d hmem hprior hcon).2 rfl
        · exact absurd hcon' (hd.not_conflict hwin hed)
        · exact absurd (hmono a e d hcov hcon') (hd.not_conflict ha (htrans a e d hae hed))
      · exact .inr ⟨d, hd, hprior, hnew c hc d hd.1 hmem hprior hcon⟩
    | loses hd hprior hcon h ih => exact ⟨by simp, fun _ => ⟨_, hprior, hcon, ih.1 rfl hd⟩⟩
  exact hboth.1 hb.symm hc

end Covered

/-- The winners depend only on what is in the pool. -/
theorem wins_congr {conflict prior : α → α → Prop} {pool part : List α}
    (h : ∀ c, c ∈ part ↔ c ∈ pool) {c : α} :
    Wins conflict prior part c ↔ Wins conflict prior pool c := by
  by_cases hc : c ∈ part
  · exact wins_part_iff (fun d hd => (h d).mp hd) (fun _ _ d hd _ => (h d).mpr hd) hc
  · constructor
    · exact fun hw => absurd hw.1 hc
    · exact fun hw => absurd ((h c).mpr hw.1) hc

section Winners

variable {refuse : σ → α → Bool} {add : σ → α → σ} {conflict prior : α → α → Prop}
  {valid : α → Prop} {holds : σ → List α → Prop}
  (hrefuse : ∀ s acc c, holds s acc → valid c → (refuse s c = true ↔ ∃ d ∈ acc, conflict d c))
  (hadd : ∀ s acc c, holds s acc → valid c → refuse s c = false → holds (add s c) (c :: acc))

include hrefuse hadd

/-- Accepted candidates do not conflict with anything accepted before them. -/
theorem greedy_conflictFree {s : σ} {acc cs : List α} (hs : holds s acc)
    (hv : ∀ c ∈ cs, valid c) :
    (∀ c ∈ greedy refuse add s cs, ∀ d ∈ acc, ¬ conflict d c) ∧
      (greedy refuse add s cs).Pairwise fun d c => ¬ conflict d c := by
  induction cs generalizing s acc with
  | nil => exact ⟨by simp [greedy], .nil⟩
  | cons c cs ih =>
    have hvc := hv c List.mem_cons_self
    have hvs : ∀ d ∈ cs, valid d := fun d hd => hv d (List.mem_cons_of_mem _ hd)
    unfold greedy
    split
    · exact ih hs hvs
    · next hc =>
      have hc' : refuse s c = false := by simpa using hc
      rcases ih (hadd s acc c hs hvc hc') hvs with ⟨hacc, hpw⟩
      constructor
      · intro x hx d hd
        rcases List.mem_cons.mp hx with rfl | hx
        · exact fun hcon => hc ((hrefuse s acc x hs hvc).mpr ⟨d, hd, hcon⟩)
        · exact hacc x hx d (List.mem_cons_of_mem _ hd)
      · rw [List.pairwise_cons]
        exact ⟨fun x hx => hacc x hx c List.mem_cons_self, hpw⟩

/-- A dropped candidate conflicts with one that was accepted before it. -/
theorem greedy_dropped {s : σ} {acc cs : List α} (hs : holds s acc) (hv : ∀ c ∈ cs, valid c)
    (hsort : cs.Pairwise fun a b => prior a b ∨ a = b) {c : α} (hc : c ∈ cs)
    (hno : c ∉ greedy refuse add s cs) :
    (∃ d ∈ acc, conflict d c) ∨ ∃ d ∈ greedy refuse add s cs, prior d c ∧ conflict d c := by
  induction cs generalizing s acc with
  | nil => exact absurd hc List.not_mem_nil
  | cons x cs ih =>
    have hvx := hv x List.mem_cons_self
    have hvs : ∀ d ∈ cs, valid d := fun d hd => hv d (List.mem_cons_of_mem _ hd)
    rw [List.pairwise_cons] at hsort
    unfold greedy at hno ⊢
    split at hno
    · next hx =>
      rw [if_pos hx]
      rcases List.mem_cons.mp hc with rfl | hc
      · exact Or.inl ((hrefuse s acc c hs hvx).mp hx)
      · exact ih hs hvs hsort.2 hc hno
    · next hx =>
      rw [if_neg hx]
      rw [List.mem_cons, not_or] at hno
      have hc' : c ∈ cs := (List.mem_cons.mp hc).resolve_left hno.1
      have hx' : refuse s x = false := by simpa using hx
      rcases ih (hadd s acc x hs hvx hx') hvs hsort.2 hc' hno.2 with ⟨d, hd, hcon⟩ | ⟨d, hd, hdc⟩
      · rcases List.mem_cons.mp hd with rfl | hd
        · have hprior := (hsort.1 c hc').resolve_right fun heq => hno.1 heq.symm
          exact Or.inr ⟨d, List.mem_cons_self, hprior, hcon⟩
        · exact Or.inl ⟨d, hd, hcon⟩
      · exact Or.inr ⟨d, List.mem_cons_of_mem _ hd, hdc⟩

variable (hasymm : ∀ a b, prior a b → ¬ prior b a)

include hasymm

/-- The fate of the candidates of a pool that is tried in order of priority. -/
theorem greedy_fate {s : σ} {pool : List α} (hs : holds s []) (hv : ∀ c ∈ pool, valid c)
    (hsort : pool.Pairwise fun a b => prior a b ∨ a = b) (xs ys : List α)
    (hsplit : pool = xs ++ ys) :
    ∀ c ∈ xs, (c ∈ greedy refuse add s pool → Fate conflict prior pool true c) ∧
      (c ∉ greedy refuse add s pool → Fate conflict prior pool false c) := by
  have hfree : ∀ d ∈ greedy refuse add s pool, ∀ c ∈ greedy refuse add s pool,
      (prior d c → ¬ conflict d c) ∧ (prior c d → ¬ conflict c d) := by
    have hpw := (greedy_conflictFree hrefuse hadd hs hv).2
    have hboth : (greedy refuse add s pool).Pairwise fun d c =>
        (prior d c → ¬ conflict d c) ∧ (prior c d → ¬ conflict c d) := by
      refine (hpw.and (hsort.sublist (greedy_sublist s pool))).imp ?_
      rintro d c ⟨hno, hdc | rfl⟩
      · exact ⟨fun _ => hno, fun hcd => absurd hcd (hasymm d c hdc)⟩
      · exact ⟨fun _ => hno, fun _ => hno⟩
    have hsymm : Std.Symm fun d c : α =>
        (prior d c → ¬ conflict d c) ∧ (prior c d → ¬ conflict c d) := ⟨fun _ _ h => ⟨h.2, h.1⟩⟩
    intro d hd c hc
    refine hboth.forall_of_forall ?_ hd hc
    intro x _
    exact ⟨fun h => absurd h (hasymm x x h), fun h => absurd h (hasymm x x h)⟩
  induction xs using List.reverseRecOn generalizing ys with
  | nil => simp
  | append_singleton xs c ih =>
    rw [List.append_assoc] at hsplit
    have hih := ih _ hsplit
    have hbefore : ∀ d ∈ pool, prior d c → d ∈ xs := by
      intro d hd hdc
      rw [hsplit] at hd hsort
      rcases List.mem_append.mp hd with hd | hd
      · exact hd
      · exfalso
        rcases List.mem_cons.mp hd with rfl | hd
        · exact hasymm d d hdc hdc
        · rcases (List.pairwise_cons.mp (List.pairwise_append.mp hsort).2.1).1 d hd with hcd | rfl
          · exact hasymm d c hdc hcd
          · exact hasymm c c hdc hdc
    intro x hx
    rcases List.mem_append.mp hx with hx | hx
    · exact hih x hx
    · rw [List.mem_singleton.mp hx]
      constructor
      · intro hc
        refine .wins fun d hd hprior hconflict => ?_
        refine (hih d (hbefore d hd hprior)).2 fun hd' => ?_
        exact (hfree d hd' c hc).1 hprior hconflict
      · intro hc
        have hcp : c ∈ pool := by simp [hsplit]
        rcases greedy_dropped hrefuse hadd hs hv hsort hcp hc with ⟨d, hd, _⟩ | ⟨d, hd, hprior, hcon⟩
        · exact absurd hd List.not_mem_nil
        · have hdp := (greedy_sublist s pool).subset hd
          exact .loses hdp hprior hcon ((hih d (hbefore d hdp hprior)).1 hd)

/-- The accepted candidates are the winners. -/
theorem mem_greedy_iff_wins {s : σ} {pool : List α} (hs : holds s []) (hv : ∀ c ∈ pool, valid c)
    (hsort : pool.Pairwise fun a b => prior a b ∨ a = b) {c : α} :
    c ∈ greedy refuse add s pool ↔ Wins conflict prior pool c := by
  have hfate := greedy_fate hrefuse hadd hasymm hs hv hsort pool [] (by simp)
  constructor
  · intro hc
    have hp := (greedy_sublist s pool).subset hc
    exact ⟨hp, (hfate c hp).1 hc⟩
  · rintro ⟨hp, hw⟩
    by_contra hc
    exact absurd (hw.unique ((hfate c hp).2 hc)) (by simp)

/-- A candidate of the pool wins, or a winner ahead of it conflicts with it. -/
theorem wins_or_beaten {s : σ} {pool : List α} (hs : holds s []) (hv : ∀ c ∈ pool, valid c)
    (hsort : pool.Pairwise fun a b => prior a b ∨ a = b) {c : α} (hc : c ∈ pool) :
    Wins conflict prior pool c ∨
      ∃ d, Wins conflict prior pool d ∧ prior d c ∧ conflict d c := by
  have hwin : ∀ d, d ∈ greedy refuse add s pool ↔ Wins conflict prior pool d := fun d =>
    mem_greedy_iff_wins hrefuse hadd hasymm hs hv hsort
  by_cases hmem : c ∈ greedy refuse add s pool
  · exact Or.inl ((hwin c).mp hmem)
  · rcases greedy_dropped hrefuse hadd hs hv hsort hc hmem with ⟨d, hd, _⟩ | ⟨d, hd, hdc⟩
    · exact absurd hd List.not_mem_nil
    · exact Or.inr ⟨d, (hwin d).mp hd, hdc⟩

end Winners

/-! ## Stable sorting -/

/-- A list in which no element of a kind follows one of the other kind. -/
theorem filter_append_filter_not {P : α → Bool} {l : List α}
    (h : l.Pairwise fun a b => P b = true → P a = true) :
    l.filter P ++ l.filter (fun a => !P a) = l := by
  induction l with
  | nil => rfl
  | cons a l ih =>
    have ha := List.pairwise_cons.mp h
    by_cases hP : P a = true
    · rw [List.filter_cons_of_pos hP, List.filter_cons_of_neg (by simp [hP]), List.cons_append,
        ih ha.2]
    · have hnone : l.filter P = [] := by
        rw [List.filter_eq_nil_iff]
        exact fun b hb hPb => hP (ha.1 b hb hPb)
      have hrest := ih ha.2
      rw [hnone, List.nil_append] at hrest
      rw [List.filter_cons_of_neg hP, hnone, List.nil_append,
        List.filter_cons_of_pos (by simpa using hP), hrest]

section First

variable {α : Type*} {r : α → α → Prop}

/-- `g` is what a stable sort puts first among the elements with `p`: the elements before
it come strictly later in the order, those behind it not earlier. -/
def First (r : α → α → Prop) (p : α → Bool) (l : List α) (g : α) : Prop :=
  ∃ pre post, l = pre ++ g :: post ∧ p g = true ∧ (∀ h ∈ pre, p h = true → ¬ r h g) ∧
    ∀ h ∈ post, p h = true → r g h

theorem First.mem {p : α → Bool} {l : List α} {g : α} (h : First r p l g) : g ∈ l := by
  obtain ⟨pre, post, rfl, -⟩ := h
  simp

/-- The first element is below every element with `p`. -/
theorem First.le [Std.Total r] {p : α → Bool} {l : List α} {g h : α} (hg : First r p l g)
    (hh : h ∈ l) (hp : p h = true) : r g h := by
  obtain ⟨pre, post, rfl, -, hpre, hpost⟩ := hg
  rcases List.mem_append.mp hh with hh | hh
  · exact (Std.Total.total g h).resolve_right (hpre h hh hp)
  rcases List.mem_cons.mp hh with rfl | hh
  · exact (Std.Total.total h h).elim id id
  · exact hpost h hh hp

end First

section Sorting

variable {r : α → α → Prop} [DecidableRel r]

theorem filter_orderedInsert [IsTrans α r] (P : α → Bool) (a : α) {l : List α}
    (hl : l.Pairwise r) :
    (l.orderedInsert r a).filter P =
      if P a = true then (l.filter P).orderedInsert r a else l.filter P := by
  induction l with
  | nil => by_cases ha : P a = true <;> simp [ha]
  | cons b l ih =>
    rw [List.pairwise_cons] at hl
    by_cases hab : r a b
    · rw [List.orderedInsert_cons_of_le r l hab]
      by_cases ha : P a = true
      · rw [if_pos ha, List.filter_cons_of_pos ha]
        -- everything that stays comes after `b`, so `a` goes to the front
        cases hf : (b :: l).filter P with
        | nil => rfl
        | cons x xs =>
          have hx : x ∈ (b :: l).filter P := by simp [hf]
          have hbx : x ∈ b :: l := (List.mem_filter.mp hx).1
          have hax : r a x := by
            rcases List.mem_cons.mp hbx with rfl | hx'
            · exact hab
            · exact IsTrans.trans a b x hab (hl.1 x hx')
          rw [List.orderedInsert_cons_of_le r xs hax]
      · rw [if_neg ha, List.filter_cons_of_neg ha]
    · rw [List.orderedInsert_of_not_le r l hab]
      by_cases hb : P b = true
      · rw [List.filter_cons_of_pos hb, List.filter_cons_of_pos hb, ih hl.2]
        by_cases ha : P a = true
        · rw [if_pos ha, if_pos ha, List.orderedInsert_of_not_le r _ hab]
        · rw [if_neg ha, if_neg ha]
      · rw [List.filter_cons_of_neg hb, List.filter_cons_of_neg hb, ih hl.2]

/-- Dropping elements before or after a stable sort is the same. -/
theorem insertionSort_filter [Std.Total r] [IsTrans α r] (P : α → Bool) (l : List α) :
    (l.filter P).insertionSort r = (l.insertionSort r).filter P := by
  induction l with
  | nil => rfl
  | cons a l ih =>
    rw [List.insertionSort_cons, filter_orderedInsert P a (List.pairwise_insertionSort r l), ← ih]
    by_cases ha : P a = true
    · rw [if_pos ha, List.filter_cons_of_pos ha, List.insertionSort_cons]
    · rw [if_neg ha, List.filter_cons_of_neg ha]

/-- Inserting an element in front of everything that it may precede. -/
theorem pairwise_orderedInsert_stable [Std.Total r] [IsTrans α r] {q : α → α → Prop} {a : α}
    {l : List α} (hl : l.Pairwise fun x y => r x y ∧ (r y x → q x y)) (ha : ∀ x ∈ l, q a x) :
    (l.orderedInsert r a).Pairwise fun x y => r x y ∧ (r y x → q x y) := by
  induction l with
  | nil => exact List.pairwise_singleton _ _
  | cons b l ih =>
    have hb := List.pairwise_cons.mp hl
    by_cases hab : r a b
    · rw [List.orderedInsert_cons_of_le r l hab, List.pairwise_cons]
      refine ⟨?_, hl⟩
      intro x hx
      refine ⟨?_, fun _ => ha x hx⟩
      rcases List.mem_cons.mp hx with rfl | hx'
      · exact hab
      · exact IsTrans.trans a b x hab (hb.1 x hx').1
    · rw [List.orderedInsert_of_not_le r l hab, List.pairwise_cons]
      refine ⟨?_, ih hb.2 fun x hx => ha x (List.mem_cons_of_mem _ hx)⟩
      intro x hx
      rcases (List.mem_orderedInsert r).mp hx with rfl | hx'
      · exact ⟨(Std.Total.total b x).resolve_right hab, fun h => absurd h hab⟩
      · exact hb.1 x hx'

/-- The sort is stable: elements that compare equal keep their order. -/
theorem pairwise_insertionSort_stable [Std.Total r] [IsTrans α r] {q : α → α → Prop} {l : List α}
    (hl : l.Pairwise q) : (l.insertionSort r).Pairwise fun x y => r x y ∧ (r y x → q x y) := by
  induction l with
  | nil => exact .nil
  | cons a l ih =>
    have ha := List.pairwise_cons.mp hl
    rw [List.insertionSort_cons]
    exact pairwise_orderedInsert_stable (ih ha.2) fun x hx =>
      ha.1 x ((List.mem_insertionSort r).mp hx)

/-- The first element with `p` after an insertion. -/
theorem find?_orderedInsert [IsTrans α r] {p : α → Bool} {a : α} {l : List α}
    (hl : l.Pairwise r) :
    (l.orderedInsert r a).find? p =
      if p a = true then
        match l.find? p with
        | some g => if r a g then some a else some g
        | none => some a
      else l.find? p := by
  induction l with
  | nil => cases hp : p a <;> simp [hp]
  | cons b l ih =>
    have hb := List.pairwise_cons.mp hl
    by_cases hab : r a b
    · rw [List.orderedInsert_cons_of_le r l hab]
      by_cases hp : p a = true
      · -- everything behind `b` is above `a` as well
        rw [List.find?_cons_of_pos hp, if_pos hp]
        cases hg : (b :: l).find? p with
        | none => rfl
        | some g =>
          have hag : r a g := by
            rcases List.mem_cons.mp (List.mem_of_find?_eq_some hg) with rfl | hmem
            · exact hab
            · exact IsTrans.trans a b g hab (hb.1 g hmem)
          exact (if_pos hag).symm
      · rw [List.find?_cons_of_neg hp, if_neg hp]
    · rw [List.orderedInsert_of_not_le r l hab]
      by_cases hpb : p b = true
      · rw [List.find?_cons_of_pos hpb, List.find?_cons_of_pos hpb]
        simp only [if_neg hab, ite_self]
      · rw [List.find?_cons_of_neg hpb, List.find?_cons_of_neg hpb]
        exact ih hb.2

/-- What a stable sort puts first, read off the list that is sorted. -/
theorem find?_insertionSort [Std.Total r] [IsTrans α r] {p : α → Bool} {l : List α} {g : α} :
    (l.insertionSort r).find? p = some g ↔ First r p l g := by
  induction l generalizing g with
  | nil => simp [First]
  | cons a l ih =>
    rw [List.insertionSort_cons, find?_orderedInsert (List.pairwise_insertionSort r l)]
    have hsome : ∀ h ∈ l, p h = true → ∃ g', (l.insertionSort r).find? p = some g' := by
      intro h hh hp
      exact Option.isSome_iff_exists.mp
        (List.find?_isSome.mpr ⟨h, (List.mem_insertionSort r).mpr hh, hp⟩)
    constructor
    · intro hfind
      split at hfind
      · next hpa =>
        cases hrest : (l.insertionSort r).find? p with
        | none =>
          rw [hrest] at hfind
          obtain rfl : a = g := Option.some.inj hfind
          refine ⟨[], l, rfl, hpa, by simp, ?_⟩
          intro h hh hp
          obtain ⟨g', hg'⟩ := hsome h hh hp
          rw [hrest] at hg'
          exact absurd hg' (by simp)
        | some g' =>
          simp only [hrest] at hfind
          split at hfind
          · next hag =>
            obtain rfl : a = g := Option.some.inj hfind
            exact ⟨[], l, rfl, hpa, by simp,
              fun h hh hp => IsTrans.trans a g' h hag ((ih.mp hrest).le hh hp)⟩
          · next hag =>
            obtain rfl : g' = g := Option.some.inj hfind
            obtain ⟨pre, post, rfl, hpg, hpre, hpost⟩ := ih.mp hrest
            refine ⟨a :: pre, post, rfl, hpg, ?_, hpost⟩
            intro h hh hp
            rcases List.mem_cons.mp hh with rfl | hh
            · exact hag
            · exact hpre h hh hp
      · next hpa =>
        obtain ⟨pre, post, rfl, hpg, hpre, hpost⟩ := ih.mp hfind
        refine ⟨a :: pre, post, rfl, hpg, ?_, hpost⟩
        intro h hh hp
        rcases List.mem_cons.mp hh with rfl | hh
        · exact absurd hp hpa
        · exact hpre h hh hp
    · rintro ⟨pre, post, heq, hpg, hpre, hpost⟩
      cases pre with
      | nil =>
        obtain ⟨rfl, rfl⟩ := List.cons.inj heq
        rw [if_pos hpg]
        cases hrest : (l.insertionSort r).find? p with
        | none => rfl
        | some g' =>
          have hg' := (ih.mp hrest)
          obtain ⟨_, _, _, hpg', _⟩ := ih.mp hrest
          exact if_pos (hpost g' hg'.mem hpg')
      | cons b pre =>
        obtain ⟨rfl, rfl⟩ := List.cons.inj heq
        have hrest := ih.mpr ⟨pre, post, rfl, hpg,
          fun h hh => hpre h (List.mem_cons_of_mem _ hh), hpost⟩
        simp only [hrest]
        split
        · next hpa => exact if_neg (hpre a List.mem_cons_self hpa)
        · rfl

end Sorting

end Selection
