import CorpLlmGateway.Text.Regex

/-!
# Runs of letters with single separators between them

The matches of `d(?:s?d)*` for two disjoint classes of characters, letters and separators. A
run is a range of a text in which every position holds a letter, or a separator between two
letters of the range.

* `IsRun.union` — two runs that overlap are one run;
* `isRun_extent` — the longest run from a position is as long as the greedy match;
* `mem_finditer_iff` — a left-to-right pass finds the maximal runs and nothing else.
-/

namespace Runs

open TextScan Regex

variable {α : Type}

/-! ## Runs and patterns -/

def HoldsAt (p : α → Bool) (text : List α) (i : ℕ) : Prop := ∃ c, text[i]? = some c ∧ p c = true

/-- Letters of `[a, b)`, with single separators between them. -/
def IsRun (d s : α → Bool) (text : List α) (a b : ℕ) : Prop :=
  a < b ∧ ∀ i, a ≤ i → i < b → HoldsAt d text i ∨
    (HoldsAt s text i ∧ a < i ∧ i + 1 < b ∧ HoldsAt d text (i - 1) ∧ HoldsAt d text (i + 1))

/-- A run that no other one contains. -/
structure Maximal (d s : α → Bool) (text : List α) (a b : ℕ) : Prop where
  run : IsRun d s text a b
  only : ∀ {a' b'}, IsRun d s text a' b' → a' ≤ a → b ≤ b' → a' = a ∧ b' = b

/-- One more letter, with or without a separator before it. -/
def morePat (d s : α → Bool) : Pat α := .seq (.opt (.chr s)) (.chr d)

/-- `d(?:s?d)*`. -/
def runPat (d s : α → Bool) : Pat α := .seq (.chr d) (.star (morePat d s))

/-- How far a run goes on behind a letter. -/
def more (d s : α → Bool) : List α → ℕ
  | [] => 0
  | [c] => if d c then 1 else 0
  | c :: e :: cs =>
      if d c then 1 + more d s (e :: cs) else if s c && d e then 2 + more d s cs else 0

variable {d s : α → Bool}

/-! ## The greedy match -/

theorem run_opt_chr (st : St α) :
    run (.opt (.chr s)) st = run (.chr s) st ++ [st] := by
  cases hrest : st.rest with
  | nil => simp [Pat.opt, run, repLoop, hrest]
  | cons c cs =>
    by_cases hs : s c = true
    · simp [Pat.opt, run, repLoop, hrest, hs]
    · simp [Pat.opt, run, repLoop, hrest, hs]

theorem run_morePat (hds : ∀ c, d c = true → s c = false) (st : St α) :
    run (morePat d s) st =
      match st.rest with
      | [] => []
      | [c] => if d c then [st.advance [c] []] else []
      | c :: e :: cs =>
          if d c then [st.advance [c] (e :: cs)]
          else if s c && d e then [st.advance [c, e] cs] else [] := by
  rw [morePat, run, run_opt_chr, List.flatMap_append, List.flatMap_singleton]
  cases hrest : st.rest with
  | nil => simp [run, hrest]
  | cons c cs =>
    cases cs with
    | nil =>
      by_cases hs : s c = true
      · simp [run, hrest, hs, St.advance]
      · simp [run, hrest, hs]
    | cons e cs =>
      by_cases hd : d c = true
      · simp [run, hrest, hd, hds c hd]
      · by_cases hs : s c = true
        · by_cases he : d e = true
          · simp [run, hrest, hd, hs, he, St.advance]
          · simp [run, hrest, hd, hs, he, St.advance]
        · simp [run, hrest, hd, hs]

theorem advance_nil (st : St α) : st.advance [] st.rest = st := by
  simp [St.advance]

/-- A greedy repetition goes on where its body matches in one way. -/
theorem head_repLoop_succ {body : St α → List (St α)} {fuel : ℕ} {st next last : St α}
    (hbody : body st = [next]) (hnext : (repLoop body true fuel 0 none next).head? = some last) :
    (repLoop body true (fuel + 1) 0 none st).head? = some last := by
  simp [repLoop, hbody, hnext]

theorem head_repLoop_stop {body : St α → List (St α)} {fuel : ℕ} {st : St α}
    (hbody : body st = []) : (repLoop body true (fuel + 1) 0 none st).head? = some st := by
  simp [repLoop, hbody]

/-- The greedy repetition takes all it can. -/
theorem head_repLoop (hds : ∀ c, d c = true → s c = false) (fuel : ℕ) (st : St α)
    (hfuel : st.rest.length < fuel) :
    (repLoop (run (morePat d s)) true fuel 0 none st).head? =
      some (st.advance (st.rest.take (more d s st.rest)) (st.rest.drop (more d s st.rest))) := by
  induction fuel generalizing st with
  | zero => exact absurd hfuel (Nat.not_lt_zero _)
  | succ fuel ih =>
    have hrun := run_morePat hds st
    -- one iteration consumes `u`, the rest follows by induction
    have hgo : ∀ u rest, u ≠ [] → st.rest = u ++ rest →
        more d s st.rest = u.length + more d s rest → run (morePat d s) st = [st.advance u rest] →
        (repLoop (run (morePat d s)) true (fuel + 1) 0 none st).head? =
          some (st.advance (st.rest.take (more d s st.rest))
            (st.rest.drop (more d s st.rest))) := by
      intro u rest hu hrest hmore hbody
      have hlen : (st.advance u rest).rest.length < fuel := by
        have hpos := List.length_pos_iff.mpr hu
        rw [hrest, List.length_append] at hfuel
        simp only [St.advance]
        omega
      rw [head_repLoop_succ hbody (ih _ hlen), hmore, St.advance_advance, hrest,
        List.take_length_add_append, List.drop_length_add_append]
      rfl
    have hstop : more d s st.rest = 0 → run (morePat d s) st = [] →
        (repLoop (run (morePat d s)) true (fuel + 1) 0 none st).head? =
          some (st.advance (st.rest.take (more d s st.rest))
            (st.rest.drop (more d s st.rest))) := by
      intro hmore hbody
      rw [head_repLoop_stop hbody, hmore, List.take_zero, List.drop_zero, advance_nil]
    rcases hrest : st.rest with _ | ⟨c, _ | ⟨e, cs⟩⟩
    · rw [← hrest]
      exact hstop (by simp [hrest, more]) (by simpa [hrest] using hrun)
    · rw [← hrest]
      by_cases hd : d c = true
      · exact hgo [c] [] (by simp) hrest (by simp [hrest, more, hd]) (by simpa [hrest, hd] using hrun)
      · exact hstop (by simp [hrest, more, hd]) (by simpa [hrest, hd] using hrun)
    · rw [← hrest]
      by_cases hd : d c = true
      · exact hgo [c] (e :: cs) (by simp) hrest (by simp [hrest, more, hd])
          (by simpa [hrest, hd] using hrun)
      · by_cases hse : (s c && d e) = true
        · exact hgo [c, e] cs (by simp) hrest (by simp only [hrest, more, hd, hse]; rfl)
            (by simpa [hrest, hd, hse] using hrun)
        · exact hstop (by simp [hrest, more, hd, hse]) (by simpa [hrest, hd, hse] using hrun)

theorem more_le (text : List α) : more d s text ≤ text.length := by
  fun_induction more d s text with
  | case1 => simp
  | case2 c hd => simp
  | case3 c hd => simp
  | case4 c e cs hd ih =>
    simp only [List.length_cons] at ih ⊢
    omega
  | case5 c e cs hd hse ih =>
    simp only [List.length_cons]
    omega
  | case6 c e cs hd hse => simp

/-- A match is a letter and what follows it. -/
theorem matcher_runPat (hds : ∀ c, d c = true → s c = false) (prev : Option α) (text : List α) :
    matcher (runPat d s) prev text =
      match text with
      | [] => none
      | c :: cs => if d c then some (1 + more d s cs, []) else none := by
  cases text with
  | nil => rfl
  | cons c cs =>
    by_cases hd : d c = true
    · have hhead := head_repLoop hds (0 + cs.length + 1)
        ((start prev (c :: cs)).advance [c] cs) (by simp [St.advance])
      have hrun : run (runPat d s) (start prev (c :: cs)) =
          repLoop (run (morePat d s)) true (0 + cs.length + 1) 0 none
            ((start prev (c :: cs)).advance [c] cs) := by
        simp [runPat, run, start, Pat.star, hd, St.advance]
      rw [matcher, hrun, hhead]
      simp [start, St.advance, hd, List.length_take_of_le (more_le cs)]
    · simp [matcher, runPat, run, start, hd]

/-! ## The extent of a run -/

section Extent

variable {text : List α}

theorem not_holdsAt_both (hds : ∀ c, d c = true → s c = false) {i : ℕ} (hd : HoldsAt d text i) :
    ¬ HoldsAt s text i := by
  obtain ⟨c, hc, hd⟩ := hd
  rintro ⟨c', hc', hs⟩
  rw [hc] at hc'
  cases hc'
  rw [hds c hd] at hs
  cases hs

theorem more_drop_letter {p : ℕ} (h : HoldsAt d text p) :
    more d s (text.drop p) = 1 + more d s (text.drop (p + 1)) := by
  obtain ⟨c, hc, hd⟩ := h
  obtain ⟨hp, rfl⟩ := List.getElem?_eq_some_iff.mp hc
  rw [List.drop_eq_getElem_cons hp]
  cases text.drop (p + 1) with
  | nil => simp [more, hd]
  | cons e cs => simp [more, hd]

theorem more_drop_separator (hds : ∀ c, d c = true → s c = false) {p : ℕ} (h : HoldsAt s text p)
    (h' : HoldsAt d text (p + 1)) :
    more d s (text.drop p) = 2 + more d s (text.drop (p + 2)) := by
  have hnot : ¬ HoldsAt d text p := fun hd => not_holdsAt_both hds hd h
  obtain ⟨c, hc, hs⟩ := h
  obtain ⟨e, he, hd⟩ := h'
  obtain ⟨hp, rfl⟩ := List.getElem?_eq_some_iff.mp hc
  obtain ⟨hp', rfl⟩ := List.getElem?_eq_some_iff.mp he
  have hdc : d text[p] = false := by
    rw [Bool.eq_false_iff]
    exact fun hdc => hnot ⟨_, hc, hdc⟩
  rw [List.drop_eq_getElem_cons hp, List.drop_eq_getElem_cons hp']
  simp [more, hdc, hs, hd]

theorem more_drop_other {p : ℕ} (h : ¬ HoldsAt d text p)
    (h' : ¬ (HoldsAt s text p ∧ HoldsAt d text (p + 1))) : more d s (text.drop p) = 0 := by
  have hd : ∀ c, text[p]? = some c → d c = false := fun c hc =>
    Bool.eq_false_iff.mpr fun hd => h ⟨c, hc, hd⟩
  match hdrop : text.drop p with
  | [] => rfl
  | [c] =>
    have hc : text[p]? = some c := by rw [← List.head?_drop, hdrop]; rfl
    simp [more, hd c hc]
  | c :: e :: cs =>
    have hc : text[p]? = some c := by rw [← List.head?_drop, hdrop]; rfl
    have he : text[p + 1]? = some e := by
      rw [← List.head?_drop, ← List.drop_drop, hdrop]
      rfl
    have hse : (s c && d e) = false := by
      rw [Bool.eq_false_iff]
      intro hse
      obtain ⟨hs, hd⟩ := Bool.and_eq_true_iff.mp hse
      exact h' ⟨⟨c, hc, hs⟩, ⟨e, he, hd⟩⟩
    simp [more, hd c hc, hse]

theorem isRun_singleton {a : ℕ} (h : HoldsAt d text a) : IsRun d s text a (a + 1) := by
  refine ⟨Nat.lt_succ_self a, fun i hi hi' => .inl ?_⟩
  rwa [show i = a by omega]

/-- A run goes on from one of its letters. -/
theorem IsRun.tail {a b c : ℕ} (h : IsRun d s text a b) (hac : a ≤ c) (hcb : c < b)
    (hc : HoldsAt d text c) (hds : ∀ c, d c = true → s c = false) : IsRun d s text c b := by
  refine ⟨hcb, fun i hi hi' => ?_⟩
  rcases h.2 i (hac.trans hi) hi' with hd | ⟨hs, _, hnext, hbefore, hafter⟩
  · exact .inl hd
  · have hne : i ≠ c := by
      rintro rfl
      exact not_holdsAt_both hds hc hs
    exact .inr ⟨hs, by omega, hnext, hbefore, hafter⟩

/-- Two runs that overlap are one run. -/
theorem IsRun.union {a b a' b' : ℕ} (h : IsRun d s text a b) (h' : IsRun d s text a' b')
    (haa : a ≤ a') (hab : a' < b) (hbb : b ≤ b') : IsRun d s text a b' := by
  refine ⟨h.1.trans_le hbb, fun i hi hi' => ?_⟩
  by_cases hib : i < b
  · rcases h.2 i hi hib with hd | ⟨hs, hlt, hnext, hbefore, hafter⟩
    · exact .inl hd
    · exact .inr ⟨hs, hlt, by omega, hbefore, hafter⟩
  · rcases h'.2 i (by omega) hi' with hd | ⟨hs, hlt, hnext, hbefore, hafter⟩
    · exact .inl hd
    · exact .inr ⟨hs, by omega, hnext, hbefore, hafter⟩

/-- A run with one letter, or a separator and a letter, in front of it. -/
theorem IsRun.cons {a k b : ℕ} (h : IsRun d s text (a + k) b) (ha : HoldsAt d text a)
    (hk : k = 1 ∨ (k = 2 ∧ HoldsAt s text (a + 1))) (hnext : HoldsAt d text (a + k)) :
    IsRun d s text a b := by
  have hlt := h.1
  refine ⟨by omega, fun i hi hi' => ?_⟩
  by_cases hik : a + k ≤ i
  · rcases h.2 i hik hi' with hd | ⟨hs, hlt, hnext, hbefore, hafter⟩
    · exact .inl hd
    · exact .inr ⟨hs, by omega, hnext, hbefore, hafter⟩
  · rcases hk with rfl | ⟨rfl, hs⟩
    · rw [show i = a by omega]
      exact .inl ha
    · by_cases hia : i = a
      · exact .inl (hia ▸ ha)
      · obtain rfl : i = a + 1 := by omega
        exact .inr ⟨hs, by omega, by omega, ha, hnext⟩

/-- The longest run from a letter is what the greedy match takes. -/
theorem isRun_extent (hds : ∀ c, d c = true → s c = false) {a : ℕ} (ha : HoldsAt d text a) :
    IsRun d s text a (a + 1 + more d s (text.drop (a + 1))) ∧
      ∀ b, IsRun d s text a b → b ≤ a + 1 + more d s (text.drop (a + 1)) := by
  -- induction on what is left of the text behind the letter
  induction hlen : text.length - a using Nat.strong_induction_on generalizing a with
  | _ len ih =>
    have hlt : a < text.length := by
      obtain ⟨c, hc, -⟩ := ha
      exact (List.getElem?_eq_some_iff.mp hc).1
    by_cases hletter : HoldsAt d text (a + 1)
    · obtain ⟨hrun, hmax⟩ := ih _ (by omega) hletter rfl
      rw [more_drop_letter hletter, show a + 1 + (1 + more d s (text.drop (a + 1 + 1))) =
        a + 1 + 1 + more d s (text.drop (a + 1 + 1)) by omega]
      refine ⟨hrun.cons (k := 1) ha (.inl rfl) hletter, fun b hb => ?_⟩
      by_cases hab : a + 1 < b
      · exact hmax b (hb.tail (by omega) hab hletter hds)
      · omega
    · by_cases hsep : HoldsAt s text (a + 1) ∧ HoldsAt d text (a + 1 + 1)
      · obtain ⟨hs, hnext⟩ := hsep
        obtain ⟨hrun, hmax⟩ := ih _ (by omega) hnext rfl
        have hend : a + 1 + more d s (text.drop (a + 1)) =
            a + 1 + 1 + 1 + more d s (text.drop (a + 1 + 1 + 1)) := by
          rw [more_drop_separator hds hs hnext]
          exact (Nat.add_assoc (a + 1) 2 _).symm
        rw [hend]
        refine ⟨hrun.cons (k := 2) ha (.inr ⟨rfl, hs⟩) hnext, fun b hb => ?_⟩
        by_cases hab : a + 1 + 1 < b
        · exact hmax b (hb.tail (by omega) hab hnext hds)
        · omega
      · rw [more_drop_other hletter hsep]
        refine ⟨isRun_singleton ha, fun b hb => ?_⟩
        by_contra hlong
        rcases hb.2 (a + 1) (by omega) (by omega) with hd | ⟨hs, -, -, -, hafter⟩
        · exact hletter hd
        · exact hsep ⟨hs, hafter⟩

/-! ## A pass finds the maximal runs -/

theorem matcher_at_iff (hds : ∀ c, d c = true → s c = false) {a n : ℕ}
    {v : List (ℕ × ℕ × ℕ)} :
    (matcher (runPat d s)).at text a = some (n, v) ↔
      HoldsAt d text a ∧ n = 1 + more d s (text.drop (a + 1)) ∧ v = [] := by
  rw [Matcher.at, matcher_runPat hds]
  by_cases ha : a < text.length
  · rw [List.drop_eq_getElem_cons ha]
    by_cases hd : d text[a] = true
    · have hholds : HoldsAt d text a := ⟨_, List.getElem?_eq_getElem ha, hd⟩
      simp [hd, hholds, eq_comm]
    · have hnot : ¬ HoldsAt d text a := by
        rintro ⟨c, hc, hdc⟩
        rw [List.getElem?_eq_getElem ha] at hc
        cases hc
        exact hd hdc
      simp [hd, hnot]
  · have hnot : ¬ HoldsAt d text a := by
      rintro ⟨c, hc, -⟩
      exact ha (List.getElem?_eq_some_iff.mp hc).1
    simp [List.drop_eq_nil_of_le (Nat.le_of_not_lt ha), hnot]

/-- A hit is the longest run from its start. -/
theorem isRun_of_hit (hds : ∀ c, d c = true → s c = false) {h : Hit (List (ℕ × ℕ × ℕ))}
    (hh : h ∈ finditer (matcher (runPat d s)) text) :
    IsRun d s text h.start h.stop ∧ ∀ b, IsRun d s text h.start b → b ≤ h.stop := by
  obtain ⟨-, hle, hat⟩ := mem_finditer hh
  obtain ⟨hstart, hlen, -⟩ := (matcher_at_iff hds).mp hat
  rw [show h.stop = h.start + 1 + more d s (text.drop (h.start + 1)) by omega]
  exact isRun_extent hds hstart

/-- The first position of a run holds a letter. -/
theorem IsRun.first {a b : ℕ} (h : IsRun d s text a b) : HoldsAt d text a := by
  rcases h.2 a le_rfl h.1 with hd | ⟨-, hlt, -⟩
  · exact hd
  · exact absurd hlt (Nat.lt_irrefl a)

/-- The last position of a run holds a letter. -/
theorem IsRun.last {a b : ℕ} (h : IsRun d s text a b) : HoldsAt d text (b - 1) := by
  have hlt := h.1
  rcases h.2 (b - 1) (by omega) (by omega) with hd | ⟨-, -, hlt, -⟩
  · exact hd
  · omega

theorem IsRun.le_length {a b : ℕ} (h : IsRun d s text a b) : b ≤ text.length := by
  obtain ⟨c, hc, -⟩ := h.last
  have hlt := (List.getElem?_eq_some_iff.mp hc).1
  omega

/-- Every run lies in a hit. -/
theorem exists_hit_of_isRun (hds : ∀ c, d c = true → s c = false) {a b : ℕ}
    (h : IsRun d s text a b) :
    ∃ hit ∈ finditer (matcher (runPat d s)) text, hit.start ≤ a ∧ b ≤ hit.stop := by
  have hle : a ≤ text.length := h.1.le.trans h.le_length
  obtain ⟨hit, hmem, hpos⟩ := finditer_complete hle ((matcher_at_iff hds).mpr ⟨h.first, rfl, rfl⟩)
  obtain ⟨hrun, hmax⟩ := isRun_of_hit hds hmem
  refine ⟨hit, hmem, by omega, ?_⟩
  by_contra hlong
  -- the two runs together would be longer than the hit
  have hunion : IsRun d s text hit.start b := by
    rcases hpos with heq | ⟨hlt, hlt'⟩
    · exact heq ▸ h
    · exact hrun.union h hlt.le hlt' (by omega)
  exact hlong (hmax b hunion)

/-- **A pass finds the maximal runs.** -/
theorem mem_finditer_iff (hds : ∀ c, d c = true → s c = false) {hit : Hit (List (ℕ × ℕ × ℕ))} :
    hit ∈ finditer (matcher (runPat d s)) text ↔
      Maximal d s text hit.start hit.stop ∧ hit.val = [] := by
  constructor
  · intro hmem
    obtain ⟨hrun, hmax⟩ := isRun_of_hit hds hmem
    obtain ⟨-, hle, hat⟩ := mem_finditer hmem
    refine ⟨⟨hrun, fun {a' b'} hrun' haa hbb => ?_⟩, ((matcher_at_iff hds).mp hat).2.2⟩
    obtain ⟨hit', hmem', hstart, hstop⟩ := exists_hit_of_isRun hds hrun'
    -- two hits that overlap are the same
    have hsame : hit' = hit := by
      by_contra hne
      have hapart : (finditer (matcher (runPat d s)) text).Pairwise fun x y =>
          x.stop ≤ y.start ∨ y.stop ≤ x.start :=
        (finditer_pairwise _ text).imp fun h => .inl h.2
      have hsymm : Std.Symm fun x y : Hit (List (ℕ × ℕ × ℕ)) =>
          x.stop ≤ y.start ∨ y.stop ≤ x.start := ⟨fun x y h => h.symm⟩
      have hlt := hrun.1
      rcases hapart.forall hmem' hmem hne with h | h <;> omega
    subst hsame
    omega
  · rintro ⟨hmaximal, hval⟩
    obtain ⟨hit', hmem, hstart, hstop⟩ := exists_hit_of_isRun hds hmaximal.run
    obtain ⟨hrun, -⟩ := isRun_of_hit hds hmem
    obtain ⟨hs, he⟩ := hmaximal.only hrun hstart hstop
    have hval' : hit'.val = [] := by
      obtain ⟨-, -, hat⟩ := mem_finditer hmem
      exact ((matcher_at_iff hds).mp hat).2.2
    have hsame : hit' = hit := by
      cases hit'
      cases hit
      simp_all
    exact hsame ▸ hmem

end Extent

/-! ## Counting letters -/

section Counting

variable {p : α → Bool} {text : List α}

theorem countP_take_le (p : α → Bool) (text : List α) {a b : ℕ} (h : a ≤ b) :
    (text.take a).countP p ≤ (text.take b).countP p :=
  (List.take_sublist_take_left h).countP_le

theorem countP_take_succ {a : ℕ} (h : HoldsAt p text a) :
    (text.take (a + 1)).countP p = (text.take a).countP p + 1 := by
  obtain ⟨c, hc, hp⟩ := h
  rw [List.take_add_one, hc]
  simp [List.countP_append, hp]

/-- The letters of a range are a range of the letters. -/
theorem filter_slice {a b : ℕ} (h : a ≤ b) :
    (slice text a b).filter p =
      slice (text.filter p) ((text.take a).countP p) ((text.take b).countP p) := by
  have hcount : ∀ l : List α, l.countP p = (l.filter p).length := fun l => List.countP_eq_length_filter
  have hsplit : text.take b = text.take a ++ slice text a b := by
    rw [← slice_zero, ← slice_zero, slice_append_slice (Nat.zero_le a) h]
  have hwhole : text.filter p =
      (text.take a).filter p ++ ((slice text a b).filter p ++ (text.drop b).filter p) := by
    rw [← List.filter_append, ← List.filter_append, slice_append_drop text h,
      List.take_append_drop]
  rw [hsplit, List.countP_append, hcount, hcount, hwhole]
  generalize (slice text a b).filter p = middle
  rw [slice, List.drop_left, Nat.add_sub_cancel_left, List.take_left]

end Counting

end Runs
