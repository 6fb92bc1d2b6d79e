import Mathlib

/-!
# Searching for a free index

The loop `while taken(i): i += 1` with a bound on its steps. The bound is never
felt when only finitely many labels are taken and distinct indices have distinct
labels:

* `firstFree_free` — the index found is free;
* `taken_of_lt_firstFree` — every index skipped on the way is taken.
-/

namespace Search

variable {α : Type}

/-- The first free index from `i` on, among the next `fuel` ones. -/
def firstFree (taken : ℕ → Bool) : ℕ → ℕ → ℕ
  | 0, i => i
  | fuel + 1, i => if taken i then firstFree taken fuel (i + 1) else i

theorem le_firstFree (taken : ℕ → Bool) (fuel i : ℕ) : i ≤ firstFree taken fuel i := by
  induction fuel generalizing i with
  | zero => exact le_rfl
  | succ fuel ih =>
    unfold firstFree
    split
    · exact (Nat.le_succ i).trans (ih (i + 1))
    · exact le_rfl

theorem taken_of_lt_firstFree {taken : ℕ → Bool} {fuel i j : ℕ} (hij : i ≤ j)
    (hj : j < firstFree taken fuel i) : taken j = true := by
  induction fuel generalizing i with
  | zero =>
    simp only [firstFree] at hj
    omega
  | succ fuel ih =>
    unfold firstFree at hj
    split at hj
    · next hi =>
      rcases Nat.eq_or_lt_of_le hij with rfl | hlt
      · exact hi
      · exact ih hlt hj
    · omega

/-- The search gives up on a taken index only when its bound is used up. -/
theorem firstFree_eq_of_taken {taken : ℕ → Bool} {fuel i : ℕ}
    (h : taken (firstFree taken fuel i) = true) : firstFree taken fuel i = i + fuel := by
  induction fuel generalizing i with
  | zero => rfl
  | succ fuel ih =>
    unfold firstFree at h ⊢
    split at h
    · next hi =>
      rw [if_pos hi, ih h]
      omega
    · next hi => exact absurd h hi

/-- With distinct labels and fewer taken labels than steps, the search ends on a
free label. -/
theorem firstFree_free {f : ℕ → α} (hf : Function.Injective f) (taken : α → Bool) (used : List α)
    (hused : ∀ x, taken x = true → x ∈ used) {fuel : ℕ} (hfuel : used.length < fuel) (i : ℕ) :
    taken (f (firstFree (fun j => taken (f j)) fuel i)) = false := by
  by_contra hne
  have hend : firstFree (fun j => taken (f j)) fuel i = i + fuel :=
    firstFree_eq_of_taken (by simpa using hne)
  -- `fuel` distinct labels would all be among the used ones
  have hsub : (List.range' i fuel).map f ⊆ used := by
    intro x hx
    rcases List.mem_map.mp hx with ⟨j, hj, rfl⟩
    rw [List.mem_range'_1] at hj
    exact hused _ (taken_of_lt_firstFree hj.1 (hend ▸ hj.2))
  have hnodup : ((List.range' i fuel).map f).Nodup := (List.nodup_range' 1).map hf
  have hlen := (hnodup.subperm hsub).length_le
  rw [List.length_map, List.length_range'] at hlen
  omega

end Search
