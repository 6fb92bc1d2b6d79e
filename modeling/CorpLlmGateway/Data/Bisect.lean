import Mathlib

/-!
# Bisection

The search of the `bisect` module: where in a sorted list the entries below (or not above)
a value end. Both functions are one loop over a test that holds on a front part of the list.

* `lt_bisect_iff` — an entry passes the test iff it stands in front of the result;
* `lt_bisectLeft_iff`, `lt_bisectRight_iff` — the two functions on sorted numbers.
-/

namespace Bisect

variable {α : Type*}

/-- The loop on the positions from `lo` up to `hi`: it goes on behind the middle if the entry
there passes the test. -/
def loop (p : α → Bool) (l : List α) : (fuel lo hi : ℕ) → ℕ
  | 0, lo, _ => lo
  | fuel + 1, lo, hi =>
      if lo < hi then
        if l[(lo + hi) / 2]?.any p then loop p l fuel ((lo + hi) / 2 + 1) hi
        else loop p l fuel lo ((lo + hi) / 2)
      else lo

def bisect (p : α → Bool) (l : List α) : ℕ := loop p l l.length 0 l.length

/-- `bisect_left(l, x)`. -/
def bisectLeft (l : List ℕ) (x : ℕ) : ℕ := bisect (fun a => decide (a < x)) l

/-- `bisect_right(l, x)`. -/
def bisectRight (l : List ℕ) (x : ℕ) : ℕ := bisect (fun a => !decide (x < a)) l

variable {p : α → Bool} {l : List α}

/-- The entries that pass the test stand in front of those that fail it. -/
def Split (p : α → Bool) (l : List α) : Prop := l.Pairwise fun a b => p b = true → p a = true

/-- In front of `lo` the test is passed, from `hi` on it fails. -/
def Bounds (p : α → Bool) (l : List α) (lo hi : ℕ) : Prop :=
  ∀ i a, l[i]? = some a → (i < lo → p a = true) ∧ (hi ≤ i → p a = false)

theorem Split.of_le (h : Split p l) {i j : ℕ} {a b : α} (hi : l[i]? = some a)
    (hj : l[j]? = some b) (hle : i ≤ j) (hb : p b = true) : p a = true := by
  obtain ⟨hilt, rfl⟩ := List.getElem?_eq_some_iff.mp hi
  obtain ⟨hjlt, rfl⟩ := List.getElem?_eq_some_iff.mp hj
  rcases Nat.lt_or_eq_of_le hle with hlt | rfl
  · exact List.pairwise_iff_getElem.mp h i j hilt hjlt hlt hb
  · exact hb

theorem loop_bounds (h : Split p l) {fuel lo hi : ℕ} (hfuel : hi - lo ≤ fuel) (hle : lo ≤ hi)
    (hlen : hi ≤ l.length) (hbounds : Bounds p l lo hi) :
    Bounds p l (loop p l fuel lo hi) (loop p l fuel lo hi) := by
  induction fuel generalizing lo hi with
  | zero =>
    obtain rfl : lo = hi := by omega
    exact hbounds
  | succ fuel ih =>
    rw [loop]
    by_cases hlt : lo < hi
    · have hmid : (lo + hi) / 2 < l.length := by omega
      have hentry : l[(lo + hi) / 2]? = some l[(lo + hi) / 2] := List.getElem?_eq_getElem hmid
      rw [if_pos hlt, hentry]
      simp only [Option.any_some]
      by_cases hp : p l[(lo + hi) / 2] = true
      · -- everything up to the middle passes
        rw [if_pos hp]
        apply ih (by omega) (by omega) hlen
        intro i a ha
        refine ⟨?_, (hbounds i a ha).2⟩
        intro hi'
        exact h.of_le ha hentry (by omega) hp
      · -- everything from the middle on fails
        rw [if_neg hp]
        apply ih (by omega) (by omega) (by omega)
        intro i a ha
        refine ⟨(hbounds i a ha).1, ?_⟩
        intro hi'
        by_contra hpass
        have hpa : p a = true := by simpa using hpass
        exact hp (h.of_le hentry ha hi' hpa)
    · rw [if_neg hlt]
      obtain rfl : lo = hi := by omega
      exact hbounds

theorem loop_le {fuel lo hi : ℕ} (hle : lo ≤ hi) : loop p l fuel lo hi ≤ hi := by
  induction fuel generalizing lo hi with
  | zero => exact hle
  | succ fuel ih =>
    rw [loop]
    split
    · split
      · exact ih (by omega)
      · exact (ih (by omega)).trans (by omega)
    · exact hle

theorem bisect_le (p : α → Bool) (l : List α) : bisect p l ≤ l.length := loop_le (Nat.zero_le _)

/-- The result of the search stands behind exactly the entries that pass. -/
theorem lt_bisect_iff (h : Split p l) {i : ℕ} {a : α} (hi : l[i]? = some a) :
    i < bisect p l ↔ p a = true := by
  have hbounds : Bounds p l (bisect p l) (bisect p l) := by
    apply loop_bounds h (Nat.sub_le _ _) (Nat.zero_le _) le_rfl
    intro j b hb
    obtain ⟨hj, -⟩ := List.getElem?_eq_some_iff.mp hb
    exact ⟨fun hlt => absurd hlt (Nat.not_lt_zero j), fun hle => absurd hj (Nat.not_lt.mpr hle)⟩
  constructor
  · exact (hbounds i a hi).1
  · intro hp
    by_contra hge
    rw [(hbounds i a hi).2 (Nat.not_lt.mp hge)] at hp
    cases hp

theorem lt_bisectLeft_iff {l : List ℕ} (h : l.Pairwise (· ≤ ·)) {i a x : ℕ}
    (hi : l[i]? = some a) : i < bisectLeft l x ↔ a < x := by
  have hsplit : Split (fun a => decide (a < x)) l := by
    apply h.imp
    intro a b hab hb
    have hbx : b < x := by simpa using hb
    simpa using lt_of_le_of_lt hab hbx
  rw [bisectLeft, lt_bisect_iff hsplit hi, decide_eq_true_iff]

theorem lt_bisectRight_iff {l : List ℕ} (h : l.Pairwise (· ≤ ·)) {i a x : ℕ}
    (hi : l[i]? = some a) : i < bisectRight l x ↔ a ≤ x := by
  have hsplit : Split (fun a => !decide (x < a)) l := by
    apply h.imp
    intro a b hab hb
    have hbx : b ≤ x := by simpa using hb
    simpa using le_trans hab hbx
  rw [bisectRight, lt_bisect_iff hsplit hi]
  simp

end Bisect
