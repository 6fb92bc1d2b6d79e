import Mathlib

/-!
# Intervals

Half-open intervals of natural numbers.

* `Within` — what a family of intervals covers;
* `Tiles` — parts that lead from one position to another without a gap.
-/

namespace Intervals

/-- An interval `[start, stop)`. -/
abbrev Interval := ℕ × ℕ

/-- A position lies in a member of the family. -/
def Within (W : Interval → Prop) (p : ℕ) : Prop := ∃ w, W w ∧ w.1 ≤ p ∧ p < w.2

/-! ## Tilings -/

/-- Non-empty parts that lead from `a` to `b` without a gap, each with a property. -/
def Tiles {α : Type} (range : α → Interval) (P : α → Prop) : ℕ → List α → ℕ → Prop
  | a, [], b => a = b
  | a, x :: xs, b => (range x).1 = a ∧ a < (range x).2 ∧ P x ∧ Tiles range P (range x).2 xs b

namespace Tiles

variable {α : Type} {range : α → Interval} {P : α → Prop} {a b c : ℕ} {xs ys : List α}

theorem append (hx : Tiles range P a xs b) (hy : Tiles range P b ys c) :
    Tiles range P a (xs ++ ys) c := by
  induction xs generalizing a with
  | nil =>
    cases hx
    exact hy
  | cons x xs ih => exact ⟨hx.1, hx.2.1, hx.2.2.1, ih hx.2.2.2⟩

theorem le (h : Tiles range P a xs b) : a ≤ b := by
  induction xs generalizing a with
  | nil => exact Nat.le_of_eq h
  | cons x xs ih => exact (Nat.le_of_lt h.2.1).trans (ih h.2.2.2)

/-- Every part lies inside the tiled range. -/
theorem mem (h : Tiles range P a xs b) :
    ∀ x ∈ xs, a ≤ (range x).1 ∧ (range x).1 < (range x).2 ∧ (range x).2 ≤ b ∧ P x := by
  induction xs generalizing a with
  | nil => simp
  | cons x xs ih =>
    rcases h with ⟨rfl, hlt, hx, hrest⟩
    intro y hy
    rcases List.mem_cons.mp hy with rfl | hy
    · exact ⟨le_rfl, hlt, hrest.le, hx⟩
    · rcases ih hrest y hy with ⟨h₁, h₂, h₃, h₄⟩
      exact ⟨by omega, h₂, h₃, h₄⟩

/-- A part ends before the next one starts. -/
theorem pairwise (h : Tiles range P a xs b) :
    xs.Pairwise fun x y => (range x).2 ≤ (range y).1 := by
  induction xs generalizing a with
  | nil => exact .nil
  | cons x xs ih =>
    rw [List.pairwise_cons]
    exact ⟨fun y hy => (h.2.2.2.mem y hy).1, ih h.2.2.2⟩

/-- Each part starts where the previous one ends. -/
theorem isChain (h : Tiles range P a xs b) :
    xs.IsChain fun x y => (range y).1 = (range x).2 := by
  induction xs generalizing a with
  | nil => exact .nil
  | cons x xs ih =>
    cases xs with
    | nil => exact .singleton x
    | cons y ys => exact .cons_cons h.2.2.2.1 (ih h.2.2.2)

theorem head?_start (h : Tiles range P a xs b) (hab : a < b) :
    xs.head?.map (fun x => (range x).1) = some a := by
  cases xs with
  | nil => exact absurd h (Nat.ne_of_lt hab)
  | cons x xs => exact congrArg some h.1

theorem getLast?_stop (h : Tiles range P a xs b) (hab : a < b) :
    xs.getLast?.map (fun x => (range x).2) = some b := by
  induction xs generalizing a with
  | nil => exact absurd h (Nat.ne_of_lt hab)
  | cons x xs ih =>
    cases xs with
    | nil => exact congrArg some h.2.2.2
    | cons y ys =>
      have hlt : (range x).2 < b := lt_of_lt_of_le h.2.2.2.2.1 h.2.2.2.2.2.2.le
      rw [List.getLast?_cons_cons]
      exact ih h.2.2.2 hlt

end Tiles

end Intervals
