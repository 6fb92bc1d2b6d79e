import Mathlib

/-!
# Results that may be errors

What the result of a computation in `Except` says about its steps.
-/

namespace Results

variable {ε δ α β : Type}

theorem bind_ne_error {x : Except ε α} {f : α → Except ε β} {e : ε}
    (hx : x ≠ .error e) (hf : ∀ a, f a ≠ .error e) : x >>= f ≠ .error e := by
  cases x with
  | error e' => exact fun heq => hx (congrArg Except.error (Except.error.inj heq))
  | ok a => exact hf a

theorem mapError_ne (x : Except ε α) {f : ε → δ} {e : δ} (h : ∀ d, f d ≠ e) :
    x.mapError f ≠ .error e := by
  cases x with
  | error d => exact fun heq => h d (Except.error.inj heq)
  | ok a => exact nofun

theorem mapError_eq_ok {x : Except ε α} {f : ε → δ} {a : α}
    (h : x.mapError f = .ok a) : x = .ok a := by
  cases x with
  | error d => exact absurd h nofun
  | ok b => exact congrArg Except.ok (Except.ok.inj h)

theorem bind_eq_ok {x : Except ε α} {f : α → Except ε β} {b : β}
    (h : x >>= f = .ok b) : ∃ a, x = .ok a ∧ f a = .ok b := by
  cases x with
  | error e => exact absurd h nofun
  | ok a => exact ⟨a, rfl, h⟩

theorem bind_congr_ok {x : Except ε α} {f g : α → Except ε β}
    (h : ∀ a, x = .ok a → f a = g a) : x >>= f = x >>= g := by
  cases x with
  | error e => rfl
  | ok a => exact h a rfl

end Results
