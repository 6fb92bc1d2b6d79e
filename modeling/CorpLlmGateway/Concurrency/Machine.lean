import Mathlib.Data.List.Basic

/-!
# Machines

A machine is a partial step function: an action that is not possible in a state has no
successor. A run is a list of actions, each possible where it is taken, so that the runs are
the interleavings.

* `run_invariant` — what every step preserves, every run preserves; the actions of the run may
  be restricted.
-/

namespace Machine

variable {σ α : Type*} (step : σ → α → Option σ)

/-- The state after some actions, if they are possible one after the other. -/
def run (s : σ) (actions : List α) : Option σ := actions.foldlM step s

variable {step}

@[simp] theorem run_nil (s : σ) : run step s [] = some s := rfl

theorem run_cons {s t : σ} {a : α} {actions : List α} :
    run step s (a :: actions) = some t ↔ ∃ s', step s a = some s' ∧ run step s' actions = some t := by
  rw [run, List.foldlM_cons]
  exact Option.bind_eq_some_iff

/-- The induction over a run. -/
theorem run_invariant {A : α → Prop} {P : σ → Prop}
    (hstep : ∀ {s t : σ} {a : α}, A a → P s → step s a = some t → P t) {s t : σ}
    {actions : List α} (hactions : ∀ a ∈ actions, A a) (hs : P s)
    (hrun : run step s actions = some t) : P t := by
  induction actions generalizing s with
  | nil =>
    cases hrun
    exact hs
  | cons a actions ih =>
    obtain ⟨ha, hactions⟩ := List.forall_mem_cons.mp hactions
    obtain ⟨s', hs', hrun⟩ := run_cons.mp hrun
    exact ih hactions (hstep ha hs hs') hrun

end Machine
