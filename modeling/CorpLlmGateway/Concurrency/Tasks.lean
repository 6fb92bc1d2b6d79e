import Mathlib.Algebra.BigOperators.Group.List.Basic
import Mathlib.Data.List.Induction

/-!
# Tasks over a shared state

One thread, a shared state and any number of tasks. A task runs from one suspension to
the next without being interrupted, may start other tasks on the way, and is then
resumed by whatever it waits for. A run is a list of events: a call from outside, or
the resumption of a task; every order of them is a run.

* `run_total` — the induction for what the shared state says about the tasks as a
  whole: a relation between the shared state and a sum over the tasks;
* `run_stable` — what no step undoes.
-/

namespace Tasks

/-- A program: what a call does before it first suspends, and what a task does when it
is resumed. Both return the tasks that they start. -/
structure Program (σ τ α ι : Type) where
  init : σ
  call : σ → α → σ × List τ
  resume : σ → τ → ι → σ × τ × List τ

inductive Event (α ι : Type) where
  | call (a : α)
  | resume (i : ℕ) (x : ι)

/-- The shared state and the tasks, in the order in which they were started. -/
structure State (σ τ : Type) where
  shared : σ
  tasks : List τ

variable {σ τ α ι : Type}

namespace Program

variable (m : Program σ τ α ι)

/-- One event; resuming a task that does not exist does nothing. -/
def step (s : State σ τ) : Event α ι → State σ τ
  | .call a => ⟨(m.call s.shared a).1, s.tasks ++ (m.call s.shared a).2⟩
  | .resume i x =>
      match s.tasks[i]? with
      | none => s
      | some t =>
          let r := m.resume s.shared t x
          ⟨r.1, s.tasks.set i r.2.1 ++ r.2.2⟩

/-- The state after some events, from a given one. -/
def runFrom (s : State σ τ) (events : List (Event α ι)) : State σ τ := events.foldl m.step s

/-- The state after some events. -/
def run (events : List (Event α ι)) : State σ τ := m.runFrom ⟨m.init, []⟩ events

theorem run_append (events later : List (Event α ι)) :
    m.run (events ++ later) = m.runFrom (m.run events) later := by
  simp only [run, runFrom, List.foldl_append]

theorem run_snoc (events : List (Event α ι)) (e : Event α ι) :
    m.run (events ++ [e]) = m.step (m.run events) e := by
  rw [run_append]
  rfl

/-- The two ways in which a step changes anything. -/
theorem step_cases (s : State σ τ) (e : Event α ι) :
    (∃ a, e = .call a ∧ m.step s e = ⟨(m.call s.shared a).1, s.tasks ++ (m.call s.shared a).2⟩) ∨
      (∃ i x t, e = .resume i x ∧ s.tasks[i]? = some t ∧
        m.step s e = ⟨(m.resume s.shared t x).1,
          s.tasks.set i (m.resume s.shared t x).2.1 ++ (m.resume s.shared t x).2.2⟩) ∨
      m.step s e = s := by
  cases e with
  | call a => exact .inl ⟨a, rfl, rfl⟩
  | resume i x =>
    cases ht : s.tasks[i]? with
    | none => exact .inr (.inr (by simp only [step, ht]))
    | some t => exact .inr (.inl ⟨i, x, t, rfl, ht, by simp only [step, ht]⟩)

/-! ## Invariants -/

/-- What no step undoes still holds later. -/
theorem run_stable {Q : σ → Prop} (hcall : ∀ s a, Q s → Q (m.call s a).1)
    (hresume : ∀ s t x, Q s → Q (m.resume s t x).1) (s : State σ τ)
    (events : List (Event α ι)) (h : Q s.shared) : Q (m.runFrom s events).shared := by
  induction events generalizing s with
  | nil => exact h
  | cons e events ih =>
    refine ih (m.step s e) ?_
    obtain ⟨a, -, heq⟩ | ⟨i, x, t, -, -, heq⟩ | heq := m.step_cases s e
    · rw [heq]
      exact hcall _ _ h
    · rw [heq]
      exact hresume _ _ _ h
    · rw [heq]
      exact h

section Total

variable {M : Type} [AddCommMonoid M] (f : τ → M)

/-- The sum of a quantity over the tasks. -/
def total (tasks : List τ) : M := (tasks.map f).sum

@[simp] theorem total_nil : total f [] = 0 := rfl

@[simp] theorem total_cons (t : τ) (tasks : List τ) :
    total f (t :: tasks) = f t + total f tasks := by
  simp [total]

@[simp] theorem total_append (tasks new : List τ) :
    total f (tasks ++ new) = total f tasks + total f new := by
  simp [total]

/-- Replacing one task: the others add up to the same rest. -/
theorem exists_rest {tasks : List τ} {i : ℕ} {t : τ} (h : tasks[i]? = some t) :
    ∃ rest, total f tasks = f t + rest ∧ ∀ t', total f (tasks.set i t') = f t' + rest := by
  induction tasks generalizing i with
  | nil => simp at h
  | cons a tasks ih =>
    cases i with
    | zero =>
      obtain rfl : a = t := by simpa using h
      exact ⟨total f tasks, by simp, fun t' => by simp⟩
    | succ i =>
      obtain ⟨rest, heq, hset⟩ := ih (by simpa using h)
      refine ⟨f a + rest, ?_, fun t' => ?_⟩
      · rw [total_cons, heq, add_left_comm]
      · rw [List.set_cons_succ, total_cons, hset, add_left_comm]

/-- The induction rule. `P` is what holds of a task by itself, `R` relates the shared
state to the sum over all tasks. A resumed task is taken out of the sum, which leaves
an arbitrary rest, and put back as what it has become. -/
theorem run_total {P : τ → Prop} {R : σ → M → Prop} (hinit : R m.init 0)
    (hcall : ∀ s a n, R s n → (∀ t ∈ (m.call s a).2, P t) ∧
      R (m.call s a).1 (n + total f (m.call s a).2))
    (hresume : ∀ s t x n, P t → R s (f t + n) →
      (∀ t' ∈ (m.resume s t x).2.1 :: (m.resume s t x).2.2, P t') ∧
        R (m.resume s t x).1 (f (m.resume s t x).2.1 + n + total f (m.resume s t x).2.2))
    (events : List (Event α ι)) :
    (∀ t ∈ (m.run events).tasks, P t) ∧ R (m.run events).shared (total f (m.run events).tasks) := by
  induction events using List.reverseRecOn with
  | nil => exact ⟨by simp [run, runFrom], hinit⟩
  | append_singleton events e ih =>
    rw [run_snoc]
    obtain ⟨hok, hR⟩ := ih
    obtain ⟨a, -, heq⟩ | ⟨i, x, t, -, ht, heq⟩ | heq := m.step_cases (m.run events) e
    · rw [heq]
      obtain ⟨hnew, hR'⟩ := hcall _ a _ hR
      refine ⟨?_, by simpa using hR'⟩
      intro t ht
      rcases List.mem_append.mp ht with ht | ht
      · exact hok t ht
      · exact hnew t ht
    · rw [heq]
      obtain ⟨rest, hsum, hset⟩ := exists_rest f ht
      rw [hsum] at hR
      obtain ⟨hnew, hR'⟩ := hresume _ t x rest (hok t (List.mem_of_getElem? ht)) hR
      refine ⟨?_, by simpa only [total_append, hset] using hR'⟩
      intro t' ht'
      rcases List.mem_append.mp ht' with ht' | ht'
      · rcases List.mem_or_eq_of_mem_set ht' with ht' | rfl
        · exact hok t' ht'
        · exact hnew _ List.mem_cons_self
      · exact hnew t' (List.mem_cons_of_mem _ ht')
    · rw [heq]
      exact ⟨hok, hR⟩

end Total

end Program

end Tasks
