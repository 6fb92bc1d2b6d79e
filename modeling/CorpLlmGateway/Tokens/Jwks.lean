import CorpLlmGateway.Concurrency.Machine
import CorpLlmGateway.Data.Dict

/-!
# The JWKS client

The model of `JwksClient` (`tokens/oidc_verifier.py`): a cache of signing keys that is
refreshed by at most one fetch at a time. A call of `key_for` runs up to its first suspension
in one go; the task of a fetch is created there, starts later, ends later still, and is taken
off the slot by a callback that runs after its end. Callers wait for the task and may be
cancelled; the task is not.

The clock is read where the source reads it, and each reading is no smaller than the one
before. What is logged is read by nothing.

* `State.Inv` — the slot, the times and the keys against the log;
* `jwks_throttled` — how often keys are fetched, in every interleaving.
-/

namespace CorpLlmGateway.Tokens

open Machine

/-! ## The model -/

/-- The parameters of a client. Readings of the clock are subtracted: the difference of floats
is rounded, which keeps order and is all that is known of it. -/
structure JwksClient (τ δ : Type) [LinearOrder τ] [LinearOrder δ] where
  cooldown : δ
  failureBackoff : δ
  elapsed : τ → τ → δ
  elapsed_mono : ∀ {now now' at₀ : τ}, now ≤ now' → elapsed now at₀ ≤ elapsed now' at₀
  elapsed_anti : ∀ {now at₀ at₁ : τ}, at₀ ≤ at₁ → elapsed now at₁ ≤ elapsed now at₀

namespace Jwks

/-- What `key_for` raises: `E_JWKS_UNAVAILABLE` or `E_OIDC_UNKNOWN_KID`. -/
inductive Error where
  | jwksUnavailable
  | unknownKid
deriving DecidableEq, Repr

/-- The task of a fetch. -/
inductive Fetch where
  | created
  | running
  | succeeded
  | failed
deriving DecidableEq, Repr

def Fetch.done : Fetch → Bool
  | .created | .running => false
  | .succeeded | .failed => true

/-- A call of `key_for`. -/
inductive Caller (K V : Type) where
  | waiting (kid : K) (task : ℕ)
  | returned (key : V)
  | raised (e : Error)
  | cancelled

/-- What is logged: a task was created, it started, it ended. -/
inductive Event (K V τ : Type) where
  | created (now : τ)
  | started (now : τ)
  | succeeded (now : τ) (keys : Dict K V)
  | failed (now : τ)

structure State (K V τ : Type) where
  keys : Dict K V
  refreshedAt : Option τ
  failedAt : Option τ
  inflight : Option ℕ
  fetches : List Fetch
  callers : List (Caller K V)
  clock : τ
  log : List (Event K V τ)

/-- How the download ended: what `_parse_jwks` found in the body, or an exception. -/
inductive Outcome (K V : Type) where
  | parsed (keys : Dict K V)
  | raised

/-- What can happen next; `call` has the readings of the two tests. -/
inductive Act (K V τ : Type) where
  | call (kid : K) (now now' : τ)
  | start (task : ℕ) (now : τ)
  | finish (task : ℕ) (outcome : Outcome K V) (now : τ)
  | clear (task : ℕ)
  | resume (caller : ℕ)
  | cancel (caller : ℕ)

def State.new {K V τ : Type} (clock : τ) : State K V τ :=
  ⟨.empty, none, none, none, [], [], clock, []⟩

variable {K V τ δ : Type} [DecidableEq K] [LinearOrder τ] [LinearOrder δ] (c : JwksClient τ δ)

/-- `_in_cooldown()`. -/
def inCooldown (s : State K V τ) (now : τ) : Bool :=
  s.refreshedAt.any fun at₀ => decide (c.elapsed now at₀ < c.cooldown)

/-- `_in_failure_backoff()`. -/
def inFailureBackoff (s : State K V τ) (now : τ) : Bool :=
  s.failedAt.any fun at₀ => decide (c.elapsed now at₀ < c.failureBackoff)

/-- `key_for(kid)` up to its first suspension. -/
def keyFor (s : State K V τ) (kid : K) (now now' : τ) : State K V τ :=
  match s.keys.get? kid with
  | some key => { s with callers := s.callers ++ [.returned key] }
  | none =>
      match s.inflight with
      | some task => { s with callers := s.callers ++ [.waiting kid task] }
      | none =>
          if inFailureBackoff c s now then
            { s with callers := s.callers ++ [.raised .jwksUnavailable] }
          else if inCooldown c s now' then
            { s with callers := s.callers ++ [.raised .unknownKid] }
          else
            -- `_refresh` creates the task and puts it into the slot
            { s with
              fetches := s.fetches ++ [.created]
              inflight := some s.fetches.length
              callers := s.callers ++ [.waiting kid s.fetches.length]
              log := s.log ++ [.created now'] }

/-- The `except` of `_fetch`. -/
def fail (s : State K V τ) (task : ℕ) (now : τ) : State K V τ :=
  { s with
    failedAt := some now
    fetches := s.fetches.set task .failed
    log := s.log ++ [.failed now] }

/-- The end of `_fetch`. -/
def finishFetch (s : State K V τ) (task : ℕ) (now : τ) : Outcome K V → State K V τ
  | .raised => fail s task now
  | .parsed keys =>
      -- no usable key is a failure
      if keys.entries = [] then fail s task now
      else
        { s with
          keys := keys
          refreshedAt := some now
          failedAt := none
          fetches := s.fetches.set task .succeeded
          log := s.log ++ [.succeeded now keys] }

/-- `key_for(kid)` when the task it waited for has ended. -/
def afterWait (s : State K V τ) (kid : K) : Fetch → Option (Caller K V)
  | .created | .running => none
  | .failed => some (.raised .jwksUnavailable)
  | .succeeded =>
      match s.keys.get? kid with
      | some key => some (.returned key)
      | none => some (.raised .unknownKid)

/-- One step. The clock does not go back, and a task that has ended does not start or end
again. -/
def step (s : State K V τ) : Act K V τ → Option (State K V τ)
  | .call kid now now' =>
      if s.clock ≤ now ∧ now ≤ now' then some (keyFor c { s with clock := now' } kid now now') else none
  | .start task now =>
      if s.clock ≤ now ∧ s.fetches[task]? = some .created then
        some { s with
          clock := now
          fetches := s.fetches.set task .running
          log := s.log ++ [.started now] }
      else none
  | .finish task outcome now =>
      if s.clock ≤ now ∧ s.fetches[task]? = some .running then
        some (finishFetch { s with clock := now } task now outcome)
      else none
  | .clear task =>
      -- `_clear_inflight`
      if s.fetches[task]?.any Fetch.done then
        some { s with inflight := if s.inflight = some task then none else s.inflight }
      else none
  | .resume caller =>
      match s.callers[caller]? with
      | some (.waiting kid task) =>
          (s.fetches[task]?.bind (afterWait s kid)).map fun r =>
            { s with callers := s.callers.set caller r }
      | _ => none
  | .cancel caller =>
      match s.callers[caller]? with
      | some (.waiting _ _) => some { s with callers := s.callers.set caller .cancelled }
      | _ => none

/-! ## What the log says -/

section Log

variable {K V τ : Type}

/-- The completion of the last successful fetch, and the keys it brought. -/
def lastSuccess (log : List (Event K V τ)) : Option (τ × Dict K V) :=
  log.foldl (fun last e =>
    match e with
    | .succeeded now keys => some (now, keys)
    | _ => last) none

/-- The completions of the failed fetches with no success since. -/
def failedSince (log : List (Event K V τ)) : List τ :=
  log.foldl (fun times e =>
    match e with
    | .succeeded _ _ => []
    | .failed now => times ++ [now]
    | _ => times) []

variable (log : List (Event K V τ)) (now : τ) (keys : Dict K V)

@[simp] theorem lastSuccess_created : lastSuccess (log ++ [.created now]) = lastSuccess log := by
  simp [lastSuccess]

@[simp] theorem lastSuccess_started : lastSuccess (log ++ [.started now]) = lastSuccess log := by
  simp [lastSuccess]

@[simp] theorem lastSuccess_failed : lastSuccess (log ++ [.failed now]) = lastSuccess log := by
  simp [lastSuccess]

@[simp] theorem lastSuccess_succeeded :
    lastSuccess (log ++ [.succeeded now keys]) = some (now, keys) := by
  simp [lastSuccess]

@[simp] theorem failedSince_created : failedSince (log ++ [.created now]) = failedSince log := by
  simp [failedSince]

@[simp] theorem failedSince_started : failedSince (log ++ [.started now]) = failedSince log := by
  simp [failedSince]

@[simp] theorem failedSince_failed :
    failedSince (log ++ [.failed now]) = failedSince log ++ [now] := by
  simp [failedSince]

@[simp] theorem failedSince_succeeded : failedSince (log ++ [.succeeded now keys]) = [] := by
  simp [failedSince]

end Log

/-- A fetch may start: neither throttle holds. -/
def Allowed (log : List (Event K V τ)) (now : τ) : Prop :=
  (∀ at₀ keys, lastSuccess log = some (at₀, keys) → ¬c.elapsed now at₀ < c.cooldown) ∧
    ∀ at₀ ∈ failedSince log, ¬c.elapsed now at₀ < c.failureBackoff

omit [DecidableEq K] in
variable {c} in
theorem Allowed.mono {log : List (Event K V τ)} {now now' : τ} (h : Allowed c log now)
    (hle : now ≤ now') : Allowed c log now' := by
  constructor
  · intro at₀ keys hlast hlt
    exact h.1 at₀ keys hlast ((c.elapsed_mono hle).trans_lt hlt)
  · intro at₀ hat hlt
    exact h.2 at₀ hat ((c.elapsed_mono hle).trans_lt hlt)

/-- Every fetch of a log was created and started when it was allowed. -/
def Throttled (log : List (Event K V τ)) : Prop :=
  ∀ before e after now, log = before ++ e :: after → e = .created now ∨ e = .started now →
    Allowed c before now

omit [DecidableEq K] in
variable {c} in
theorem Throttled.concat {log : List (Event K V τ)} (h : Throttled c log) {e : Event K V τ}
    (he : ∀ now, e = .created now ∨ e = .started now → Allowed c log now) :
    Throttled c (log ++ [e]) := by
  intro before x after now hlog hx
  rcases List.eq_nil_or_concat' after with rfl | ⟨after, y, rfl⟩
  · obtain ⟨rfl, heq⟩ := List.append_inj' hlog rfl
    cases heq
    exact he now hx
  · have hsplit : log ++ [e] = (before ++ x :: after) ++ [y] := by
      rw [hlog]
      simp
    exact h before x after now (List.append_inj' hsplit rfl).1 hx

/-! ## The invariant -/

/-- A fetch is in flight from the creation of its task to its end. -/
def InFlight (s : State K V τ) (task : ℕ) : Prop :=
  ∃ f, s.fetches[task]? = some f ∧ f.done = false

structure Inv (s : State K V τ) : Prop where
  slot : ∀ task, InFlight s task → s.inflight = some task
  refreshedAt : s.refreshedAt = (lastSuccess s.log).map Prod.fst
  keys : ∀ at₀ keys, lastSuccess s.log = some (at₀, keys) → s.keys = keys
  failedAt : ∀ at₀ ∈ failedSince s.log, ∃ at₁, s.failedAt = some at₁ ∧ at₀ ≤ at₁
  clock : ∀ at₀ ∈ failedSince s.log, at₀ ≤ s.clock
  created : ∀ task : ℕ, s.fetches[task]? = some Fetch.created → Allowed c s.log s.clock
  throttled : Throttled c s.log

omit [DecidableEq K] in
theorem inv_new (clock : τ) : Inv c (State.new clock : State K V τ) where
  slot := by
    rintro task ⟨f, hf, -⟩
    simp [State.new] at hf
  refreshedAt := rfl
  keys := by simp [State.new, lastSuccess]
  failedAt := by simp [State.new, failedSince]
  clock := by simp [State.new, failedSince]
  created := by simp [State.new]
  throttled := by
    intro before e after now hlog
    simp [State.new] at hlog

section Steps

variable {c} {s s' : State K V τ}

omit [DecidableEq K] in
/-- What callers do with each other changes nothing here, and time may pass. -/
theorem Inv.callers (h : Inv c s) (callers : List (Caller K V)) {clock : τ}
    (hclock : s.clock ≤ clock) : Inv c { s with callers := callers, clock := clock } where
  slot := h.slot
  refreshedAt := h.refreshedAt
  keys := h.keys
  failedAt := h.failedAt
  clock := fun at₀ hat => (h.clock at₀ hat).trans hclock
  created := fun task htask => (h.created task htask).mono hclock
  throttled := h.throttled

omit [DecidableEq K] in
/-- The tests of `key_for` say when a fetch is allowed. -/
theorem allowed_of_tests (h : Inv c s) {now now' : τ} (hle : now ≤ now')
    (hbackoff : inFailureBackoff c s now = false) (hcooldown : inCooldown c s now' = false) :
    Allowed c s.log now' := by
  constructor
  · intro at₀ keys hlast hlt
    have hat : s.refreshedAt = some at₀ := by rw [h.refreshedAt, hlast]; rfl
    simp [inCooldown, hat, hlt] at hcooldown
  · intro at₀ hmem hlt
    obtain ⟨at₁, hat, hat₁⟩ := h.failedAt at₀ hmem
    -- the last failure is the youngest, and `now` was read before `now'`
    have hlt₁ : c.elapsed now at₁ < c.failureBackoff :=
      calc c.elapsed now at₁ ≤ c.elapsed now' at₁ := c.elapsed_mono hle
        _ ≤ c.elapsed now' at₀ := c.elapsed_anti hat₁
        _ < c.failureBackoff := hlt
    simp [inFailureBackoff, hat, hlt₁] at hbackoff

omit [DecidableEq K] in
theorem not_inFlight_of_free (h : Inv c s) (hfree : s.inflight = none) (task : ℕ) :
    ¬InFlight s task := by
  intro hin
  have hslot := h.slot task hin
  rw [hfree] at hslot
  cases hslot

omit [DecidableEq K] in
/-- A new task, when the slot is free and a fetch is allowed. -/
theorem Inv.create (h : Inv c s) (hfree : s.inflight = none) (callers : List (Caller K V))
    (hallowed : Allowed c s.log s.clock) :
    Inv c { s with
      fetches := s.fetches ++ [.created]
      inflight := some s.fetches.length
      callers := callers
      log := s.log ++ [.created s.clock] } where
  slot := by
    rintro task ⟨f, hf, hdone⟩
    rcases Nat.lt_or_ge task s.fetches.length with hlt | hge
    · rw [List.getElem?_append_left hlt] at hf
      exact absurd ⟨f, hf, hdone⟩ (not_inFlight_of_free h hfree task)
    · rw [List.getElem?_append_right hge, List.getElem?_singleton] at hf
      split at hf
      · next heq =>
        have htask : s.fetches.length = task := by omega
        exact congrArg some htask
      · cases hf
  refreshedAt := by simpa using h.refreshedAt
  keys := by simpa using h.keys
  failedAt := by simpa using h.failedAt
  clock := by simpa using h.clock
  created := by
    intro task _
    simpa [Allowed] using hallowed
  throttled := by
    refine h.throttled.concat ?_
    intro now hnow
    rcases hnow with hnow | hnow
    · cases hnow
      exact hallowed
    · cases hnow

theorem Inv.keyFor (h : Inv c s) {now now' : τ} (hclock : s.clock ≤ now) (hle : now ≤ now')
    (kid : K) : Inv c (keyFor c { s with clock := now' } kid now now') := by
  have hpassed : Inv c { s with clock := now' } := h.callers s.callers (hclock.trans hle)
  unfold Jwks.keyFor
  split
  · exact hpassed.callers _ le_rfl
  · split
    · exact hpassed.callers _ le_rfl
    · next hfree =>
      split
      · exact hpassed.callers _ le_rfl
      · split
        · exact hpassed.callers _ le_rfl
        · next hbackoff hcooldown =>
          have hallowed := allowed_of_tests hpassed hle (by simpa using hbackoff)
            (by simpa using hcooldown)
          exact hpassed.create hfree _ hallowed

omit [DecidableEq K] in
/-- Only the task whose state changes changes its flight. -/
theorem inFlight_set {task : ℕ} {f : Fetch} {i : ℕ} {fetches : List Fetch}
    (hi : ∃ g, (fetches.set task f)[i]? = some g ∧ g.done = false) :
    (∃ g, fetches[i]? = some g ∧ g.done = false) ∨ i = task ∧ f.done = false := by
  obtain ⟨g, hg, hdone⟩ := hi
  rw [List.getElem?_set] at hg
  split at hg
  · next heq =>
    split at hg
    · cases hg
      exact .inr ⟨heq.symm, hdone⟩
    · cases hg
  · exact .inl ⟨g, hg, hdone⟩

omit [DecidableEq K] in
theorem Inv.start (h : Inv c s) {task : ℕ} {now : τ} (hclock : s.clock ≤ now)
    (htask : s.fetches[task]? = some .created) :
    Inv c { s with
      clock := now
      fetches := s.fetches.set task .running
      log := s.log ++ [.started now] } := by
  have hallowed := (h.created task htask).mono hclock
  have hslot := h.slot task ⟨_, htask, rfl⟩
  refine ⟨?_, ?_, ?_, ?_, ?_, ?_, ?_⟩
  · intro i hi
    rcases inFlight_set hi with hi | ⟨rfl, -⟩
    · exact h.slot i hi
    · exact hslot
  · simpa using h.refreshedAt
  · simpa using h.keys
  · simpa using h.failedAt
  · intro at₀ hat
    rw [failedSince_started] at hat
    exact (h.clock at₀ hat).trans hclock
  · intro i _
    simpa [Allowed] using hallowed
  · refine h.throttled.concat ?_
    intro now' hnow
    rcases hnow with hnow | hnow
    · cases hnow
    · cases hnow
      exact hallowed

omit [DecidableEq K] in
/-- While a fetch runs, no other task waits for its start. -/
theorem not_created_of_running (h : Inv c s) {task : ℕ} (htask : s.fetches[task]? = some .running)
    {f : Fetch} (hf : f.done = true) (i : ℕ) : (s.fetches.set task f)[i]? ≠ some .created := by
  intro hi
  have hother := inFlight_set ⟨_, hi, rfl⟩
  rw [hf] at hother
  rcases hother with hin | ⟨-, hdone⟩
  · have heq : some i = some task := (h.slot i hin).symm.trans (h.slot task ⟨_, htask, rfl⟩)
    cases heq
    rw [List.getElem?_set] at hi
    split at hi
    · split at hi
      · cases hi
        cases hf
      · cases hi
    · next hne => exact hne rfl
  · cases hdone

omit [DecidableEq K] in
theorem Inv.fail (h : Inv c s) {task : ℕ} {now : τ} (hclock : s.clock ≤ now)
    (htask : s.fetches[task]? = some .running) :
    Inv c (fail { s with clock := now } task now) := by
  refine ⟨?_, ?_, ?_, ?_, ?_, ?_, ?_⟩
  · intro i hi
    rcases inFlight_set hi with hi | ⟨-, hdone⟩
    · exact h.slot i hi
    · cases hdone
  · simpa [Jwks.fail] using h.refreshedAt
  · simpa [Jwks.fail] using h.keys
  · intro at₀ hat
    simp only [Jwks.fail, failedSince_failed, List.mem_append, List.mem_singleton] at hat
    refine ⟨now, rfl, ?_⟩
    rcases hat with hat | rfl
    · exact (h.clock at₀ hat).trans hclock
    · exact le_rfl
  · intro at₀ hat
    simp only [Jwks.fail, failedSince_failed, List.mem_append, List.mem_singleton] at hat
    rcases hat with hat | rfl
    · exact (h.clock at₀ hat).trans hclock
    · exact le_rfl
  · intro i hi
    exact absurd hi (not_created_of_running h htask rfl i)
  · refine h.throttled.concat ?_
    rintro now' (hnow | hnow)
    · cases hnow
    · cases hnow

omit [DecidableEq K] in
theorem Inv.finishFetch (h : Inv c s) {task : ℕ} {now : τ} (hclock : s.clock ≤ now)
    (htask : s.fetches[task]? = some .running) (outcome : Outcome K V) :
    Inv c (finishFetch { s with clock := now } task now outcome) := by
  cases outcome with
  | raised => exact h.fail hclock htask
  | parsed keys =>
    by_cases hempty : keys.entries = []
    · rw [Jwks.finishFetch, if_pos hempty]
      exact h.fail hclock htask
    · rw [Jwks.finishFetch, if_neg hempty]
      refine ⟨?_, ?_, ?_, ?_, ?_, ?_, ?_⟩
      · intro i hi
        rcases inFlight_set hi with hi | ⟨-, hdone⟩
        · exact h.slot i hi
        · cases hdone
      · simp
      · intro at₀ keys' hlast
        simp only [lastSuccess_succeeded, Option.some.injEq, Prod.mk.injEq] at hlast
        exact hlast.2
      · simp
      · simp
      · intro i hi
        exact absurd hi (not_created_of_running h htask rfl i)
      · refine h.throttled.concat ?_
        rintro now' (hnow | hnow)
        · cases hnow
        · cases hnow

omit [DecidableEq K] in
/-- The callback frees the slot of a task that has ended. -/
theorem Inv.clear (h : Inv c s) {task : ℕ} (hdone : s.fetches[task]?.any Fetch.done = true) :
    Inv c { s with inflight := if s.inflight = some task then none else s.inflight } := by
  refine ⟨?_, h.refreshedAt, h.keys, h.failedAt, h.clock, h.created, h.throttled⟩
  intro i hi
  have hslot := h.slot i hi
  have hne : i ≠ task := by
    rintro rfl
    obtain ⟨f, hf, hrunning⟩ := hi
    simp only [hf, Option.any_some] at hdone
    rw [hdone] at hrunning
    cases hrunning
  have hne' : s.inflight ≠ some task := by
    rw [hslot]
    exact fun heq => hne (Option.some.inj heq)
  exact (if_neg hne').trans hslot

theorem Inv.step (h : Inv c s) {a : Act K V τ} (hstep : step c s a = some s') : Inv c s' := by
  cases a with
  | call kid now now' =>
    simp only [Jwks.step] at hstep
    split at hstep
    · next htime =>
      cases hstep
      exact h.keyFor htime.1 htime.2 kid
    · cases hstep
  | start task now =>
    simp only [Jwks.step] at hstep
    split at hstep
    · next htime =>
      cases hstep
      exact h.start htime.1 htime.2
    · cases hstep
  | finish task outcome now =>
    simp only [Jwks.step] at hstep
    split at hstep
    · next htime =>
      cases hstep
      exact h.finishFetch htime.1 htime.2 outcome
    · cases hstep
  | clear task =>
    simp only [Jwks.step] at hstep
    split at hstep
    · next hdone =>
      cases hstep
      exact h.clear hdone
    · cases hstep
  | resume caller =>
    simp only [Jwks.step] at hstep
    split at hstep
    · obtain ⟨r, -, rfl⟩ := Option.map_eq_some_iff.mp hstep
      exact h.callers _ le_rfl
    · cases hstep
  | cancel caller =>
    simp only [Jwks.step] at hstep
    split at hstep
    · cases hstep
      exact h.callers _ le_rfl
    · cases hstep

end Steps

/-- **Fetches are throttled.** In every interleaving at most one fetch is in flight; none is
created or starts within the cooldown of the last success or within the backoff of a failure
that no success followed; and a key of the last set that was fetched is returned at once. -/
theorem jwks_throttled {clock : τ} {acts : List (Act K V τ)} {s : State K V τ}
    (hrun : run (step c) (.new clock) acts = some s) :
    (∀ i j, InFlight s i → InFlight s j → i = j) ∧
    (∀ before e after now, s.log = before ++ e :: after → e = .created now ∨ e = .started now →
      (∀ at₀ keys, lastSuccess before = some (at₀, keys) → ¬c.elapsed now at₀ < c.cooldown) ∧
        ∀ at₀ ∈ failedSince before, ¬c.elapsed now at₀ < c.failureBackoff) ∧
    (∀ at₀ keys kid key, lastSuccess s.log = some (at₀, keys) → keys.get? kid = some key →
      ∀ now now' s', step c s (.call kid now now') = some s' →
        s'.callers = s.callers ++ [.returned key] ∧ s'.fetches = s.fetches ∧ s'.log = s.log) := by
  have hinv : Inv c s :=
    run_invariant (A := fun _ => True) (fun _ h hstep => h.step hstep) (fun _ _ => trivial)
      (inv_new c clock) hrun
  refine ⟨?_, hinv.throttled, ?_⟩
  · intro i j hi hj
    exact Option.some.inj ((hinv.slot i hi).symm.trans (hinv.slot j hj))
  · intro at₀ keys kid key hlast hkey now now' s' hcall
    have hkeys : s.keys.get? kid = some key := hinv.keys at₀ keys hlast ▸ hkey
    simp only [step] at hcall
    split at hcall
    · cases hcall
      simp only [keyFor, hkeys, and_self]
    · cases hcall

/-- `UNKNOWN_KID_COOLDOWN_S` and `FAILURE_BACKOFF_S`, on a clock of whole seconds. -/
def defaultClient : JwksClient ℤ ℤ where
  cooldown := 60
  failureBackoff := 5
  elapsed := fun now at₀ => now - at₀
  elapsed_mono := fun h => Int.sub_le_sub_right h _
  elapsed_anti := fun h => Int.sub_le_sub_left h _

/-- A failure, a call within its backoff, a success, and an unknown kid within the cooldown and
behind it. -/
theorem jwks_throttled_outage :
    let keys : Dict ℕ ℕ := Dict.empty.insert 1 11
    let acts : List (Act ℕ ℕ ℤ) := [.call 1 0 0, .start 0 1, .finish 0 .raised 3, .clear 0,
      .resume 0, .call 1 7 7, .call 1 8 8, .start 1 8, .call 2 8 8, .finish 1 (.parsed keys) 9,
      .clear 1, .resume 2, .resume 3, .call 1 20 20, .call 2 68 68, .call 2 69 69]
    ∃ s, run (step defaultClient) (.new 0) acts = some s ∧ s.fetches = [.failed, .succeeded, .created] ∧
      ∀ i j, InFlight s i → InFlight s j → i = j := by
  intro keys acts
  have hfetches : (run (step defaultClient) (.new 0) acts).map State.fetches =
      some [.failed, .succeeded, .created] := by
    decide +kernel
  obtain ⟨s, hs, hlist⟩ := Option.map_eq_some_iff.mp hfetches
  exact ⟨s, hs, hlist, (jwks_throttled defaultClient hs).1⟩

end Jwks

end CorpLlmGateway.Tokens
