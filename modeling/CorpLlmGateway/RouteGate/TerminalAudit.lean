import Mathlib
import CorpLlmGateway.RouteGate.Inflight

/-!
# The terminal audit record

The model of `route_gate/terminal_audit.py` for one ticket whose facts were deposited.
The response path decides an outcome and publishes it, any number of times; the ticket's
close publishes what is left. A write is suspended in the sink and ends with what the
sink answers. The tasks are the writes: those of the response path, and those that a
close or a failure behind it leaves behind.

Every attempt is recorded with its result, in the order in which they start. Nothing
reads the record.

* `Stage` — the life of a record, as the stages it goes through;
* `run_stage` — every run is in one of the stages;
* `terminal_record` — what follows for the record.
-/

namespace CorpLlmGateway.RouteGate

open Tasks

namespace TerminalAudit

/-- `Outcome`. -/
inductive Outcome where
  | ok
  | failed
  | cancelled
deriving DecidableEq, Repr

/-- An outcome and its error code. -/
abbrev Decision := Outcome × Option String

def internal : String := "E_INTERNAL"
def clientDisconnected : String := "E_CLIENT_DISCONNECTED"
def serverShutdown : String := "E_SERVER_SHUTDOWN"

/-- How a write ends: the last three are an `Exception`, the cancellation of the task that
publishes, and any other `BaseException`. -/
inductive SinkResult where
  | success
  | ambiguous
  | exception
  | cancelled
  | fatal
deriving DecidableEq, Repr

/-- The record is there, or may be. -/
def SinkResult.landed : SinkResult → Bool
  | .success | .ambiguous => true
  | .exception | .cancelled | .fatal => false

/-- The part of `AuditFacts` that its writing goes by. -/
structure AuditFacts where
  errorCode : Option String
  decided : Option Decision
  published : Bool
  publishing : Bool
  attempts : ℕ
  retryOnFailure : Bool
deriving DecidableEq, Repr

def AuditFacts.new (errorCode : Option String) : AuditFacts :=
  ⟨errorCode, none, false, false, 0, false⟩

/-- The ticket, its facts, how often a record was counted as lost, and the attempts. -/
structure Shared where
  ticket : RequestTicket
  facts : AuditFacts
  lost : ℕ
  log : List (Option SinkResult)
deriving DecidableEq, Repr

/-- `deposit(ticket, facts)`; `none` when it is refused. -/
def deposit (ticket : RequestTicket) (errorCode : Option String) : Option Shared :=
  if ticket.closed || ticket.cancelled then none else some ⟨ticket, .new errorCode, 0, []⟩

/-- A call of `_write`. -/
inductive Write where
  /-- Suspended in `await self._emit(record)`; `last` is a close's own write. -/
  | emitting (last : Bool) (attempt : ℕ)
  /-- A task that was spawned and has not run yet. -/
  | scheduled
  /-- A close's task that is over; its done callback is still to come. -/
  | finished (fatal : Bool)
  | done
deriving DecidableEq, Repr

/-! ## Writing -/

/-- `facts.decided = (outcome, error_code if error_code is not None else facts.error_code)`,
if nothing was decided. -/
def AuditFacts.decide (facts : AuditFacts) (d : Decision) : AuditFacts :=
  if facts.decided.isNone then { facts with decided := some (d.1, d.2.or facts.errorCode) }
  else facts

/-- `_write` up to the sink; `none` when there is nothing to write. -/
def beginWrite (s : Shared) (last : Bool) : Option (Shared × Write) :=
  if s.facts.published || s.facts.publishing || s.facts.decided.isNone then none
  else
    let facts := { s.facts with publishing := true, attempts := s.facts.attempts + 1 }
    some ({ s with facts := facts, log := s.log ++ [none] }, .emitting last s.log.length)

/-- `_not_written`: a close's write is lost, any other is retried if the close has come. -/
def notWritten (s : Shared) (last retry : Bool) (r : SinkResult) : Shared × List Write :=
  if last then (if r = .fatal then s else { s with lost := s.lost + 1 }, [])
  else (s, if retry then [.scheduled] else [])

/-- `_write` behind the sink. -/
def endWrite (s : Shared) (last : Bool) (attempt : ℕ) (r : SinkResult) : Shared × List Write :=
  let retry := s.facts.retryOnFailure
  let facts := { s.facts with
    published := s.facts.published || r.landed, publishing := false, retryOnFailure := false }
  let s := { s with facts := facts, log := s.log.set attempt (some r) }
  if facts.published then (s, []) else notWritten s last retry r

/-- `_closing_outcome(ticket)`. -/
def closingOutcome (ticket : RequestTicket) : Decision :=
  if ticket.cancelled then (.cancelled, some clientDisconnected)
  else if ticket.cancelOrigin = some .server then (.cancelled, some serverShutdown)
  else (.failed, some internal)

/-- `_on_close(ticket)`. -/
def onClose (s : Shared) : Shared × List Write :=
  if s.facts.published then (s, [])
  else
    let facts := s.facts.decide (closingOutcome s.ticket)
    if facts.publishing then ({ s with facts := { facts with retryOnFailure := true } }, [])
    else ({ s with facts := facts }, [.scheduled])

/-! ## Calls -/

inductive Call where
  | decide (outcome : Outcome) (errorCode : Option String)
  | publish (outcome : Outcome) (errorCode : Option String)
  | markCancelled (origin : CancelOrigin)
  | close

/-- What a publish decides: the client may have left. -/
def publishedOutcome (ticket : RequestTicket) (outcome : Outcome) (errorCode : Option String) :
    Decision :=
  if ticket.cancelled && !(outcome == .failed && errorCode == some internal) then
    (.cancelled, some clientDisconnected)
  else (outcome, errorCode)

/-- `publish(ticket, outcome)` up to the sink. -/
def publish (s : Shared) (outcome : Outcome) (errorCode : Option String) : Shared × List Write :=
  if s.ticket.closed then (s, [])
  else
    let s := { s with facts := s.facts.decide (publishedOutcome s.ticket outcome errorCode) }
    if s.facts.attempts = 0 then
      match beginWrite s false with
      | some (s, w) => (s, [w])
      | none => (s, [])
    else (s, [])

def call (s : Shared) : Call → Shared × List Write
  | .decide outcome errorCode =>
      if s.ticket.closed then (s, [])
      else ({ s with facts := s.facts.decide (outcome, errorCode) }, [])
  | .publish outcome errorCode => publish s outcome errorCode
  | .markCancelled origin => ({ s with ticket := s.ticket.markCancelled origin }, [])
  | .close =>
      -- `RequestTicket.close` runs its hooks once
      if s.ticket.closed then (s, [])
      else onClose { s with ticket := { s.ticket with closed := true } }

inductive Input where
  /-- The event loop starts a task. -/
  | start
  | sink (r : SinkResult)
  /-- The event loop runs a done callback. -/
  | callback

/-- A write runs on; an input it does not wait for changes nothing. -/
def resume (s : Shared) (w : Write) (x : Input) : Shared × Write × List Write :=
  match w, x with
  | .scheduled, .start =>
      match beginWrite s true with
      | some (s, w) => (s, w, [])
      | none => (s, .finished false, [])
  | .emitting last attempt, .sink r =>
      let ended := endWrite s last attempt r
      (ended.1, if last then .finished (r == .fatal) else .done, ended.2)
  | .finished fatal, .callback =>
      -- `_closed` counts what escaped the task
      (if fatal then { s with lost := s.lost + 1 } else s, .done, [])
  | w, _ => (s, w, [])

/-- Any number of calls for one ticket. -/
def program (s₀ : Shared) : Program Shared Write Call Input := ⟨s₀, call, resume⟩

/-- What `pending` counts. -/
def Write.pending : Write → Bool
  | .done => false
  | .emitting _ _ | .scheduled | .finished _ => true

/-! ## Stages -/

/-- What the writes amount to: those in the sink, those not started, those whose failure
is not counted yet. -/
abbrev Load := Multiset (Bool × ℕ) × ℕ × ℕ

def Write.load : Write → Load
  | .emitting last attempt => ({(last, attempt)}, 0, 0)
  | .scheduled => (0, 1, 0)
  | .finished fatal => (0, 0, fatal.toNat)
  | .done => 0

/-- No attempt, or one that failed. -/
def Failed (log : List (Option SinkResult)) : Prop :=
  log = [] ∨ ∃ r : SinkResult, log = [some r] ∧ r.landed = false

/-- The flags of the facts. -/
structure Flags (s : Shared) (closed published publishing retry : Bool) : Prop where
  closed : s.ticket.closed = closed
  published : s.facts.published = published
  publishing : s.facts.publishing = publishing
  retry : s.facts.retryOnFailure = retry

/-- The stages of a record, with the writes there are in each. -/
inductive Stage (s : Shared) : Load → Prop where
  /-- The ticket is open and nothing is being written. -/
  | idle (hf : Flags s false false false false) (hlost : s.lost = 0) (hlog : Failed s.log) :
      Stage s 0
  /-- The response path writes; a close in the meantime asks for a retry. -/
  | responding (closed : Bool) (hf : Flags s closed false true closed) (hlost : s.lost = 0)
      (hlog : s.log = [none]) : Stage s ({(false, 0)}, 0, 0)
  /-- The close's write is to start. -/
  | scheduled (hf : Flags s true false false false) (hlost : s.lost = 0) (hlog : Failed s.log) :
      Stage s (0, 1, 0)
  /-- The close's write is in the sink. -/
  | closing (before : List (Option SinkResult)) (hf : Flags s true false true false)
      (hlost : s.lost = 0) (hbefore : Failed before) (hlog : s.log = before ++ [none]) :
      Stage s ({(true, before.length)}, 0, 0)
  /-- The record is there. -/
  | landed (closed : Bool) (before : List (Option SinkResult)) (r : SinkResult)
      (hf : Flags s closed true false false) (hlost : s.lost = 0) (hbefore : Failed before)
      (hlog : s.log = before ++ [some r]) (hr : r.landed = true) : Stage s 0
  /-- The close's write failed. Its loss is counted, now or by a callback to come. -/
  | lost (uncounted : ℕ) (before : List (Option SinkResult)) (r : SinkResult)
      (hf : Flags s true false false false) (hlost : s.lost + uncounted = 1)
      (hbefore : Failed before) (hlog : s.log = before ++ [some r]) (hr : r.landed = false) :
      Stage s (0, 0, uncounted)

/-- A stage, with the counter of the attempts; a close decides. -/
structure Inv (s : Shared) (n : Load) : Prop where
  attempts : s.facts.attempts = s.log.length
  decided : s.ticket.closed = true → s.facts.published = false → s.facts.decided.isSome = true
  stage : Stage s n

/-! ## One step -/

section Step

variable {s : Shared} {n : Load}

theorem Stage.of_emitting {last : Bool} {attempt : ℕ}
    (h : Stage s ((Write.emitting last attempt).load + n)) :
    n = 0 ∧ (last = false ∧ attempt = 0 ∧ s.log = [none] ∧ s.lost = 0 ∧
        (∃ closed, Flags s closed false true closed) ∨
      last = true ∧ s.lost = 0 ∧ Flags s true false true false ∧
        ∃ before, Failed before ∧ s.log = before ++ [none] ∧ attempt = before.length) := by
  obtain ⟨emitting, scheduled, uncounted⟩ := n
  simp only [Write.load, Prod.mk_add_mk, zero_add, Multiset.singleton_add] at h
  generalize hload : (last, attempt) ::ₘ emitting = load at h
  cases h with
  | idle => exact absurd hload Multiset.cons_ne_zero
  | responding closed hf hlost hlog =>
    obtain ⟨heq, rfl⟩ := (Multiset.singleton_eq_cons_iff _).mp hload.symm
    obtain ⟨rfl, rfl⟩ := Prod.mk.inj heq
    exact ⟨rfl, .inl ⟨rfl, rfl, hlog, hlost, closed, hf⟩⟩
  | scheduled => exact absurd hload Multiset.cons_ne_zero
  | closing before hf hlost hbefore hlog =>
    obtain ⟨heq, rfl⟩ := (Multiset.singleton_eq_cons_iff _).mp hload.symm
    obtain ⟨rfl, rfl⟩ := Prod.mk.inj heq
    exact ⟨rfl, .inr ⟨rfl, hlost, hf, before, hbefore, hlog, rfl⟩⟩
  | landed => exact absurd hload Multiset.cons_ne_zero
  | lost => exact absurd hload Multiset.cons_ne_zero

theorem Stage.of_scheduled (h : Stage s (Write.scheduled.load + n)) :
    n = 0 ∧ Flags s true false false false ∧ s.lost = 0 ∧ Failed s.log := by
  obtain ⟨emitting, scheduled, uncounted⟩ := n
  simp only [Write.load, Prod.mk_add_mk, zero_add] at h
  generalize hload : 1 + scheduled = load at h
  cases h with
  | idle => simp at hload
  | responding => simp at hload
  | scheduled hf hlost hlog =>
    obtain rfl : scheduled = 0 := by omega
    exact ⟨rfl, hf, hlost, hlog⟩
  | closing => simp at hload
  | landed => simp at hload
  | lost => simp at hload

theorem Stage.of_fatal (h : Stage s ((Write.finished true).load + n)) :
    n = 0 ∧ s.lost = 0 ∧ Flags s true false false false ∧
      ∃ before r, Failed before ∧ s.log = before ++ [some r] ∧ r.landed = false := by
  obtain ⟨emitting, scheduled, uncounted⟩ := n
  simp only [Write.load, Prod.mk_add_mk, zero_add, Bool.toNat_true] at h
  generalize hload : 1 + uncounted = load at h
  cases h with
  | idle => simp at hload
  | responding => simp at hload
  | scheduled => simp at hload
  | closing => simp at hload
  | landed => simp at hload
  | lost _ before r hf hlost hbefore hlog hr =>
    obtain rfl : uncounted = 0 := by omega
    exact ⟨rfl, by omega, hf, before, r, hbefore, hlog, hr⟩

/-- A step that touches neither the flags nor the attempts. -/
theorem Stage.congr {u : Shared} (h : Stage s n) (hclosed : u.ticket.closed = s.ticket.closed)
    (hpublished : u.facts.published = s.facts.published)
    (hpublishing : u.facts.publishing = s.facts.publishing)
    (hretry : u.facts.retryOnFailure = s.facts.retryOnFailure) (hlost' : u.lost = s.lost)
    (hlog' : u.log = s.log) : Stage u n := by
  have hflags : ∀ {a b c d : Bool}, Flags s a b c d → Flags u a b c d := fun hf =>
    ⟨hclosed.trans hf.closed, hpublished.trans hf.published, hpublishing.trans hf.publishing,
      hretry.trans hf.retry⟩
  cases h with
  | idle hf hlost hlog => exact .idle (hflags hf) (hlost'.trans hlost) (hlog' ▸ hlog)
  | responding closed hf hlost hlog =>
    exact .responding closed (hflags hf) (hlost'.trans hlost) (hlog'.trans hlog)
  | scheduled hf hlost hlog => exact .scheduled (hflags hf) (hlost'.trans hlost) (hlog' ▸ hlog)
  | closing before hf hlost hbefore hlog =>
    exact .closing before (hflags hf) (hlost'.trans hlost) hbefore (hlog'.trans hlog)
  | landed closed before r hf hlost hbefore hlog hr =>
    exact .landed closed before r (hflags hf) (hlost'.trans hlost) hbefore (hlog'.trans hlog) hr
  | lost uncounted before r hf hlost hbefore hlog hr =>
    exact .lost uncounted before r (hflags hf) (hlost' ▸ hlost) hbefore (hlog'.trans hlog) hr

/-- Deciding leaves everything but the decision. -/
theorem AuditFacts.decide_eq (facts : AuditFacts) (d : Decision) :
    ∃ decision, facts.decide d = { facts with decided := some decision } ∧
      ∀ d', facts.decided = some d' → decision = d' := by
  unfold AuditFacts.decide
  cases hd : facts.decided with
  | none => exact ⟨_, rfl, fun _ h => by simp at h⟩
  | some d' =>
    refine ⟨d', ?_, fun _ h => Option.some.inj h⟩
    rw [if_neg (by simp), ← hd]

theorem Inv.decide (h : Inv s n) (d : Decision) : Inv { s with facts := s.facts.decide d } n := by
  obtain ⟨decision, heq, -⟩ := s.facts.decide_eq d
  rw [heq]
  exact ⟨h.attempts, fun _ _ => rfl, h.stage.congr rfl rfl rfl rfl rfl rfl⟩

/-- A write that starts is the one in the sink, and the record of an attempt is new. -/
theorem beginWrite_eq {last : Bool} (hpublished : s.facts.published = false)
    (hpublishing : s.facts.publishing = false) (hdecided : s.facts.decided.isSome = true) :
    beginWrite s last = some
      ({ s with
        facts := { s.facts with publishing := true, attempts := s.facts.attempts + 1 }
        log := s.log ++ [none] }, .emitting last s.log.length) := by
  unfold beginWrite
  rw [if_neg]
  simpa [hpublished, hpublishing] using Option.isSome_iff_ne_none.mp hdecided

theorem Inv.publish (h : Inv s n) (outcome : Outcome) (errorCode : Option String) :
    Inv (publish s outcome errorCode).1
      (n + Program.total Write.load (publish s outcome errorCode).2) := by
  unfold TerminalAudit.publish
  split
  · simpa using h
  · next hopen =>
    obtain ⟨decision, heq, -⟩ := s.facts.decide_eq (publishedOutcome s.ticket outcome errorCode)
    have hdecided := h.decide (publishedOutcome s.ticket outcome errorCode)
    simp only
    rw [heq] at hdecided ⊢
    split
    · next hnone =>
      -- no attempt was made: the record is idle
      have hlog : s.log = [] := List.length_eq_zero_iff.mp (h.attempts.symm.trans hnone)
      cases h.stage with
      | idle hf hlost _ =>
        have hbegin : beginWrite { s with facts := { s.facts with decided := some decision } } false =
            some _ := beginWrite_eq hf.published hf.publishing rfl
        rw [hbegin]
        refine ⟨?_, fun _ _ => rfl, ?_⟩
        · simp [h.attempts]
        · have hstage : Stage _ (({(false, 0)}, 0, 0) : Load) :=
            .responding (s := { s with
              facts := { s.facts with
                decided := some decision, publishing := true, attempts := s.facts.attempts + 1 }
              log := s.log ++ [none] }) false ⟨hf.closed, hf.published, rfl, hf.retry⟩ hlost
              (by simp [hlog])
          simpa [Write.load, hlog] using hstage
      | responding _ _ _ hlog' => simp [hlog] at hlog'
      | scheduled hf => exact absurd hf.closed hopen
      | closing _ hf => exact absurd hf.closed hopen
      | landed _ _ _ _ _ _ hlog' => simp [hlog] at hlog'
      | lost _ _ _ hf => exact absurd hf.closed hopen
    · simpa using hdecided

/-- The close: a record that is idle gets the close's write, one in the sink is to be
retried, one that is there needs nothing. -/
theorem Inv.close (h : Inv s n) (hopen : s.ticket.closed = false) :
    Inv (onClose { s with ticket := { s.ticket with closed := true } }).1
      (n + Program.total Write.load
        (onClose { s with ticket := { s.ticket with closed := true } }).2) := by
  obtain ⟨decision, heq, -⟩ :=
    s.facts.decide_eq (closingOutcome { s.ticket with closed := true })
  unfold onClose
  simp only
  rw [heq]
  cases h.stage with
  | idle hf hlost hlog =>
    rw [if_neg (by simp [hf.published]), if_neg (by simp [hf.publishing])]
    refine ⟨h.attempts, fun _ _ => rfl, ?_⟩
    have hstage : Stage _ ((0, 1, 0) : Load) := .scheduled (s := { s with
      ticket := { s.ticket with closed := true }, facts := { s.facts with decided := some decision } })
      ⟨rfl, hf.published, hf.publishing, hf.retry⟩ hlost hlog
    simpa [Write.load] using hstage
  | responding closed hf hlost hlog =>
    rw [if_neg (by simp [hf.published]), if_pos (by simp [hf.publishing])]
    refine ⟨h.attempts, fun _ _ => rfl, ?_⟩
    simpa using Stage.responding (s := { s with
      ticket := { s.ticket with closed := true }
      facts := { s.facts with decided := some decision, retryOnFailure := true } })
      true ⟨rfl, hf.published, hf.publishing, rfl⟩ hlost hlog
  | landed closed before r hf hlost hbefore hlog hr =>
    rw [if_pos (by simp [hf.published])]
    refine ⟨h.attempts, fun _ hnot => absurd (hf.published.symm.trans hnot) (by simp), ?_⟩
    simpa using Stage.landed (s := { s with ticket := { s.ticket with closed := true } }) true before r
      ⟨rfl, hf.published, hf.publishing, hf.retry⟩ hlost hbefore hlog hr
  | scheduled hf => exact absurd (hopen.symm.trans hf.closed) (by simp)
  | closing _ hf => exact absurd (hopen.symm.trans hf.closed) (by simp)
  | lost _ _ _ hf => exact absurd (hopen.symm.trans hf.closed) (by simp)

theorem Inv.call (h : Inv s n) (c : Call) :
    Inv (call s c).1 (n + Program.total Write.load (call s c).2) := by
  cases c with
  | decide outcome errorCode =>
    simp only [TerminalAudit.call]
    split
    · simpa using h
    · simpa using h.decide (outcome, errorCode)
  | publish outcome errorCode => exact h.publish outcome errorCode
  | markCancelled origin =>
    have hclosed : (s.ticket.markCancelled origin).closed = s.ticket.closed := by
      unfold RequestTicket.markCancelled
      split <;> rfl
    refine ⟨h.attempts, fun hc => h.decided (hclosed ▸ hc), ?_⟩
    simpa [TerminalAudit.call] using h.stage.congr (u :=
      { s with ticket := s.ticket.markCancelled origin }) hclosed rfl rfl rfl rfl rfl
  | close =>
    simp only [TerminalAudit.call]
    split
    · simpa using h
    · next hopen => exact h.close (by simpa using hopen)

/-- The close's write starts. -/
theorem Inv.start (h : Inv s (Write.scheduled.load + n)) :
    ∃ s' w, beginWrite s true = some (s', w) ∧ Inv s' (w.load + n) := by
  obtain ⟨rfl, hf, hlost, hlog⟩ := h.stage.of_scheduled
  refine ⟨_, _, beginWrite_eq hf.published hf.publishing (h.decided hf.closed hf.published), ?_⟩
  refine ⟨by simp [h.attempts], fun hc hp => h.decided hc hp, ?_⟩
  simpa [Write.load] using Stage.closing (s := { s with
    facts := { s.facts with publishing := true, attempts := s.facts.attempts + 1 }
    log := s.log ++ [none] }) s.log ⟨hf.closed, hf.published, rfl, hf.retry⟩ hlost hlog rfl

/-- The state behind a write. -/
def Shared.ended (s : Shared) (published : Bool) (lost : ℕ) (log : List (Option SinkResult)) :
    Shared :=
  { s with
    facts := { s.facts with published := published, publishing := false, retryOnFailure := false }
    lost := lost
    log := log }

/-- The sink answers the response path: the record is there, or its retry is scheduled, or
it waits for the close. -/
theorem Inv.sink_responding {closed : Bool} (h : Inv s ((Write.emitting false 0).load + 0))
    (hlog : s.log = [none]) (hlost : s.lost = 0) (hf : Flags s closed false true closed)
    (r : SinkResult) :
    Inv (endWrite s false 0 r).1 (Program.total Write.load (endWrite s false 0 r).2) := by
  have hattempts : s.facts.attempts = 1 := by simp [h.attempts, hlog]
  cases hr : r.landed with
  | true =>
    have hend : endWrite s false 0 r = (s.ended true 0 [some r], []) := by
      simp [endWrite, Shared.ended, hr, hlog, hlost]
    rw [hend]
    exact ⟨hattempts, fun _ hp => by simp [Shared.ended] at hp,
      .landed closed [] r ⟨hf.closed, rfl, rfl, rfl⟩ rfl (.inl rfl) rfl hr⟩
  | false =>
    have hend : endWrite s false 0 r =
        (s.ended false 0 [some r], if closed then [.scheduled] else []) := by
      simp [endWrite, Shared.ended, hr, hlog, hlost, hf.published, hf.retry, notWritten]
    rw [hend]
    refine ⟨hattempts, fun hc _ => h.decided hc hf.published, ?_⟩
    cases closed with
    | true => exact .scheduled ⟨hf.closed, rfl, rfl, rfl⟩ rfl (.inr ⟨r, rfl, hr⟩)
    | false => exact .idle ⟨hf.closed, rfl, rfl, rfl⟩ rfl (.inr ⟨r, rfl, hr⟩)

/-- The sink answers the close: the record is there, or it is lost. -/
theorem Inv.sink_closing {before : List (Option SinkResult)}
    (h : Inv s ((Write.emitting true before.length).load + 0)) (hlost : s.lost = 0)
    (hf : Flags s true false true false) (hbefore : Failed before) (hlog : s.log = before ++ [none])
    (r : SinkResult) :
    (endWrite s true before.length r).2 = [] ∧
      Inv (endWrite s true before.length r).1 (Write.finished (r == .fatal)).load := by
  have hattempts : s.facts.attempts = (before ++ [some r]).length := by simp [h.attempts, hlog]
  cases hr : r.landed with
  | true =>
    have hend : endWrite s true before.length r = (s.ended true 0 (before ++ [some r]), []) := by
      simp [endWrite, Shared.ended, hr, hlog, hlost]
    have hfatal : (r == .fatal) = false := by
      cases r with
      | fatal => simp [SinkResult.landed] at hr
      | success | ambiguous | exception | cancelled => rfl
    rw [hend, hfatal]
    exact ⟨rfl, hattempts, fun _ hp => by simp [Shared.ended] at hp,
      .landed true before r ⟨hf.closed, rfl, rfl, rfl⟩ rfl hbefore rfl hr⟩
  | false =>
    have hend : endWrite s true before.length r =
        (s.ended false (if r = .fatal then 0 else 1) (before ++ [some r]), []) := by
      by_cases hfatal : r = .fatal
      · simp [endWrite, Shared.ended, hlog, hlost, hf.published, notWritten, hfatal,
          SinkResult.landed]
      · simp [endWrite, Shared.ended, hr, hlog, hlost, hf.published, notWritten, hfatal]
    rw [hend]
    refine ⟨rfl, hattempts, fun hc _ => h.decided hc hf.published, ?_⟩
    refine .lost (r == .fatal).toNat before r ⟨hf.closed, rfl, rfl, rfl⟩ ?_ hbefore rfl hr
    -- what escapes the task is counted by its callback instead
    by_cases hfatal : r = .fatal <;> simp [Shared.ended, hfatal]

theorem Inv.resume {w : Write} (h : Inv s (w.load + n)) (x : Input) :
    Inv (resume s w x).1
      ((resume s w x).2.1.load + n + Program.total Write.load (resume s w x).2.2) := by
  have hstay : Inv s (w.load + n + Program.total Write.load []) := by simpa using h
  cases w with
  | done => exact hstay
  | scheduled =>
    cases x with
    | start =>
      obtain ⟨s', w, hbegin, hinv⟩ := h.start
      simpa [TerminalAudit.resume, hbegin] using hinv
    | sink => exact hstay
    | callback => exact hstay
  | emitting last attempt =>
    cases x with
    | sink r =>
      obtain ⟨rfl, ⟨rfl, rfl, hlog, hlost, closed, hf⟩ |
        ⟨rfl, hlost, hf, before, hbefore, hlog, rfl⟩⟩ := h.stage.of_emitting
      · simpa [TerminalAudit.resume, Write.load] using h.sink_responding hlog hlost hf r
      · obtain ⟨hnew, hinv⟩ := h.sink_closing hlost hf hbefore hlog r
        simpa [TerminalAudit.resume, hnew] using hinv
    | start => exact hstay
    | callback => exact hstay
  | finished fatal =>
    cases x with
    | callback =>
      cases fatal with
      | false =>
        have hzero : Inv s (0 + n) := h
        simpa [TerminalAudit.resume, Write.load] using hzero
      | true =>
        obtain ⟨rfl, hlost, hf, before, r, hbefore, hlog, hr⟩ := h.stage.of_fatal
        have hstage : Stage { s with lost := s.lost + 1 } 0 :=
          .lost 0 before r ⟨hf.closed, hf.published, hf.publishing, hf.retry⟩ (by simp [hlost])
            hbefore hlog hr
        exact ⟨h.attempts, h.decided, by simpa [TerminalAudit.resume, Write.load] using hstage⟩
    | start => exact hstay
    | sink => exact hstay

end Step

/-! ## Every run -/

/-- Every run from a deposit is in one of the stages. -/
theorem run_stage {ticket : RequestTicket} {errorCode : Option String} {s₀ : Shared}
    (hdeposit : deposit ticket errorCode = some s₀) (events : List (Event Call Input)) :
    Inv ((program s₀).run events).shared
      (Program.total Write.load ((program s₀).run events).tasks) := by
  refine ((program s₀).run_total Write.load (P := fun _ => True) (R := Inv) ?_ ?_ ?_ events).2
  · unfold deposit at hdeposit
    split at hdeposit
    · exact absurd hdeposit (by simp)
    · next hopen =>
      obtain rfl := Option.some.inj hdeposit
      have hclosed : ticket.closed = false := by simp_all
      refine ⟨rfl, fun hc => absurd (hclosed.symm.trans hc) (by simp), ?_⟩
      exact .idle ⟨hclosed, rfl, rfl, rfl⟩ rfl (.inl rfl)
  · exact fun s c n h => ⟨fun _ _ => trivial, h.call c⟩
  · exact fun s w x n _ h => ⟨fun _ _ => trivial, h.resume x⟩

/-- A decision is never changed. -/
theorem decided_stable (s₀ : Shared) (s : State Shared Write) (later : List (Event Call Input))
    {d : Decision} (hd : s.shared.facts.decided = some d) :
    ((program s₀).runFrom s later).shared.facts.decided = some d := by
  have hdecide : ∀ (facts : AuditFacts) (d' : Decision), facts.decided = some d →
      (facts.decide d').decided = some d := by
    intro facts d' h
    simp [AuditFacts.decide, h]
  have hbegin : ∀ {s s' : Shared} {last : Bool} {w : Write}, beginWrite s last = some (s', w) →
      s'.facts.decided = s.facts.decided := by
    intro s s' last w h
    unfold beginWrite at h
    split at h
    · exact absurd h (by simp)
    · rw [← (Prod.mk.inj (Option.some.inj h)).1]
  have hend : ∀ (s : Shared) last attempt r,
      (endWrite s last attempt r).1.facts.decided = s.facts.decided := by
    intro s last attempt r
    simp only [endWrite, notWritten]
    split
    · rfl
    · split
      · split <;> rfl
      · rfl
  refine (program s₀).run_stable (Q := fun s => s.facts.decided = some d) ?_ ?_ s later hd
  · intro s c h
    cases c with
    | decide outcome errorCode =>
      show (call s (.decide outcome errorCode)).1.facts.decided = some d
      simp only [call]
      split
      · exact h
      · exact hdecide _ _ h
    | publish outcome errorCode =>
      show (publish s outcome errorCode).1.facts.decided = some d
      simp only [publish]
      split
      · exact h
      · split
        · split
          · next s' w hw => exact (hbegin hw).trans (hdecide _ _ h)
          · exact hdecide _ _ h
        · exact hdecide _ _ h
    | markCancelled origin => exact h
    | close =>
      show (call s .close).1.facts.decided = some d
      simp only [call, onClose]
      split
      · exact h
      · split
        · exact h
        · split
          · exact hdecide _ _ h
          · exact hdecide _ _ h
  · intro s w x h
    show (resume s w x).1.facts.decided = some d
    unfold resume
    split
    · split
      · next hw => exact (hbegin hw).trans h
      · exact h
    · exact (hend _ _ _ _).trans h
    · split <;> exact h
    · exact h

/-- Writes that are all over weigh nothing. -/
theorem total_load_of_not_pending {writes : List Write} (h : ∀ w ∈ writes, w.pending = false) :
    Program.total Write.load writes = 0 := by
  induction writes with
  | nil => rfl
  | cons w writes ih =>
    have hw : w = .done := by
      have hpending := h w List.mem_cons_self
      cases w with
      | done => rfl
      | emitting | scheduled | finished => simp [Write.pending] at hpending
    rw [Program.total_cons, ih fun w' hw' => h w' (List.mem_cons_of_mem _ hw'), hw]
    rfl

/-- An attempt that ended with a record. -/
def isLanded (x : Option SinkResult) : Bool := x.any SinkResult.landed

def Write.inSink : Write → Bool
  | .emitting _ _ => true
  | .scheduled | .finished _ | .done => false

theorem card_total_load (writes : List Write) :
    (Program.total Write.load writes).1.card = writes.countP Write.inSink := by
  induction writes with
  | nil => rfl
  | cons w writes ih =>
    rw [Program.total_cons, List.countP_cons, Prod.fst_add, Multiset.card_add, ih, add_comm]
    cases w <;> rfl

/-- At most one attempt comes before the last one, and it failed. -/
theorem Failed.bounds {log : List (Option SinkResult)} (h : Failed log) :
    log.length ≤ 1 ∧ log.countP isLanded = 0 := by
  rcases h with rfl | ⟨r, rfl, hr⟩
  · simp
  · simp [isLanded, hr]

theorem Stage.bounds {s : Shared} {n : Load} (h : Stage s n) :
    s.log.countP isLanded ≤ 1 ∧ s.log.length ≤ 2 ∧ n.1.card ≤ 1 := by
  have hlast : ∀ {before : List (Option SinkResult)} {x : Option SinkResult}, Failed before →
      s.log = before ++ [x] → s.log.countP isLanded ≤ 1 ∧ s.log.length ≤ 2 := by
    intro before x hbefore hlog
    obtain ⟨hlen, hnone⟩ := hbefore.bounds
    rw [hlog, List.countP_append, hnone, List.length_append, List.length_singleton, zero_add]
    exact ⟨List.countP_le_length, by omega⟩
  have hfailed : Failed s.log → s.log.countP isLanded ≤ 1 ∧ s.log.length ≤ 2 := fun hlog =>
    ⟨by rw [hlog.bounds.2]; omega, by have := hlog.bounds.1; omega⟩
  cases h with
  | idle _ _ hlog => exact ⟨(hfailed hlog).1, (hfailed hlog).2, by simp⟩
  | responding _ _ _ hlog => simp [hlog, isLanded]
  | scheduled _ _ hlog => exact ⟨(hfailed hlog).1, (hfailed hlog).2, by simp⟩
  | closing before _ _ hbefore hlog =>
    exact ⟨(hlast hbefore hlog).1, (hlast hbefore hlog).2, by simp⟩
  | landed _ before r _ _ hbefore hlog _ =>
    exact ⟨(hlast hbefore hlog).1, (hlast hbefore hlog).2, by simp⟩
  | lost _ before r _ _ hbefore hlog _ =>
    exact ⟨(hlast hbefore hlog).1, (hlast hbefore hlog).2, by simp⟩

/-- Behind the close, with nothing left to do, the record is there or was counted as lost. -/
theorem Stage.settled {s : Shared} (h : Stage s 0) (hclosed : s.ticket.closed = true) :
    s.facts.published = true ∧ s.log.countP isLanded = 1 ∧ s.lost = 0 ∨
      s.facts.published = false ∧ s.lost = 1 ∧
        ∃ r : SinkResult, s.log.getLast? = some (some r) ∧ r.landed = false := by
  generalize hload : (0 : Load) = load at h
  cases h with
  | idle hf => exact absurd (hf.closed.symm.trans hclosed) (by simp)
  | responding => exact absurd (congrArg (·.1.card) hload) (by simp)
  | scheduled => exact absurd (congrArg (·.2.1) hload) (by simp)
  | closing => exact absurd (congrArg (·.1.card) hload) (by simp)
  | landed _ before r hf hlost hbefore hlog hr =>
    refine .inl ⟨hf.published, ?_, hlost⟩
    rw [hlog, List.countP_append, hbefore.bounds.2]
    simp [isLanded, hr]
  | lost uncounted before r hf hlost hbefore hlog hr =>
    have hcounted : uncounted = 0 := (congrArg (·.2.2) hload).symm
    exact .inr ⟨hf.published, by omega, r, by simp [hlog], hr⟩

/-- The record of a ticket whose facts were deposited, in every order of calls, sink
answers and the close: its outcome stands once decided; at most one attempt ends with a
record; at most two are made, never two at once; a publish behind the close does
nothing; and when nothing is pending behind the close, the record is there or its last
attempt failed and was counted once. -/
theorem terminal_record (ticket : RequestTicket) (errorCode : Option String) (s₀ : Shared)
    (hdeposit : deposit ticket errorCode = some s₀) (events : List (Event Call Input)) :
    let s := (program s₀).run events
    (∀ d, s.shared.facts.decided = some d →
      ∀ later, ((program s₀).run (events ++ later)).shared.facts.decided = some d) ∧
    s.shared.log.countP isLanded ≤ 1 ∧
    (s.shared.log.length ≤ 2 ∧ s.tasks.countP Write.inSink ≤ 1) ∧
    (s.shared.ticket.closed = true →
      ∀ outcome code, (program s₀).step s (.call (.publish outcome code)) = s) ∧
    (s.shared.ticket.closed = true → (∀ w ∈ s.tasks, w.pending = false) →
      s.shared.facts.published = true ∧ s.shared.log.countP isLanded = 1 ∧ s.shared.lost = 0 ∨
        s.shared.facts.published = false ∧ s.shared.lost = 1 ∧
          ∃ r : SinkResult, s.shared.log.getLast? = some (some r) ∧ r.landed = false) := by
  intro s
  have hinv : Inv s.shared (Program.total Write.load s.tasks) := run_stage hdeposit events
  obtain ⟨hlanded, hlength, hcard⟩ := hinv.stage.bounds
  refine ⟨?_, hlanded, ⟨hlength, card_total_load s.tasks ▸ hcard⟩, ?_, ?_⟩
  · intro d hd later
    rw [Program.run_append]
    exact decided_stable s₀ s later hd
  · intro hclosed outcome code
    have hrefused : call s.shared (.publish outcome code) = (s.shared, []) := if_pos hclosed
    show State.mk (call s.shared (.publish outcome code)).1
      (s.tasks ++ (call s.shared (.publish outcome code)).2) = s
    rw [hrefused, List.append_nil]
  · intro hclosed hdone
    have hstage := hinv.stage
    rw [total_load_of_not_pending hdone] at hstage
    exact hstage.settled hclosed

/-- The close comes while the response path writes: the write fails, is retried, and the
retry fails for good. -/
theorem terminal_record_lost :
    let s := (program ⟨.new, .new none, 0, []⟩).run [.call (.publish .ok none), .call .close,
      .resume 0 (.sink .exception), .resume 1 .start, .resume 1 (.sink .exception),
      .resume 1 .callback]
    deposit .new none = some ⟨.new, .new none, 0, []⟩ ∧ s.shared.ticket.closed = true ∧
      (∀ w ∈ s.tasks, w.pending = false) ∧ s.shared.lost = 1 := by
  have hrecord := terminal_record .new none ⟨.new, .new none, 0, []⟩ rfl
    [.call (.publish .ok none), .call .close, .resume 0 (.sink .exception), .resume 1 .start,
      .resume 1 (.sink .exception), .resume 1 .callback]
  refine ⟨rfl, rfl, by decide, ?_⟩
  rcases hrecord.2.2.2.2 rfl (by decide) with ⟨hpublished, -⟩ | ⟨-, hlost, -⟩
  · exact absurd hpublished (by decide)
  · exact hlost

end TerminalAudit

end CorpLlmGateway.RouteGate
