import Mathlib
import CorpLlmGateway.RouteGate.TerminalAudit

/-!
# De-duplicated guardrail audits

The model of `CorpLlmGuardrail.audit` and `on_request_cancelled` in `litellm_hook.py` for
one request id that no ticket owns and that is not evicted from `_audited_ids`. The
tasks are the calls. A call waits until no record of the id is being written, claims
the id in one of two tables and writes; nothing suspends between the last look at the
tables and the claim.

The state of a request and the record of a cancelled one are types of their own: only
whether they are there decides anything here.

* `Dedup` — what the tables and the audited mark say about the calls;
* `audit_dedup` — one record in flight, one record for good.
-/

namespace CorpLlmGateway.LitellmHook

open Tasks
open RouteGate.TerminalAudit (SinkResult)

variable {σ ρ : Type}

/-- The configuration: `_CancelRecord.of`, and whether there are response mappings. -/
structure Guardrail (σ ρ : Type) where
  cancelRecord : Option σ → ℤ → ρ
  responseMappings : Bool

/-- The entries of the tables for the request id; an `asyncio.Event` is a number. -/
structure Tables (σ ρ : Type) where
  auditEmitting : Option ℕ
  cancelEmitting : Option ℕ
  audited : Bool
  cancelPending : Option ρ
  reqState : Option σ
  /-- The events made so far, and those that are set. -/
  events : ℕ
  resolved : List ℕ

def Tables.empty : Tables σ ρ := ⟨none, none, false, none, none, 0, []⟩

/-- A call, where it is suspended or with what it ended. -/
inductive Pc (ρ : Type) where
  /-- `audit` in `_emits_resolved`. -/
  | auditWaiting (event : ℕ) (logEvent : Bool)
  /-- `on_request_cancelled` in `_emits_resolved`. -/
  | cancelWaiting (event : ℕ) (own : ρ)
  /-- The sink of `audit`. -/
  | auditEmitting (event : ℕ)
  /-- The sink of `_emit_cancelled_once`. -/
  | cancelEmitting (event : ℕ) (record : ρ)
  | ended (emit : Option SinkResult)

/-- What `audit` finds when it goes on: a ticket that is being cancelled, or an exception
on the way to the sink. -/
structure Moment where
  ticketCancelled : Bool
  raises : Bool

inductive Call (σ : Type) where
  | audit (logEvent : Bool) (m : Moment)
  /-- `reaches` is the answer of `_cancel_reaches`. -/
  | cancelled (latencyMs : ℤ) (reaches : Bool)
  /-- A pre-call registers the state of the request, or hands it over. -/
  | setState (state : Option σ)
  /-- Another id pushes the pending record out of its bounded queue. -/
  | evictPending

inductive Input where
  | wake (m : Moment)
  | cancel
  | sink (r : SinkResult)

namespace Tables

/-- `_mark_audited(request_id)`. -/
def markAudited (t : Tables σ ρ) : Tables σ ρ :=
  { t with reqState := none, cancelPending := none, audited := true }

/-- `_queue_cancelled(request_id, record)`. -/
def queueCancelled (t : Tables σ ρ) (record : ρ) : Tables σ ρ :=
  { t with cancelPending := some record }

/-- The event that `_emits_resolved` waits for. -/
def emitting (t : Tables σ ρ) : Option ℕ := t.cancelEmitting.or t.auditEmitting

/-- `_emitting(self._audit_emitting, request_id)`, entered. -/
def claimAudit (t : Tables σ ρ) : Tables σ ρ × Pc ρ :=
  ({ t with auditEmitting := some t.events, events := t.events + 1 }, .auditEmitting t.events)

/-- `_emitting(self._cancel_emitting, request_id)`, entered. -/
def claimCancel (t : Tables σ ρ) (record : ρ) : Tables σ ρ × Pc ρ :=
  ({ t with cancelEmitting := some t.events, events := t.events + 1 },
    .cancelEmitting t.events record)

/-- `_emitting(self._audit_emitting, request_id)`, left. -/
def leaveAudit (t : Tables σ ρ) (event : ℕ) : Tables σ ρ :=
  { t with
    auditEmitting := if t.auditEmitting = some event then none else t.auditEmitting
    resolved := event :: t.resolved }

/-- `_emitting(self._cancel_emitting, request_id)`, left. -/
def leaveCancel (t : Tables σ ρ) (event : ℕ) : Tables σ ρ :=
  { t with
    cancelEmitting := if t.cancelEmitting = some event then none else t.cancelEmitting
    resolved := event :: t.resolved }

end Tables

namespace Guardrail

variable (g : Guardrail σ ρ)

/-- `audit` behind `_emits_resolved`. -/
def auditResolved (t : Tables σ ρ) (logEvent : Bool) (m : Moment) : Tables σ ρ × Pc ρ :=
  if t.audited then (t, .ended none)
  else
    match t.cancelPending with
    | some record => t.claimCancel record
    | none =>
        if m.ticketCancelled then (t, .ended none)
        else if t.reqState.isNone && logEvent && g.responseMappings then (t, .ended none)
        else if m.raises then (t, .ended none)
        else t.claimAudit

/-- One round of `_emits_resolved` in `audit`. -/
def audit (t : Tables σ ρ) (logEvent : Bool) (m : Moment) : Tables σ ρ × Pc ρ :=
  match t.emitting with
  | some event => (t, .auditWaiting event logEvent)
  | none => g.auditResolved t logEvent m

/-- One round of `_emits_resolved` in `on_request_cancelled`, and what is behind it. -/
def cancelled (t : Tables σ ρ) (own : ρ) : Tables σ ρ × Pc ρ :=
  match t.emitting with
  | some event => (t, .cancelWaiting event own)
  | none =>
      if t.audited then ({ t with cancelPending := none }, .ended none)
      else t.claimCancel (t.cancelPending.getD own)

/-- `on_request_cancelled(request_id, latency_ms=...)`. -/
def onRequestCancelled (t : Tables σ ρ) (latencyMs : ℤ) (reaches : Bool) : Tables σ ρ × Pc ρ :=
  if t.reqState.isSome && !reaches then (t, .ended none)
  else cancelled { t with reqState := none } (g.cancelRecord t.reqState latencyMs)

def call (t : Tables σ ρ) : Call σ → Tables σ ρ × List (Pc ρ)
  | .audit logEvent m => ((g.audit t logEvent m).1, [(g.audit t logEvent m).2])
  | .cancelled latencyMs reaches =>
      ((g.onRequestCancelled t latencyMs reaches).1, [(g.onRequestCancelled t latencyMs reaches).2])
  | .setState state => ({ t with reqState := state }, [])
  | .evictPending => ({ t with cancelPending := none }, [])

/-- `audit` behind the sink: the table is left first, then the id is marked. -/
def auditEmitted (t : Tables σ ρ) (event : ℕ) (r : SinkResult) : Tables σ ρ :=
  if r.landed then (t.leaveAudit event).markAudited else t.leaveAudit event

/-- `_emit_cancelled` behind the sink: the id is marked, or the record queued, then the
table is left. -/
def cancelEmitted (t : Tables σ ρ) (event : ℕ) (record : ρ) (r : SinkResult) : Tables σ ρ :=
  match r with
  | .success | .ambiguous => t.markAudited.leaveCancel event
  | .exception | .cancelled => (t.queueCancelled record).leaveCancel event
  | .fatal => t.leaveCancel event

/-- A call runs on; an input it does not wait for changes nothing. -/
def resume (t : Tables σ ρ) (pc : Pc ρ) (x : Input) : Tables σ ρ × Pc ρ :=
  match pc, x with
  | .auditWaiting event logEvent, .wake m =>
      if event ∈ t.resolved then g.audit t logEvent m else (t, pc)
  | .auditWaiting _ _, .cancel => (t, .ended none)
  | .cancelWaiting event own, .wake _ =>
      if event ∈ t.resolved then cancelled t own else (t, pc)
  | .cancelWaiting _ own, .cancel =>
      (if !t.audited && t.cancelPending.isNone then t.queueCancelled own else t, .ended none)
  | .auditEmitting event, .sink r => (auditEmitted t event r, .ended (some r))
  | .cancelEmitting event record, .sink r => (cancelEmitted t event record r, .ended (some r))
  | pc, _ => (t, pc)

/-- Any number of calls for the id. -/
def program : Program (Tables σ ρ) (Pc ρ) (Call σ) Input where
  init := .empty
  call := g.call
  resume := fun t pc x => ((g.resume t pc x).1, (g.resume t pc x).2, [])

end Guardrail

/-! ## The claims on the id -/

/-- The two tables. -/
inductive Table where
  | audit
  | cancel
deriving DecidableEq

/-- The entries of both tables. -/
def Tables.claims (t : Tables σ ρ) : Multiset (Table × ℕ) :=
  (t.auditEmitting.elim 0 fun e => {(.audit, e)}) + t.cancelEmitting.elim 0 fun e => {(.cancel, e)}

/-- The claim of a call, and whether its record landed. -/
def Pc.load : Pc ρ → Multiset (Table × ℕ) × ℕ
  | .auditEmitting e => ({(.audit, e)}, 0)
  | .cancelEmitting e _ => ({(.cancel, e)}, 0)
  | .ended (some r) => (0, r.landed.toNat)
  | .ended none | .auditWaiting _ _ | .cancelWaiting _ _ => 0

/-- The tables hold the claims of the calls, one at most, and none once the id is marked;
it is marked when a record landed. -/
structure Dedup (t : Tables σ ρ) (n : Multiset (Table × ℕ) × ℕ) : Prop where
  claims : t.claims = n.1
  landed : t.audited.toNat = n.2
  one : n.1.card ≤ 1
  free : t.audited = true → n.1 = 0

section Steps

variable {g : Guardrail σ ρ} {t t' : Tables σ ρ} {n : Multiset (Table × ℕ) × ℕ}

/-- A step that leaves both tables and the mark. -/
theorem Dedup.congr {u : Tables σ ρ} (h : Dedup t n)
    (haudit : u.auditEmitting = t.auditEmitting) (hcancel : u.cancelEmitting = t.cancelEmitting) (haudited : u.audited = t.audited) :
    Dedup u n := by
  refine ⟨?_, haudited ▸ h.landed, h.one, fun ha => h.free (haudited ▸ ha)⟩
  rw [Tables.claims, haudit, hcancel]
  exact h.claims

/-- With nothing in flight there is no claim, and a record landed if the id is marked. -/
theorem Dedup.of_resolved (h : Dedup t n) (hnone : t.emitting = none) :
    t.auditEmitting = none ∧ t.cancelEmitting = none ∧ n = (0, t.audited.toNat) := by
  obtain ⟨hcancel, haudit⟩ := Option.or_eq_none_iff.mp hnone
  refine ⟨haudit, hcancel, Prod.ext ?_ h.landed.symm⟩
  rw [← h.claims, Tables.claims, haudit, hcancel]
  rfl

/-- A claim is made with nothing in flight and no record yet. -/
theorem Dedup.claimAudit (h : Dedup t n) (hnone : t.emitting = none) (hnew : t.audited = false) :
    Dedup t.claimAudit.1 (n + t.claimAudit.2.load) := by
  obtain ⟨-, hcancel, rfl⟩ := h.of_resolved hnone
  refine ⟨?_, by simp [Tables.claimAudit, Pc.load], by simp [Tables.claimAudit, Pc.load], ?_⟩
  · simp [Tables.claimAudit, Tables.claims, hcancel, Pc.load]
  · intro haudited
    exact absurd (hnew.symm.trans haudited) (by simp)

theorem Dedup.claimCancel (h : Dedup t n) (hnone : t.emitting = none) (hnew : t.audited = false)
    (record : ρ) : Dedup (t.claimCancel record).1 (n + (t.claimCancel record).2.load) := by
  obtain ⟨haudit, -, rfl⟩ := h.of_resolved hnone
  refine ⟨?_, by simp [Tables.claimCancel, Pc.load], by simp [Tables.claimCancel, Pc.load], ?_⟩
  · simp [Tables.claimCancel, Tables.claims, haudit, Pc.load]
  · intro haudited
    exact absurd (hnew.symm.trans haudited) (by simp)

theorem Dedup.audit (h : Dedup t n) (logEvent : Bool) (m : Moment) :
    Dedup (g.audit t logEvent m).1 (n + (g.audit t logEvent m).2.load) := by
  have hstay : Dedup t (n + (Pc.ended none : Pc ρ).load) := by simpa [Pc.load] using h
  unfold Guardrail.audit
  split
  · simpa [Pc.load] using h
  · next hnone =>
    unfold Guardrail.auditResolved
    split
    · exact hstay
    · next hnew =>
      split
      · exact h.claimCancel hnone (by simpa using hnew) _
      · split
        · exact hstay
        · split
          · exact hstay
          · split
            · exact hstay
            · exact h.claimAudit hnone (by simpa using hnew)

theorem Dedup.cancelled (h : Dedup t n) (own : ρ) :
    Dedup (Guardrail.cancelled t own).1 (n + (Guardrail.cancelled t own).2.load) := by
  unfold Guardrail.cancelled
  split
  · simpa [Pc.load] using h
  · next hnone =>
    split
    · simpa [Pc.load] using h.congr (u := { t with cancelPending := none }) rfl rfl rfl
    · next hnew => exact h.claimCancel hnone (by simpa using hnew) _

theorem Dedup.call (h : Dedup t n) (c : Call σ) :
    Dedup (g.call t c).1 (n + Program.total Pc.load (g.call t c).2) := by
  cases c with
  | audit logEvent m => simpa [Guardrail.call] using h.audit (g := g) logEvent m
  | cancelled latencyMs reaches =>
    simp only [Guardrail.call, Guardrail.onRequestCancelled]
    split
    · simpa [Pc.load] using h
    · have hstate : Dedup { t with reqState := none } n := h.congr rfl rfl rfl
      simpa using hstate.cancelled (g.cancelRecord t.reqState latencyMs)
  | setState state => simpa [Guardrail.call] using h.congr (u := { t with reqState := state }) rfl rfl rfl
  | evictPending =>
    simpa [Guardrail.call] using h.congr (u := { t with cancelPending := none }) rfl rfl rfl

/-- The claim of a call in the sink is the only one. -/
theorem Dedup.of_claim {table : Table} {e : ℕ} (h : Dedup t (({(table, e)}, 0) + n)) :
    n = (0, 0) ∧ t.audited = false ∧ t.claims = {(table, e)} := by
  obtain ⟨claims, landed⟩ := n
  have hone := h.one
  have hclaims := h.claims
  simp only [Prod.mk_add_mk, Multiset.card_add, Multiset.card_singleton] at hone hclaims
  obtain rfl : claims = 0 := Multiset.card_eq_zero.mp (by omega)
  have hnew : t.audited = false := by
    cases haudited : t.audited with
    | false => rfl
    | true => exact absurd (h.free haudited) (by simp)
  refine ⟨?_, hnew, by simpa using hclaims⟩
  have hlanded := h.landed
  rw [hnew] at hlanded
  exact Prod.ext rfl (by simpa using hlanded.symm)

/-- Which table a lone claim stands in. -/
theorem auditEmitting_of_claims {e : ℕ} (h : t.claims = {(.audit, e)}) :
    t.auditEmitting = some e ∧ t.cancelEmitting = none := by
  unfold Tables.claims at h
  cases haudit : t.auditEmitting with
  | none =>
    cases hcancel : t.cancelEmitting with
    | none => simp [haudit, hcancel] at h
    | some e' => simp [haudit, hcancel] at h
  | some e' =>
    cases hcancel : t.cancelEmitting with
    | none => simpa [haudit, hcancel] using h
    | some e'' => simpa [haudit, hcancel] using congrArg Multiset.card h

theorem cancelEmitting_of_claims {e : ℕ} (h : t.claims = {(.cancel, e)}) :
    t.cancelEmitting = some e ∧ t.auditEmitting = none := by
  unfold Tables.claims at h
  cases hcancel : t.cancelEmitting with
  | none =>
    cases haudit : t.auditEmitting with
    | none => simp [haudit, hcancel] at h
    | some e' => simp [haudit, hcancel] at h
  | some e' =>
    cases haudit : t.auditEmitting with
    | none => simpa [haudit, hcancel] using h
    | some e'' => simpa [haudit, hcancel] using congrArg Multiset.card h

/-- Both tables empty: the mark says whether a record landed. -/
theorem Dedup.of_empty (haudit : t.auditEmitting = none) (hcancel : t.cancelEmitting = none) :
    Dedup t (0, t.audited.toNat) :=
  ⟨by rw [Tables.claims, haudit, hcancel]; rfl, rfl, by simp, fun _ => rfl⟩

theorem Dedup.auditEmitted {e : ℕ} (h : Dedup t ((Pc.auditEmitting e : Pc ρ).load + n))
    (r : SinkResult) :
    Dedup (Guardrail.auditEmitted t e r) ((Pc.ended (some r) : Pc ρ).load + n) := by
  obtain ⟨rfl, hnew, hclaims⟩ := h.of_claim
  obtain ⟨haudit, hcancel⟩ := auditEmitting_of_claims hclaims
  have hempty : Dedup (Guardrail.auditEmitted t e r)
      (0, (Guardrail.auditEmitted t e r).audited.toNat) := by
    apply Dedup.of_empty <;> unfold Guardrail.auditEmitted <;> split <;>
      simp [Tables.leaveAudit, Tables.markAudited, haudit, hcancel]
  have hmark : (Guardrail.auditEmitted t e r).audited = r.landed := by
    unfold Guardrail.auditEmitted
    split
    · next hr => exact hr.symm
    · next hr => simpa [Tables.leaveAudit, hnew] using hr
  simpa [hmark, Pc.load] using hempty

theorem Dedup.cancelEmitted {e : ℕ} {record : ρ}
    (h : Dedup t ((Pc.cancelEmitting e record).load + n)) (r : SinkResult) :
    Dedup (Guardrail.cancelEmitted t e record r) ((Pc.ended (some r) : Pc ρ).load + n) := by
  obtain ⟨rfl, hnew, hclaims⟩ := h.of_claim
  obtain ⟨hcancel, haudit⟩ := cancelEmitting_of_claims hclaims
  have hempty : Dedup (Guardrail.cancelEmitted t e record r)
      (0, (Guardrail.cancelEmitted t e record r).audited.toNat) := by
    apply Dedup.of_empty <;> unfold Guardrail.cancelEmitted <;> split <;>
      simp [Tables.leaveCancel, Tables.markAudited, Tables.queueCancelled, haudit, hcancel]
  have hmark : (Guardrail.cancelEmitted t e record r).audited = r.landed := by
    cases r <;> simp [Guardrail.cancelEmitted, Tables.leaveCancel, Tables.markAudited,
      Tables.queueCancelled, hnew, RouteGate.TerminalAudit.SinkResult.landed]
  simpa [hmark, Pc.load] using hempty

theorem Dedup.resume {pc : Pc ρ} (h : Dedup t (pc.load + n)) (x : Input) :
    Dedup (g.resume t pc x).1 ((g.resume t pc x).2.load + n) := by
  cases pc with
  | auditWaiting e logEvent =>
    have hrest : Dedup t n := by simpa [Pc.load] using h
    cases x with
    | wake m =>
      simp only [Guardrail.resume]
      split
      · simpa [add_comm] using hrest.audit (g := g) logEvent m
      · exact h
    | cancel => simpa [Guardrail.resume, Pc.load] using hrest
    | sink => exact h
  | cancelWaiting e own =>
    have hrest : Dedup t n := by simpa [Pc.load] using h
    cases x with
    | wake m =>
      simp only [Guardrail.resume]
      split
      · simpa [add_comm] using hrest.cancelled own
      · exact h
    | cancel =>
      simp only [Guardrail.resume]
      split
      · simpa [Pc.load] using hrest.congr (u := t.queueCancelled own) rfl rfl rfl
      · simpa [Pc.load] using hrest
    | sink => exact h
  | auditEmitting e =>
    cases x with
    | sink r => exact h.auditEmitted r
    | wake => exact h
    | cancel => exact h
  | cancelEmitting e record =>
    cases x with
    | sink r => exact h.cancelEmitted r
    | wake => exact h
    | cancel => exact h
  | ended => cases x <;> exact h

end Steps

/-! ## Every run -/

/-- In flight. -/
def Pc.emitting : Pc ρ → Bool
  | .auditEmitting _ | .cancelEmitting _ _ => true
  | .auditWaiting _ _ | .cancelWaiting _ _ | .ended _ => false

/-- Ended with a record. -/
def Pc.landed : Pc ρ → Bool
  | .ended (some r) => r.landed
  | .ended none | .auditEmitting _ | .cancelEmitting _ _ | .auditWaiting _ _ | .cancelWaiting _ _ =>
      false

theorem total_load (calls : List (Pc ρ)) :
    (Program.total Pc.load calls).1.card = calls.countP Pc.emitting ∧
      (Program.total Pc.load calls).2 = calls.countP Pc.landed := by
  induction calls with
  | nil => exact ⟨rfl, rfl⟩
  | cons pc calls ih =>
    rw [Program.total_cons, List.countP_cons, List.countP_cons, Prod.fst_add, Prod.snd_add,
      Multiset.card_add, ih.1, ih.2, add_comm, add_comm (Prod.snd _)]
    cases pc with
    | ended emit =>
      cases emit with
      | none => exact ⟨rfl, rfl⟩
      | some r => cases r <;> exact ⟨rfl, rfl⟩
    | auditWaiting | cancelWaiting | auditEmitting | cancelEmitting => exact ⟨rfl, rfl⟩

/-- Whatever the calls for an id, their order and what the sink answers: at most one emit
is in flight, and at most one ever ends with a record. -/
theorem audit_dedup (g : Guardrail σ ρ) (events : List (Event (Call σ) Input)) :
    (g.program.run events).tasks.countP Pc.emitting ≤ 1 ∧
      (g.program.run events).tasks.countP Pc.landed ≤ 1 := by
  have hrun : Dedup (g.program.run events).shared
      (Program.total Pc.load (g.program.run events).tasks) := by
    refine (g.program.run_total Pc.load (P := fun _ => True) (R := Dedup) ?_ ?_ ?_ events).2
    · exact .of_empty rfl rfl
    · exact fun t c n h => ⟨fun _ _ => trivial, h.call c⟩
    · intro t pc x n _ h
      refine ⟨fun _ _ => trivial, ?_⟩
      simpa [Guardrail.program] using h.resume (g := g) x
  obtain ⟨hemitting, hlanded⟩ := total_load (g.program.run events).tasks
  rw [← hemitting, ← hlanded]
  exact ⟨hrun.one, hrun.landed ▸ Bool.toNat_le _⟩

/-- The second call waits for the first, whose emit fails, and then writes. -/
example : ((⟨fun _ _ => (), false⟩ : Guardrail Unit Unit).program.run
    [.call (.audit false ⟨false, false⟩), .call (.audit false ⟨false, false⟩),
      .resume 0 (.sink .exception), .resume 1 (.wake ⟨false, false⟩)]).tasks.map Pc.emitting =
    [false, true] := by
  decide

end CorpLlmGateway.LitellmHook
