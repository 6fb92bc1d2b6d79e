import Mathlib
import CorpLlmGateway.RouteGate.Inflight

/-!
# Admission accounting

What the counters of the in-flight limiter say. Every request has a share of them: a
slot between taking and freeing it, a reader while it reads, the bytes that it holds.
A resumption moves the counters by the difference of the shares of the one request that
runs, so the counters are the sum of the shares of all.

* `resume_accounted` — what one resumption does to the counters;
* `admission_accounting` — what the counters say in every run.
-/

namespace CorpLlmGateway.RouteGate

open Tasks

/-! ## Shares -/

def Pc.reading : Pc → Bool
  | .draining _ _ => true
  | .refusing _ | .cancelling _ | .serving _ _ | .ended _ => false

def Pc.live : Pc → Bool
  | .ended _ => false
  | .refusing _ | .draining _ _ | .cancelling _ | .serving _ _ => true

namespace Request

/-- Between `acquire` and `release`. -/
def holdsSlot (r : Request) : Bool := r.log.contains .acquire && !r.log.contains .release

/-- Reading its body. -/
def reading (r : Request) : Bool := r.pc.reading

def live (r : Request) : Bool := r.pc.live

/-- The ticket has been made and is open. -/
def Admitted (r : Request) : Prop := ∃ t, r.ticket = some t ∧ t.closed = false

/-- What holds of a request wherever it is suspended. -/
def Ok (r : Request) : Prop :=
  match r.pc with
  | .refusing _ => r.log = [] ∧ r.held = 0 ∧ (r.ticket = none ∨ r.Admitted)
  | .draining _ _ => r.log = [] ∧ r.Admitted
  | .cancelling _ => r.log = [] ∧ r.held = 0 ∧ r.Admitted
  | .serving _ _ => r.log = [.acquire] ∧ r.Admitted
  | .ended _ => r.held = 0 ∧
      (r.log = [] ∨ r.log = [.close] ∨ r.log = [.acquire, .close, .release])

end Request

/-- The counters are within the caps. -/
structure Counters.Within (l : InflightLimiter) (c : Counters) : Prop where
  inflight : l.maxInflight ≠ 0 → c.inflight ≤ l.maxInflight
  draining : l.maxDraining ≠ 0 → c.draining ≤ l.maxDraining
  buffered : c.buffered ≤ l.maxBytes

/-- What a request is counted for: a slot, a reader, its bytes. -/
def Request.share (r : Request) : ℤ × ℤ × ℤ := (r.holdsSlot.toNat, r.reading.toNat, r.held)

/-- The counters as a sum of shares. -/
def Counters.totals (c : Counters) : ℤ × ℤ × ℤ := (c.inflight, c.draining, c.buffered)

/-- A request goes from `r` to `r'` and moves the counters by the difference of its shares. -/
structure Accounted (l : InflightLimiter) (c : Counters) (r : Request) (out : Counters × Request) :
    Prop where
  balance : out.1.totals + r.share = c.totals + out.2.share
  within : c.Within l → out.1.Within l
  ok : out.2.Ok

section Accounting

variable {l : InflightLimiter} {c : Counters} {r : Request}

theorem giveBack_eq (c : Counters) (held : ℕ) :
    InflightLimiter.giveBack c held = ({ c with buffered := c.buffered - held }, 0) := by
  unfold InflightLimiter.giveBack
  split
  · rfl
  · next h =>
    obtain rfl : held = 0 := not_not.mp h
    simp

@[simp] theorem Request.giveBack_eq (r : Request) (c : Counters) :
    r.giveBack c = ({ c with buffered := c.buffered - r.held }, { r with held := 0 }) := by
  rw [Request.giveBack, RouteGate.giveBack_eq]

/-- Closing an open ticket. -/
theorem Request.Admitted.close_eq (h : r.Admitted) :
    ∃ t, r.close = { r with ticket := some t, log := r.log ++ [.close] } ∧ t.closed = true := by
  obtain ⟨t, ht, hopen⟩ := h
  exact ⟨{ t with closed := true }, by simp [Request.close, ht, hopen], rfl⟩

/-- The end of `run` for a request with an open ticket. -/
theorem Request.Admitted.leave_eq (h : r.Admitted) (c : Counters) (raised : Bool) :
    ∃ t, r.leave c raised = ({ c with buffered := c.buffered - r.held },
      { r with ticket := some t, log := r.log ++ [.close], held := 0, pc := .ended raised }) := by
  obtain ⟨t, hclose, -⟩ := h.close_eq
  exact ⟨t, by simp [Request.leave, hclose]⟩

/-- The end of `run` for a request without a ticket. -/
theorem Request.leave_eq_of_no_ticket (h : r.ticket = none) (c : Counters) (raised : Bool) :
    r.leave c raised = ({ c with buffered := c.buffered - r.held },
      { r with held := 0, pc := .ended raised }) := by
  simp [Request.leave, Request.close, h]

/-- The end of a request that was served: the ticket closes before the slot is free, and
closing it again does nothing. -/
theorem Request.Admitted.leaveServe_eq (h : r.Admitted) (c : Counters) (raised : Bool) :
    ∃ t, r.leaveServe c raised =
      ({ c with inflight := c.inflight - 1, buffered := c.buffered - r.held },
        { r with
          ticket := some t, log := r.log ++ [.close, .release], held := 0, pc := .ended raised }) := by
  obtain ⟨t, hclose, hclosed⟩ := h.close_eq
  refine ⟨t, ?_⟩
  have hagain : ∀ r' : Request, r'.ticket = some t → r'.close = r' := by
    intro r' ht
    simp [Request.close, ht, hclosed]
  rw [Request.leaveServe, hclose]
  simp [Request.release, Request.leave, hagain]

theorem Request.Admitted.markCancelled (h : r.Admitted) (origin : CancelOrigin) :
    (r.markCancelled origin).Admitted := by
  obtain ⟨t, ht, hopen⟩ := h
  refine ⟨t.markCancelled origin, by simp [Request.markCancelled, ht], ?_⟩
  unfold RequestTicket.markCancelled
  split <;> exact hopen

/-! ### One resumption -/

/-- Holding more bytes within the budget. -/
theorem hold_accounted {c' : Counters} {held held' size : ℕ}
    (h : l.hold c held size = some (c', held')) :
    c'.inflight = c.inflight ∧ c'.draining = c.draining ∧
      c'.buffered + held = c.buffered + held' ∧
      (c.buffered ≤ l.maxBytes → c'.buffered ≤ l.maxBytes) := by
  unfold InflightLimiter.hold at h
  simp only at h
  split at h
  · obtain ⟨rfl, rfl⟩ := Prod.mk.inj (Option.some.inj h)
    exact ⟨rfl, rfl, rfl, id⟩
  · split at h
    · exact absurd h (by simp)
    · next hroom =>
      obtain ⟨rfl, rfl⟩ := Prod.mk.inj (Option.some.inj h)
      refine ⟨rfl, rfl, ?_, fun _ => ?_⟩
      · show c.buffered + ((size : ℤ) - held) + held = c.buffered + size
        omega
      · show c.buffered + ((size : ℤ) - held) ≤ l.maxBytes
        omega

/-- A slot is taken only below the cap. -/
theorem tryAcquire_accounted {c' : Counters} (h : l.tryAcquire c = some c') :
    c' = { c with inflight := c.inflight + 1 } ∧ (l.maxInflight ≠ 0 → c'.inflight ≤ l.maxInflight) := by
  unfold InflightLimiter.tryAcquire at h
  split at h
  · exact absurd h (by simp)
  · next hfull =>
    obtain rfl := Option.some.inj h
    refine ⟨rfl, fun hcap => ?_⟩
    simp only [InflightLimiter.full, Bool.and_eq_true, bne_iff_ne, decide_eq_true_eq] at hfull
    show c.inflight + 1 ≤ l.maxInflight
    have := fun h' => hfull ⟨hcap, h'⟩
    omega

/-- The three equations and the rest of what a resumption has to keep. -/
theorem Accounted.intro {c' : Counters} {r' : Request}
    (hslot : c'.inflight + r.holdsSlot.toNat = c.inflight + r'.holdsSlot.toNat)
    (hread : c'.draining + r.pc.reading.toNat = c.draining + r'.pc.reading.toNat)
    (hheld : c'.buffered + r.held = c.buffered + r'.held) (hwithin : c.Within l → c'.Within l)
    (hok : r'.Ok) : Accounted l c r (c', r') :=
  ⟨Prod.ext hslot (Prod.ext hread hheld), hwithin, hok⟩

/-- Giving back is always within the caps. -/
theorem Counters.Within.giveBack (h : c.Within l) (held : ℕ) :
    ({ c with buffered := c.buffered - held } : Counters).Within l := by
  refine ⟨h.inflight, h.draining, ?_⟩
  have hle := h.buffered
  show c.buffered - held ≤ l.maxBytes
  omega

/-- A request that ends without a slot gives back its bytes. -/
theorem leave_accounted (hread : r.pc.reading = false) (hlog : r.log = [])
    (h : r.ticket = none ∨ r.Admitted) (raised : Bool) : Accounted l c r (r.leave c raised) := by
  rcases h with h | h
  · rw [Request.leave_eq_of_no_ticket h]
    refine .intro ?_ ?_ ?_ (fun hw => hw.giveBack r.held) (by simp [Request.Ok, hlog])
    · simp [Request.holdsSlot, hlog]
    · rw [hread]
      rfl
    · simp
  · obtain ⟨t, heq⟩ := h.leave_eq c raised
    rw [heq]
    refine .intro ?_ ?_ ?_ (fun hw => hw.giveBack r.held) (by simp [Request.Ok, hlog])
    · simp [Request.holdsSlot, hlog]
    · rw [hread]
      rfl
    · simp

/-- So does one that ends with a slot, and the slot is free. -/
theorem leaveServe_accounted (hread : r.pc.reading = false) (hlog : r.log = [.acquire])
    (h : r.Admitted) (raised : Bool) : Accounted l c r (r.leaveServe c raised) := by
  obtain ⟨t, heq⟩ := h.leaveServe_eq c raised
  rw [heq]
  refine .intro ?_ ?_ ?_ (fun hw => ⟨fun hcap => ?_, hw.draining, (hw.giveBack r.held).buffered⟩)
    (by simp [Request.Ok, hlog])
  · simp [Request.holdsSlot, hlog]
  · rw [hread]
    rfl
  · simp
  · have hle := hw.inflight hcap
    show c.inflight - 1 ≤ l.maxInflight
    omega

/-- The reader leaves before anything else; what is left to account for is the rest. -/
theorem drained_accounted {chunks : List Bytes} {size : ℕ} (hpc : r.pc = .draining chunks size)
    (hlog : r.log = []) (h : r.Admitted) (result : InflightLimiter.Drained) :
    Accounted l c r (l.drained c r result) := by
  have hread : ∀ {c' : Counters} {r' : Request}, c'.draining = c.draining - 1 →
      r'.pc.reading = false →
      c'.draining + r.pc.reading.toNat = c.draining + r'.pc.reading.toNat := by
    intro c' r' hc hr
    rw [hc, hr, hpc]
    simp [Pc.reading]
  have hwithin : c.Within l → ({ c with draining := c.draining - 1 } : Counters).Within l := by
    intro hw
    refine ⟨hw.inflight, fun hcap => ?_, hw.buffered⟩
    have hle := hw.draining hcap
    show c.draining - 1 ≤ l.maxDraining
    omega
  have hleave : Accounted l c r (r.leave { c with draining := c.draining - 1 } true) := by
    obtain ⟨t, heq⟩ := h.leave_eq { c with draining := c.draining - 1 } true
    rw [heq]
    refine .intro ?_ (hread rfl rfl) ?_ (fun hw => (hwithin hw).giveBack r.held)
      (by simp [Request.Ok, hlog])
    · simp [Request.holdsSlot, hlog]
    · simp
  have hrefuse : ∀ reason,
      Accounted l c r (r.refuse { c with draining := c.draining - 1 } reason) := by
    intro reason
    rw [Request.refuse, Request.giveBack_eq]
    refine .intro ?_ (hread rfl rfl) ?_ (fun hw => (hwithin hw).giveBack r.held)
      ⟨hlog, rfl, .inr h⟩
    · simp [Request.holdsSlot, hlog]
    · simp
  cases result with
  | raised => exact hleave
  | oversize => exact hrefuse _
  | overBudget => exact hrefuse _
  | timeout => exact hrefuse _
  | disconnected =>
    rw [InflightLimiter.drained, Request.giveBack_eq]
    refine .intro ?_ (hread rfl rfl) ?_ (fun hw => (hwithin hw).giveBack r.held)
      ⟨hlog, rfl, h.markCancelled .client⟩
    · simp [Request.holdsSlot, hlog, Request.markCancelled]
    · simp [Request.markCancelled]
  | body chunks =>
    simp only [InflightLimiter.drained, InflightLimiter.admitBody]
    split
    · exact hleave
    · exact hrefuse _
    · split
      · exact hrefuse _
      · next c' hacquire =>
        obtain ⟨rfl, hcap⟩ := tryAcquire_accounted hacquire
        refine .intro ?_ (hread rfl rfl) rfl
          (fun hw => ⟨hcap, (hwithin hw).draining, hw.buffered⟩) ⟨by simp [hlog], h⟩
        simp [Request.holdsSlot, hlog]

theorem drainChunk_accounted {chunks : List Bytes} {size : ℕ} (hpc : r.pc = .draining chunks size)
    (hlog : r.log = []) (h : r.Admitted) (body : Bytes) (moreBody : Bool) :
    Accounted l c r (l.drainChunk c r chunks size body moreBody) := by
  simp only [InflightLimiter.drainChunk]
  split
  · exact drained_accounted hpc hlog h _
  · split
    · exact drained_accounted hpc hlog h _
    · next c' held hhold =>
      obtain ⟨hinflight, hdraining, hbuffered, hroom⟩ := hold_accounted hhold
      have hwithin : c.Within l → c'.Within l := fun hw =>
        ⟨by rw [hinflight]; exact hw.inflight, by rw [hdraining]; exact hw.draining,
          hroom hw.buffered⟩
      split
      · refine .intro ?_ ?_ hbuffered hwithin ⟨hlog, h⟩
        · rw [hinflight]
          rfl
        · rw [hdraining, hpc]
          rfl
      · -- the bytes are held first, then the read is over
        have hdone := drained_accounted (l := l) (c := c') (r := { r with held := held }) hpc hlog h
          (.body (if body.isEmpty then chunks else chunks ++ [body]))
        refine ⟨?_, fun hw => hdone.within (hwithin hw), hdone.ok⟩
        have hbalance := hdone.balance
        simp only [Counters.totals, Request.share, Prod.mk_add_mk, Prod.ext_iff] at hbalance ⊢
        have hslot : ({ r with held := held } : Request).holdsSlot = r.holdsSlot := rfl
        have hreads : ({ r with held := held } : Request).reading = r.reading := rfl
        rw [hslot, hreads] at hbalance
        omega

/-- A step that only moves on to another await, or changes the flags of the response. -/
theorem moved_accounted {r' : Request} (hlog : r'.log = r.log) (hheld : r'.held = r.held)
    (hread : r'.pc.reading = r.pc.reading) (hok : r'.Ok) : Accounted l c r (c, r') := by
  refine .intro ?_ ?_ ?_ id hok
  · simp [Request.holdsSlot, hlog]
  · rw [hread]
  · rw [hheld]

theorem resumeCancelling_accounted {phase : CancelPhase} (hpc : r.pc = .cancelling phase)
    (hok : r.Ok) (x : Input) : Accounted l c r (r.resumeCancelling c phase x) := by
  obtain ⟨hlog, hheld, h⟩ : r.log = [] ∧ r.held = 0 ∧ r.Admitted := by
    simpa only [Request.Ok, hpc] using hok
  have hread : r.pc.reading = false := by rw [hpc]; rfl
  have hleave := fun raised => leave_accounted (l := l) (c := c) hread hlog (.inr h) raised
  have hmove : ∀ phase', Accounted l c r (c, { r with pc := .cancelling phase' }) := fun _ =>
    moved_accounted rfl rfl hread.symm ⟨hlog, hheld, h⟩
  have hstay : Accounted l c r (c, r) := moved_accounted rfl rfl rfl hok
  cases x with
  | resolve =>
    cases phase with
    | unwinding => exact hmove _
    | stragglers => exact hmove _
    | notifying => exact hleave false
  | raise => exact hleave true
  | cancel => exact hleave true
  | request | otherMessage | timeout | clientGone | watcherStops | responseComplete
    | downstreamEnds => exact hstay

theorem resumeServing_accounted {phase : ServePhase} {serve : Serve}
    (hpc : r.pc = .serving phase serve) (hok : r.Ok) (x : Input) :
    Accounted l c r (r.resumeServing c phase serve x) := by
  obtain ⟨hlog, h⟩ : r.log = [.acquire] ∧ r.Admitted := by
    simpa only [Request.Ok, hpc] using hok
  have hread : r.pc.reading = false := by rw [hpc]; rfl
  have hleave := fun raised => leaveServe_accounted (l := l) (c := c) hread hlog h raised
  have hstay : Accounted l c r (c, r) := moved_accounted rfl rfl rfl hok
  have hmove : ∀ phase' serve', Accounted l c r (c, { r with pc := .serving phase' serve' }) :=
    fun _ _ => moved_accounted rfl rfl hread.symm ⟨hlog, h⟩
  have hmark : ∀ origin phase' serve',
      Accounted l c r (c, { r.markCancelled origin with pc := .serving phase' serve' }) :=
    fun origin _ _ => moved_accounted rfl rfl hread.symm ⟨hlog, h.markCancelled origin⟩
  cases x with
  | resolve =>
    show Accounted l c r (r.resumeServe c serve phase)
    unfold Request.resumeServe
    split
    · -- both tasks may still be running, the client may have left, or the response is out
      split
      · exact hstay
      · split
        · exact hmark _ _ _
        · exact hmove _ _
    · exact hmove _ _
    · exact hmove _ _
    · exact hmove _ _
    · exact hleave false
    · split
      · exact hleave _
      · exact hmove _ _
    · split
      · exact hleave _
      · exact hstay
    · exact hleave true
  | cancel =>
    show Accounted l c r (r.cancelServe c serve phase)
    unfold Request.cancelServe
    split
    · exact hmark _ _ _
    · exact hmark _ _ _
    · exact hmark _ _ _
    · exact hleave true
    · exact hleave true
    · exact hleave true
  | raise =>
    cases phase with
    | clientCancelling => exact hleave true
    | waiting | settlingCancelled | settling | finishing | serverCancelling => exact hstay
  | clientGone =>
    show Accounted l c r (r.clientGone c phase serve)
    unfold Request.clientGone
    split
    · exact hstay
    · simp only
      split
      · exact hmove _ _
      · exact hmark _ _ _
  | watcherStops => exact hmove _ _
  | responseComplete => exact hmove _ _
  | downstreamEnds raised =>
    show Accounted l c r (if serve.downstream.isSome then _ else _)
    split
    · exact hstay
    · exact hmove _ _
  | request | otherMessage | timeout => exact hstay

/-- One resumption moves the counters by what the request gains and loses, and stays
within the caps. -/
theorem resume_accounted (hok : r.Ok) (x : Input) : Accounted l c r (l.resume c r x) := by
  have hstay : Accounted l c r (c, r) := moved_accounted rfl rfl rfl hok
  unfold InflightLimiter.resume
  split
  · next reason hpc =>
    obtain ⟨hlog, -, h⟩ : r.log = [] ∧ r.held = 0 ∧ (r.ticket = none ∨ r.Admitted) := by
      simpa only [Request.Ok, hpc] using hok
    have hread : r.pc.reading = false := by rw [hpc]; rfl
    split
    · exact leave_accounted hread hlog h false
    · exact leave_accounted hread hlog h true
    · exact leave_accounted hread hlog h true
    · exact hstay
  · next chunks size hpc =>
    obtain ⟨hlog, h⟩ : r.log = [] ∧ r.Admitted := by simpa only [Request.Ok, hpc] using hok
    split
    · exact drainChunk_accounted hpc hlog h _ _
    · exact drained_accounted hpc hlog h _
    · exact drained_accounted hpc hlog h _
    · exact drained_accounted hpc hlog h _
    · exact drained_accounted hpc hlog h _
    · exact hstay
  · next phase hpc => exact resumeCancelling_accounted hpc hok x
  · next phase serve hpc => exact resumeServing_accounted hpc hok x
  · exact hstay

/-! ### Arrival -/

/-- A request that starts to read is counted as a reader, below the cap on readers. -/
theorem startDraining_accounted {held : ℕ} {c' : Counters} (check : Option BodyCheck)
    (hfull : l.drainingFull c = false) (hinflight : c'.inflight = c.inflight)
    (hdraining : c'.draining = c.draining) (hbuffered : c'.buffered = c.buffered + held)
    (hroom : c.buffered ≤ l.maxBytes → c'.buffered ≤ l.maxBytes) :
    let out := InflightLimiter.startDraining c' held check
    out.1.totals = c.totals + out.2.share ∧ (c.Within l → out.1.Within l) ∧ out.2.Ok := by
  refine ⟨?_, fun hw => ⟨?_, fun hcap => ?_, hroom hw.buffered⟩, rfl, .new, rfl, rfl⟩
  · simp [InflightLimiter.startDraining, Counters.totals, Request.share, Request.holdsSlot,
      Request.reading, Pc.reading, hinflight, hdraining, hbuffered]
  · show _ → c'.inflight ≤ _
    rw [hinflight]
    exact hw.inflight
  · simp only [InflightLimiter.drainingFull, Bool.and_eq_false_iff, bne_eq_false_iff_eq,
      decide_eq_false_iff_not] at hfull
    have hlt := hfull.resolve_left hcap
    show c'.draining + 1 ≤ l.maxDraining
    omega

theorem arrive_accounted (a : Arrival) :
    (l.arrive c a).1.totals = c.totals + (l.arrive c a).2.share ∧
      (c.Within l → (l.arrive c a).1.Within l) ∧ (l.arrive c a).2.Ok := by
  have hrefused : c.totals = c.totals + (⟨a.check, 0, none, [], .refusing capacity⟩ : Request).share ∧
      (c.Within l → c.Within l) ∧ (⟨a.check, 0, none, [], .refusing capacity⟩ : Request).Ok :=
    ⟨(add_zero _).symm, id, rfl, rfl, .inl rfl⟩
  unfold InflightLimiter.arrive
  split
  · exact hrefused
  · next hroom =>
    have hfull : l.drainingFull c = false := by
      simp only [Bool.or_eq_true, not_or] at hroom
      simpa using hroom.2
    split
    · exact ⟨(add_zero _).symm, id, rfl, .inl rfl⟩
    · exact startDraining_accounted a.check hfull rfl rfl (by simp) id
    · split
      · exact hrefused
      · next c' held hhold =>
        obtain ⟨hinflight, hdraining, hbuffered, hbytes⟩ := hold_accounted hhold
        exact startDraining_accounted a.check hfull hinflight hdraining (by simpa using hbuffered)
          hbytes

end Accounting

/-! ## Every run -/

/-- A slot is taken at most once and freed at most as often, once for all when the
request has ended, and never before the ticket was closed. -/
structure Request.SlotOnce (r : Request) : Prop where
  once : r.log.count .release ≤ r.log.count .acquire ∧ r.log.count .acquire ≤ 1
  freed : r.live = false → r.log.count .release = r.log.count .acquire
  closed_first : ∀ pre post, r.log = pre ++ .release :: post → .close ∈ pre

/-- What a request can have recorded. -/
theorem Request.Ok.log_cases {r : Request} (h : r.Ok) :
    r.log = [] ∨ r.log = [.close] ∨ r.log = [.acquire, .close, .release] ∨
      r.log = [.acquire] ∧ r.live = true := by
  unfold Request.Ok at h
  split at h
  · exact .inl h.1
  · exact .inl h.1
  · exact .inl h.1
  · next hpc => exact .inr (.inr (.inr ⟨h.1, by rw [Request.live, hpc]; rfl⟩))
  · rcases h.2 with h | h | h
    · exact .inl h
    · exact .inr (.inl h)
    · exact .inr (.inr (.inl h))

/-- In the one record with a release, the ticket was closed before it. -/
theorem close_mem_of_release {pre post : List Effect}
    (h : [.acquire, .close, .release] = pre ++ .release :: post) : .close ∈ pre := by
  rcases pre with - | ⟨e₁, - | ⟨e₂, pre⟩⟩
  · simp at h
  · simp at h
  · simp only [List.cons_append, List.cons.injEq] at h
    simp [← h.2.1]

theorem Request.Ok.slotOnce {r : Request} (h : r.Ok) : r.SlotOnce := by
  rcases h.log_cases with hlog | hlog | hlog | ⟨hlog, hlive⟩
  · refine ⟨by simp [hlog], fun _ => by simp [hlog], fun pre post heq => ?_⟩
    simp [hlog] at heq
  · refine ⟨by simp [hlog], fun _ => by simp [hlog], fun pre post heq => ?_⟩
    rcases pre with - | ⟨e, pre⟩ <;> simp [hlog] at heq
  · exact ⟨by simp [hlog], fun _ => by simp [hlog],
      fun pre post heq => close_mem_of_release (hlog ▸ heq)⟩
  · refine ⟨by simp [hlog], fun hdead => by simp [hlive] at hdead, fun pre post heq => ?_⟩
    rcases pre with - | ⟨e, pre⟩ <;> simp [hlog] at heq

/-- The shares of all requests. -/
theorem total_share (requests : List Request) :
    Program.total Request.share requests =
      ((requests.countP Request.holdsSlot : ℤ), (requests.countP Request.reading : ℤ),
        (((requests.map Request.held).sum : ℕ) : ℤ)) := by
  induction requests with
  | nil => rfl
  | cons r requests ih =>
    rw [Program.total_cons, ih, List.countP_cons, List.countP_cons]
    refine Prod.ext ?_ (Prod.ext ?_ ?_)
    · cases hslot : r.holdsSlot <;> simp [Request.share, hslot, add_comm]
    · cases hread : r.reading <;> simp [Request.share, hread, add_comm]
    · simp [Request.share]

/-- A request that has ended is counted for nothing. -/
theorem Request.Ok.share_of_ended {r : Request} (h : r.Ok) (hdead : r.live = false) :
    r.holdsSlot = false ∧ r.reading = false ∧ r.held = 0 := by
  cases hpc : r.pc with
  | ended =>
    unfold Request.Ok at h
    rw [hpc] at h
    refine ⟨?_, by rw [Request.reading, hpc]; rfl, h.1⟩
    rcases h.2 with hlog | hlog | hlog <;> simp [Request.holdsSlot, hlog]
  | refusing | draining | cancelling | serving => simp [Request.live, hpc, Pc.live] at hdead

/-- A request that has ended holds nothing, so only live ones count. -/
theorem sum_held_live {requests : List Request} (hok : ∀ r ∈ requests, r.Ok) :
    ((requests.filter Request.live).map Request.held).sum = (requests.map Request.held).sum := by
  induction requests with
  | nil => rfl
  | cons r requests ih =>
    have ih := ih fun r' hr' => hok r' (List.mem_cons_of_mem _ hr')
    cases hlive : r.live with
    | true => rw [List.filter_cons_of_pos hlive, List.map_cons, List.map_cons, List.sum_cons,
        List.sum_cons, ih]
    | false =>
      obtain ⟨-, -, hheld⟩ := (hok r List.mem_cons_self).share_of_ended hlive
      rw [List.filter_cons_of_neg (by simp [hlive]), List.map_cons, List.sum_cons, hheld, ih,
        zero_add]

/-- The counters are the shares of all requests, and within the caps. -/
theorem run_accounted (l : InflightLimiter) (events : List (Event Arrival Input)) :
    (∀ r ∈ (l.program.run events).tasks, r.Ok) ∧
      ((l.program.run events).shared.totals =
          Program.total Request.share (l.program.run events).tasks ∧
        (l.program.run events).shared.Within l) := by
  refine l.program.run_total Request.share (R := fun c n => c.totals = n ∧ c.Within l) ?_ ?_ ?_ events
  · exact ⟨rfl, fun _ => Int.natCast_nonneg _, fun _ => Int.natCast_nonneg _, Int.natCast_nonneg _⟩
  · rintro c a n ⟨hsum, hw⟩
    obtain ⟨hbalance, hwithin, hok⟩ := arrive_accounted (l := l) (c := c) a
    refine ⟨fun r hr => List.mem_singleton.mp hr ▸ hok, ?_, hwithin hw⟩
    rw [← hsum]
    simpa [InflightLimiter.program] using hbalance
  · rintro c r x n hok ⟨hsum, hw⟩
    obtain ⟨hbalance, hwithin, hok'⟩ := resume_accounted (l := l) (c := c) hok x
    refine ⟨fun r' hr' => List.mem_singleton.mp hr' ▸ hok', ?_, hwithin hw⟩
    -- take the old share of the request off both sides
    rw [hsum] at hbalance
    have hbalance' : (l.resume c r x).1.totals + r.share =
        (l.resume c r x).2.share + n + r.share := by
      rw [hbalance, add_comm, add_comm r.share n, add_assoc]
    simpa [InflightLimiter.program] using add_right_cancel hbalance'

/-- In every run of requests through one limiter, whatever happens to each of them and in
whatever order, the counters say how many requests hold a slot, how many read a body and
how many bytes the live ones hold, none exceeds its cap, all are zero when every request
has ended, and every slot is freed once, behind the close of its ticket. -/
theorem admission_accounting (l : InflightLimiter) (events : List (Event Arrival Input)) :
    let s := l.program.run events
    (s.shared.inflight = s.tasks.countP Request.holdsSlot ∧
      (l.maxInflight ≠ 0 → s.shared.inflight ≤ l.maxInflight)) ∧
    (s.shared.draining = s.tasks.countP Request.reading ∧
      (l.maxDraining ≠ 0 → s.shared.draining ≤ l.maxDraining)) ∧
    (s.shared.buffered = ((s.tasks.filter Request.live).map Request.held).sum ∧
      s.shared.buffered ≤ l.maxBytes) ∧
    ((∀ r ∈ s.tasks, r.live = false) → s.shared = ⟨0, 0, 0⟩) ∧
    ∀ r ∈ s.tasks, r.SlotOnce := by
  intro s
  obtain ⟨hok, hsum, hwithin⟩ := run_accounted l events
  rw [total_share] at hsum
  obtain ⟨hinflight, hrest⟩ := Prod.ext_iff.mp hsum
  obtain ⟨hdraining, hbuffered⟩ := Prod.ext_iff.mp hrest
  refine ⟨⟨hinflight, hwithin.inflight⟩, ⟨hdraining, hwithin.draining⟩, ⟨?_, hwithin.buffered⟩, ?_,
    fun r hr => (hok r hr).slotOnce⟩
  · rw [sum_held_live hok]
    exact hbuffered
  · intro hended
    have hzero := fun r hr => (hok r hr).share_of_ended (hended r hr)
    have hslots : s.tasks.countP Request.holdsSlot = 0 :=
      List.countP_eq_zero.mpr fun r hr => by simp [(hzero r hr).1]
    have hreaders : s.tasks.countP Request.reading = 0 :=
      List.countP_eq_zero.mpr fun r hr => by simp [(hzero r hr).2.1]
    have hbytes : (s.tasks.map Request.held).sum = 0 :=
      List.sum_eq_zero fun n hn => by
        obtain ⟨r, hr, rfl⟩ := List.mem_map.mp hn
        exact (hzero r hr).2.2
    have hc : s.shared = ⟨s.shared.inflight, s.shared.draining, s.shared.buffered⟩ := rfl
    rw [hc]
    simp only [Counters.mk.injEq]
    exact ⟨hinflight.trans (congrArg Nat.cast hslots), hdraining.trans (congrArg Nat.cast hreaders),
      hbuffered.trans (congrArg Nat.cast hbytes)⟩

/-- One slot: the first body is served, the second one refused when it is complete. -/
example : ((⟨1, 10, 4, 20, by decide, by decide⟩ : InflightLimiter).program.run
    [.call ⟨[], none⟩, .call ⟨[], none⟩, .resume 0 (.request [1, 2, 3] false),
      .resume 1 (.request [4, 5] false)]).shared = ⟨1, 0, 3⟩ := by
  decide

end CorpLlmGateway.RouteGate
