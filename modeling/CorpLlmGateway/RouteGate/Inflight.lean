import CorpLlmGateway.Concurrency.Tasks
import CorpLlmGateway.Text.Numerals

/-!
# The in-flight limiter

The model of `route_gate/inflight.py`. Every request that reaches `InflightLimiter.run`
is a task: it reads its body, takes a slot, is served and ends, and gives back on every
path what it holds. The suspensions of a request are the `await`s of the source; an
input says how the awaited thing resolves. Counters are integers, as in the source: that
they never drop below zero is a result, not an assumption.

A request records when it takes and frees its slot and when its ticket closes. Nothing
reads the record.

* `InflightLimiter.arrive`, `InflightLimiter.resume` — what a request does before its
  first suspension, and between two of them;
* `InflightLimiter.program` — any number of requests through one limiter.
-/

namespace CorpLlmGateway.RouteGate

open Tasks

abbrev Bytes := List UInt8

/-! ## Tickets -/

/-- `CANCEL_CLIENT` and `CANCEL_SERVER`. -/
inductive CancelOrigin where
  | client
  | server
deriving DecidableEq, Repr

/-- The flags of a `RequestTicket`. -/
structure RequestTicket where
  cancelled : Bool
  cancelOrigin : Option CancelOrigin
  closed : Bool
deriving DecidableEq, Repr

namespace RequestTicket

def new : RequestTicket := ⟨false, none, false⟩

/-- `mark_cancelled(origin)`: the first origin stays. -/
def markCancelled (t : RequestTicket) (origin : CancelOrigin) : RequestTicket :=
  match t.cancelOrigin with
  | some _ => t
  | none =>
      { t with cancelOrigin := some origin, cancelled := t.cancelled || origin == .client }

end RequestTicket

/-! ## The limiter -/

/-- An `InflightLimiter` as its constructor accepts it; a cap of 0 is no cap. -/
structure InflightLimiter where
  maxInflight : ℕ
  maxBody : ℕ
  maxDraining : ℕ
  maxBytes : ℕ
  inflight_le : maxInflight ≤ maxDraining
  body_le : max maxBody 1 ≤ maxBytes

/-- `DRAINING_PER_SLOT`. -/
def drainingPerSlot : ℕ := 4

/-- `InflightLimiter(max_inflight, max_body_bytes=..., max_draining=..., max_draining_bytes=...)`;
an error is the text of a `ValueError`. -/
def InflightLimiter.create (maxInflight maxBody : ℕ) (maxDraining : Option ℕ) (maxBytes : ℕ) :
    Except String InflightLimiter :=
  let maxDraining := maxDraining.getD (drainingPerSlot * maxInflight)
  if hdraining : maxInflight ≤ maxDraining then
    if hbytes : max maxBody 1 ≤ maxBytes then
      .ok ⟨maxInflight, maxBody, maxDraining, maxBytes, hdraining, hbytes⟩
    else .error "max_draining_bytes must be an integer no smaller than the body cap"
  else .error "max_draining must be an integer no smaller than max_inflight"

/-- `_inflight`, `_draining` and `_buffered`. -/
structure Counters where
  inflight : ℤ
  draining : ℤ
  buffered : ℤ
deriving DecidableEq, Repr

namespace InflightLimiter

variable (l : InflightLimiter)

/-- The test of `try_acquire`, and the first of `run`. -/
def full (c : Counters) : Bool := l.maxInflight != 0 && decide ((l.maxInflight : ℤ) ≤ c.inflight)

/-- The second test of `run`. -/
def drainingFull (c : Counters) : Bool :=
  l.maxDraining != 0 && decide ((l.maxDraining : ℤ) ≤ c.draining)

/-- `_hold(held, size)`: the counters and the bytes held, or `none` without room. -/
def hold (c : Counters) (held size : ℕ) : Option (Counters × ℕ) :=
  let more := (size : ℤ) - held
  if more ≤ 0 then some (c, held)
  else if (l.maxBytes : ℤ) < c.buffered + more then none
  else some ({ c with buffered := c.buffered + more }, size)

/-- `_give_back(held)`. -/
def giveBack (c : Counters) (held : ℕ) : Counters × ℕ :=
  if held ≠ 0 then ({ c with buffered := c.buffered - held }, 0) else (c, held)

end InflightLimiter

/-! ## Requests -/

/-- What a request does with its slot and its ticket. -/
inductive Effect where
  | acquire
  | close
  | release
deriving DecidableEq, Repr

/-- The awaits of `_cancelled`: the downstream's grace, the stragglers', the guardrail. -/
inductive CancelPhase where
  | unwinding
  | stragglers
  | notifying
deriving DecidableEq, Repr

/-- The awaits of `_serve`. -/
inductive ServePhase where
  /-- The first `asyncio.wait` on the downstream and the watcher. -/
  | waiting
  /-- `_cancelled(ticket, started, downstream=downstream)`. -/
  | clientCancelling (phase : CancelPhase)
  /-- The `_settle(watcher)` behind it. -/
  | settlingCancelled
  /-- The `_settle(watcher)` of a response that is complete or on its way. -/
  | settling
  /-- The second `asyncio.wait`, on the downstream alone. -/
  | finishing
  /-- `_server_cancelled`. -/
  | serverCancelling
deriving DecidableEq, Repr

/-- What `_serve` shares with its watcher and the downstream. -/
structure Serve where
  responseComplete : Bool
  disconnected : Bool
  watcherDone : Bool
  /-- Whether the downstream has ended, and whether it raised. -/
  downstream : Option Bool
deriving DecidableEq, Repr

/-- Where a request is suspended. -/
inductive Pc where
  /-- `await refuse(reason)`. -/
  | refusing (reason : String)
  /-- `await receive()` in `_drain`. -/
  | draining (chunks : List Bytes) (size : ℕ)
  /-- `await self._cancelled(ticket, started, downstream=None)`. -/
  | cancelling (phase : CancelPhase)
  | serving (phase : ServePhase) (serve : Serve)
  /-- `run` has returned or raised. -/
  | ended (raised : Bool)
deriving DecidableEq, Repr

/-- `check(body)`: `none` serves the body, an error is an exception. -/
abbrev BodyCheck := List Bytes → Except Unit (Option String)

/-- One call of `run`, between two suspensions. -/
structure Request where
  check : Option BodyCheck
  /-- The bytes of its `_Held`. -/
  held : ℕ
  /-- There is none before `_admit` makes it. -/
  ticket : Option RequestTicket
  log : List Effect
  pc : Pc

/-! ## The declared length -/

def isAsciiSpace (b : UInt8) : Bool := b == 32 || (9 ≤ b && b ≤ 13)

def isAsciiDigit (b : UInt8) : Bool := 48 ≤ b && b ≤ 57

/-- `bytes.lower()`. -/
def asciiLower (s : Bytes) : Bytes := s.map fun b => if 65 ≤ b && b ≤ 90 then b + 32 else b

/-- `bytes.strip()`. -/
def asciiStrip (s : Bytes) : Bytes := TextScan.strip isAsciiSpace s

def contentLength : Bytes := "content-length".toUTF8.toList

/-- `_declared_length(scope)`; an error is the `ValueError` of a number with too many digits. -/
def declaredLength (headers : List (Bytes × Bytes)) : Except Unit (Option ℕ) :=
  match headers.filter fun h => asciiLower h.1 == contentLength with
  | [(_, value)] =>
      let raw := asciiStrip value
      if raw.isEmpty || !raw.all isAsciiDigit then .ok none
      else if Numerals.maxStrDigits < raw.length then .error ()
      else .ok (some (raw.foldl (fun n b => 10 * n + (b.toNat - 48)) 0))
  | _ => .ok none

/-! ## The ways out -/

namespace Request

/-- `_close(ticket)`. -/
def close (r : Request) : Request :=
  match r.ticket with
  | none => r
  | some t =>
      if t.closed then r
      else { r with ticket := some { t with closed := true }, log := r.log ++ [.close] }

/-- `_give_back(held)`, with the request's own `_Held`. -/
def giveBack (r : Request) (c : Counters) : Counters × Request :=
  let given := InflightLimiter.giveBack c r.held
  (given.1, { r with held := given.2 })

/-- The end of `run`: the `finally` of `_admit`, then that of `run`. -/
def leave (r : Request) (c : Counters) (raised : Bool) : Counters × Request :=
  let given := r.close.giveBack c
  (given.1, { given.2 with pc := .ended raised })

/-- `_release()`. -/
def release (r : Request) (c : Counters) : Counters × Request :=
  ({ c with inflight := c.inflight - 1 }, { r with log := r.log ++ [.release] })

/-- The end of `_serve`: the two nested `finally`s around it, then the end of `run`. -/
def leaveServe (r : Request) (c : Counters) (raised : Bool) : Counters × Request :=
  let freed := r.close.release c
  freed.2.leave freed.1 raised

/-- `await refuse(reason)` of a request that keeps nothing. -/
def refuse (r : Request) (c : Counters) (reason : String) : Counters × Request :=
  let given := r.giveBack c
  (given.1, { given.2 with pc := .refusing reason })

/-- `ticket.mark_cancelled(origin)`. -/
def markCancelled (r : Request) (origin : CancelOrigin) : Request :=
  { r with ticket := r.ticket.map fun t => t.markCancelled origin }

end Request

/-! ## Arrival -/

/-- `ROUTE_GATE_CAPACITY`. -/
def capacity : String := "capacity"

/-- `ROUTE_GATE_BODY_TIMEOUT`. -/
def bodyTimeout : String := "body_timeout"

/-- `OVERSIZE_BLOCKED`. -/
def oversizeBlocked : String := "oversize:blocked"

/-- The arguments of `run`. -/
structure Arrival where
  headers : List (Bytes × Bytes)
  check : Option BodyCheck

namespace InflightLimiter

variable (l : InflightLimiter)

/-- `_admit_ticket` up to the first `receive()`. -/
def startDraining (c : Counters) (held : ℕ) (check : Option BodyCheck) : Counters × Request :=
  ({ c with draining := c.draining + 1 }, ⟨check, held, some .new, [], .draining [] 0⟩)

/-- `run` and `_admit` up to their first await. -/
def arrive (c : Counters) (a : Arrival) : Counters × Request :=
  if l.full c || l.drainingFull c then (c, ⟨a.check, 0, none, [], .refusing capacity⟩)
  else
    match declaredLength a.headers with
    | .error () => (c, ⟨a.check, 0, none, [], .ended true⟩)
    | .ok none => startDraining c 0 a.check
    | .ok (some declared) =>
        match l.hold c 0 (min declared l.maxBody) with
        | none => (c, ⟨a.check, 0, none, [], .refusing capacity⟩)
        | some (c, held) => startDraining c held a.check

/-! ## Between two awaits -/

/-- What `_drain` ends with. -/
inductive Drained where
  | body (chunks : List Bytes)
  | disconnected
  | oversize
  | overBudget
  | timeout
  | raised

/-- `try_acquire()`. -/
def tryAcquire (c : Counters) : Option Counters :=
  if l.full c then none else some { c with inflight := c.inflight + 1 }

/-- `_admit_ticket` with a complete body: the check, then the slot. -/
def admitBody (c : Counters) (r : Request) (chunks : List Bytes) : Counters × Request :=
  match r.check.elim (.ok none) fun check => check chunks with
  | .error () => r.leave c true
  | .ok (some reason) => r.refuse c reason
  | .ok none =>
      match l.tryAcquire c with
      | none => r.refuse c capacity
      | some c =>
          (c, { r with
            log := r.log ++ [.acquire]
            pc := .serving .waiting ⟨false, false, false, none⟩ })

/-- `_admit_ticket` behind its `_drain`. -/
def drained (c : Counters) (r : Request) (result : Drained) : Counters × Request :=
  -- the `finally` around the read comes first, whatever it ended with
  let c := { c with draining := c.draining - 1 }
  match result with
  | .raised => r.leave c true
  | .oversize => r.refuse c oversizeBlocked
  | .overBudget => r.refuse c capacity
  | .timeout => r.refuse c bodyTimeout
  | .disconnected =>
      let given := r.giveBack c
      (given.1, { given.2.markCancelled .client with pc := .cancelling .stragglers })
  | .body chunks => l.admitBody c r chunks

/-- The body of the loop of `_drain`. -/
def drainChunk (c : Counters) (r : Request) (chunks : List Bytes) (size : ℕ) (body : Bytes)
    (moreBody : Bool) : Counters × Request :=
  let size := size + body.length
  if l.maxBody < size then l.drained c r .oversize
  else
    match l.hold c r.held size with
    | none => l.drained c r .overBudget
    | some (c, held) =>
        let chunks := if body.isEmpty then chunks else chunks ++ [body]
        if moreBody then (c, { r with held := held, pc := .draining chunks size })
        else l.drained c { r with held := held } (.body chunks)

end InflightLimiter

/-- How what a request waits for resolves. -/
inductive Input where
  /-- An `http.request` message. -/
  | request (body : Bytes) (moreBody : Bool)
  /-- Any other message: `http.disconnect`, or one that ASGI does not allow. -/
  | otherMessage
  /-- The deadline of the body. -/
  | timeout
  /-- It is done. -/
  | resolve
  /-- It raises. -/
  | raise
  /-- The server cancels the request. -/
  | cancel
  /-- The watcher sees the client leave, or its `receive` fails. -/
  | clientGone
  /-- The watcher gives up on a message it does not know. -/
  | watcherStops
  /-- The downstream sends the last part of the response. -/
  | responseComplete
  /-- The downstream ends. -/
  | downstreamEnds (raised : Bool)

namespace Request

/-- `_cancelled` without a downstream. -/
def resumeCancelling (r : Request) (c : Counters) (phase : CancelPhase) :
    Input → Counters × Request
  | .resolve =>
      match phase with
      | .unwinding => (c, { r with pc := .cancelling .stragglers })
      | .stragglers => (c, { r with pc := .cancelling .notifying })
      | .notifying => r.leave c false
  | .raise => r.leave c true
  | .cancel => r.leave c true
  | _ => (c, r)

/-- `except CancelledError` of `_serve`. -/
def serverCancelled (r : Request) (c : Counters) (serve : Serve) : Counters × Request :=
  (c, { r.markCancelled .server with pc := .serving .serverCancelling serve })

/-- `_serve` behind one of its awaits. -/
def resumeServe (r : Request) (c : Counters) (serve : Serve) : ServePhase → Counters × Request
  | .waiting =>
      if !serve.watcherDone && serve.downstream.isNone then (c, r)
      else if serve.disconnected && !serve.responseComplete then
        (c, { r.markCancelled .client with pc := .serving (.clientCancelling .unwinding) serve })
      else (c, { r with pc := .serving .settling serve })
  | .clientCancelling .unwinding =>
      (c, { r with pc := .serving (.clientCancelling .stragglers) serve })
  | .clientCancelling .stragglers =>
      (c, { r with pc := .serving (.clientCancelling .notifying) serve })
  | .clientCancelling .notifying => (c, { r with pc := .serving .settlingCancelled serve })
  | .settlingCancelled => r.leaveServe c false
  | .settling =>
      match serve.downstream with
      | some raised => r.leaveServe c raised
      | none => (c, { r with pc := .serving .finishing serve })
  | .finishing =>
      match serve.downstream with
      | some raised => r.leaveServe c raised
      | none => (c, r)
  | .serverCancelling => r.leaveServe c true

/-- The server cancels a request that is being served. -/
def cancelServe (r : Request) (c : Counters) (serve : Serve) : ServePhase → Counters × Request
  | .waiting | .settling | .finishing => r.serverCancelled c serve
  | .clientCancelling _ | .settlingCancelled | .serverCancelling => r.leaveServe c true

/-- `client_gone()`, called by the watcher. -/
def clientGone (r : Request) (c : Counters) (phase : ServePhase) (serve : Serve) :
    Counters × Request :=
  if serve.watcherDone then (c, r)
  else
    let r := if serve.responseComplete then r else r.markCancelled .client
    (c, { r with pc := .serving phase { serve with disconnected := true, watcherDone := true } })

def resumeServing (r : Request) (c : Counters) (phase : ServePhase) (serve : Serve) :
    Input → Counters × Request
  | .resolve => r.resumeServe c serve phase
  | .cancel => r.cancelServe c serve phase
  | .raise =>
      match phase with
      | .clientCancelling _ => r.leaveServe c true
      | _ => (c, r)
  | .clientGone => r.clientGone c phase serve
  | .watcherStops => (c, { r with pc := .serving phase { serve with watcherDone := true } })
  | .responseComplete => (c, { r with pc := .serving phase { serve with responseComplete := true } })
  | .downstreamEnds raised =>
      if serve.downstream.isSome then (c, r)
      else (c, { r with pc := .serving phase { serve with downstream := some raised } })
  | _ => (c, r)

end Request

/-- A request runs on to its next await; an input it does not wait for changes nothing. -/
def InflightLimiter.resume (l : InflightLimiter) (c : Counters) (r : Request) (x : Input) :
    Counters × Request :=
  match r.pc with
  | .refusing _ =>
      match x with
      | .resolve => r.leave c false
      | .raise | .cancel => r.leave c true
      | _ => (c, r)
  | .draining chunks size =>
      match x with
      | .request body moreBody => l.drainChunk c r chunks size body moreBody
      | .otherMessage => l.drained c r .disconnected
      | .timeout => l.drained c r .timeout
      | .raise | .cancel => l.drained c r .raised
      | _ => (c, r)
  | .cancelling phase => r.resumeCancelling c phase x
  | .serving phase serve => r.resumeServing c phase serve x
  | .ended _ => (c, r)

/-- All requests through one limiter. -/
def InflightLimiter.program (l : InflightLimiter) : Program Counters Request Arrival Input where
  init := ⟨0, 0, 0⟩
  call := fun c a => ((l.arrive c a).1, [(l.arrive c a).2])
  resume := fun c r x => ((l.resume c r x).1, (l.resume c r x).2, [])

end CorpLlmGateway.RouteGate
