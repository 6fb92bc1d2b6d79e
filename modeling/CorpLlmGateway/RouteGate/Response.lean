import CorpLlmGateway.RouteGate.TerminalAudit
import CorpLlmGateway.RouteGate.UsageTap

/-!
# The response of a ticketed request

`_Response` and the `__call__` of `DesanitizeMiddleware`
(`route_gate/desanitize_middleware.py`): what the app sends goes to the client restored, as it
came, or not at all, and the terminal audit is told how the response ended.

The calls that a handler awaits are listed in their order. The client's `send` may raise and
the task may be cancelled at any of them, so a step performs the calls up to one of them; a
handler changes the response before its first await only. `json.loads` of bytes, `restore_json`
and the making of a restorer are parameters, and may raise. A call of `publish` or `decide` is
recorded whether or not a terminal audit is bound; the token counts it deposits are left out.

* `Client` — what a client may be handed, and when a response counts as delivered;
* `Tracks` — the invariant between the app's messages, the mode and what the client got;
* `messages_inOrder`, `published_ok_delivered`, `closed_released`, `unary_whole` — what follows
  for every run.
-/

namespace CorpLlmGateway.RouteGate.Desanitize

open Json Sanitizer TerminalAudit

variable {F : Type}

/-! ## Messages -/

abbrev Headers := List (Bytes × Bytes)

/-- `mapping.pairs`. -/
abbrev Mapping := List (Pair PyChar)

/-- A message of the response, with the fields that are read. -/
inductive Message where
  | start (status : ℤ) (headers : Headers)
  | body (body : Bytes) (moreBody : Bool)
  | other (type : PyStr)
deriving DecidableEq

/-- What a handler calls: the client's `send`, and the terminal audit. -/
inductive Effect where
  | send (message : Message)
  | decide (outcome : Outcome) (errorCode : Option String)
  | publish (outcome : Outcome) (errorCode : Option String)
deriving DecidableEq

/-- `_header(message, name).lower()`. A letter beyond ASCII keeps its case: it is compared with
ASCII names only. -/
def header (headers : Headers) (name : Bytes) : PyStr :=
  match headers.find? fun h => asciiLower h.1 == name with
  | some h => latin1 (asciiLower h.2)
  | none => []

/-- `_without(message, name)`. -/
def without (headers : Headers) (name : Bytes) : Headers :=
  headers.filter fun h => asciiLower h.1 != name

def contentType : Bytes := Unicode.utf8 "content-type".toList
def contentEncoding : Bytes := Unicode.utf8 "content-encoding".toList

/-- `(b"content-length", str(len(body)).encode())`. -/
def lengthHeader (body : Bytes) : Bytes × Bytes :=
  (contentLength, Unicode.utf8 (Nat.repr body.length).toList)

/-- `INTERNAL_ERROR_BODY`. -/
def internalErrorBody : Bytes :=
  Unicode.utf8 ("\x7b\"error\":\x7b\"type\":\"internal_error\",\"code\":\"E_INTERNAL\"," ++
    "\"message\":\"internal error\"\x7d\x7d").toList

def isSuccess (status : ℤ) : Bool := 200 ≤ status && status < 300

/-! ## The response -/

inductive Mode where
  | unstarted
  | pass
  | unary
  | sse
  | closed
deriving DecidableEq

/-- What the response is given: `json.loads`, `restore_json` and `_SseRestorer`. -/
structure Callbacks (F : Type) where
  loads : Bytes → Except Raised (Json F)
  restoreJson : Json F → Mapping → Except Raised (Json F)
  restorer : Mapping → Bool → Except Raised (SseRestorer F)

/-- `_Response`, the mapping that the store holds for its ticket, and the calls it made. -/
structure Response (F : Type) where
  mode : Mode
  status : ℤ
  start : Option (ℤ × Headers)
  mapping : Option Mapping
  body : Bytes
  sse : Option (SseRestorer F)
  usage : Usage
  tap : Option UsageTap
  registered : Option Mapping
  log : List Effect

namespace Response

def new (registered : Option Mapping) : Response F :=
  ⟨.unstarted, 0, none, none, [], none, ⟨none, none⟩, none, registered, []⟩

/-- `close()`. -/
def close (r : Response F) : Response F :=
  { r with mode := .closed, registered := none, mapping := none, start := none, sse := none,
           tap := none, body := [] }

/-- `_failed(phase, error_type)`. -/
def failed (r : Response F) : Response F :=
  { r with registered := none, log := r.log ++ [.decide .failed (some internal)] }

/-- The content-free 500. -/
def internalErrorCalls : List Effect :=
  [.send (.start 500 [(contentType, Unicode.utf8 "application/json".toList),
      lengthHeader internalErrorBody]),
    .send (.body internalErrorBody false), .publish .failed (some internal)]

/-- `_internal_error()`. -/
def internalError (r : Response F) : Response F × List Effect := (r.close, internalErrorCalls)

variable [Host F]

/-- What the tap lets through of a body, and the response behind it. -/
def tapped (r : Response F) (body : Bytes) (more : Bool) : Bytes × Response F :=
  match r.tap with
  | none => (body, r)
  | some tap =>
      let fed := tap.feed F body (!more) r.usage
      (if tap.drops then fed.1 else body, { r with tap := some fed.2.1, usage := fed.2.2 })

/-- A body in the mode `pass`. -/
def onPass (r : Response F) (body : Bytes) (more : Bool) : Response F × List Effect :=
  let fed := r.tapped body more
  if more then (fed.2, [.send (.body fed.1 more)])
  else
    (fed.2.close,
      [.send (.body fed.1 more), .publish (if isSuccess fed.2.status then .ok else .failed) none])

variable (calls : Callbacks F)

/-- `_on_start(message)`; `drop` is `_drops_usage_chunk(ticket)`. -/
def onStart (drop : Bool) (r : Response F) (status : ℤ) (headers : Headers) :
    Response F × List Effect :=
  let kind := header headers contentType
  let identity :=
    TextScan.strip PyChar.isSpace (header headers contentEncoding) ∈ [[], "identity".py]
  let r := { r with status := status }
  match r.registered with
  | some (pair :: pairs) =>
      let mapping := pair :: pairs
      if isSuccess status ∧ identity then
        let r := { r with mapping := some mapping }
        if "text/event-stream".py.isPrefixOf kind then
          match calls.restorer mapping drop with
          | .error _ => r.failed.internalError
          | .ok sse =>
              ({ r with mode := .sse, sse := some sse },
                [.send (.start status (without headers contentLength))])
        else if "json".py <:+: kind then
          ({ r with mode := .unary, start := some (status, headers) }, [])
        else ({ r with mode := .pass, registered := none }, [.send (.start status headers)])
      else passStart r kind identity
  | _ => passStart r kind identity
where
  /-- The start of a response that is not to be restored. -/
  passStart (r : Response F) (kind : PyStr) (identity : Bool) : Response F × List Effect :=
    let tap :=
      if isSuccess status ∧ identity then UsageTap.forContentType kind drop else r.tap
    let headers :=
      if tap.any UsageTap.drops then without headers contentLength else headers
    ({ r with mode := .pass, registered := none, tap := tap }, [.send (.start status headers)])

/-- The body of a JSON response, restored. -/
def restoredBody (mapping : Mapping) (body : Bytes) : Except Raised Bytes := do
  let payload ← calls.loads body
  let restored ← calls.restoreJson payload mapping
  let text ← (dumps ⟨false, true⟩ restored).mapError .json
  encodeText text

/-- A JSON response with its restored body, and the length of that body. -/
def unaryCalls (status : ℤ) (headers : Headers) (body : Bytes) : List Effect :=
  [.send (.start status (without headers contentLength ++ [lengthHeader body])),
    .send (.body body false), .publish .ok none]

/-- `_finish_unary()`; without its start or its mapping the assertion fails. -/
def finishUnary (r : Response F) : Response F × List Effect :=
  match r.start, r.mapping with
  | some (status, headers), some mapping =>
      match restoredBody calls mapping r.body with
      | .error _ => r.close.failed.internalError
      | .ok body => (r.close, unaryCalls status headers body)
  | _, _ => (r, [])

/-- The restorer behind a chunk, and what it raised. -/
def fedRestorer (sse : SseRestorer F) (chunk : Bytes) (more : Bool) :
    SseRestorer F × Option Raised :=
  match sse.feed chunk with
  | (sse, none) => if more then (sse, none) else sse.flush
  | failed => failed

/-- The events restored before the end of a stream, if there are any. -/
def sendOut (out : Bytes) : List Effect := if out = [] then [] else [.send (.body out true)]

/-- `_on_sse(chunk, more)`. A `take` that raises leaves the response open. -/
def onSse (r : Response F) (chunk : Bytes) (more : Bool) : Response F × List Effect :=
  match r.sse with
  | none => (r, [])
  | some sse =>
      let fed := fedRestorer sse chunk more
      match fed.1.take with
      | (.error _, sse) => ({ r with sse := some sse }, [])
      | (.ok out, sse) =>
          if fed.2.isSome then
            (r.close.failed,
              sendOut out ++ [.send (.body [] false), .publish .failed (some internal)])
          else if more then ({ r with sse := some sse }, [.send (.body out true)])
          else
            (r.close, [.send (.body out false),
              .publish (if sse.restorer.sawError then .failed else .ok) none])

/-- `send(message)`. -/
def send (drop : Bool) (r : Response F) (message : Message) : Response F × List Effect :=
  match r.mode, message with
  | .closed, _ => (r, [])
  | _, .start status headers => r.onStart calls drop status headers
  | .pass, .body body more => r.onPass body more
  | .unary, .body chunk more =>
      let r := { r with body := r.body ++ chunk }
      if more then (r, []) else r.finishUnary calls
  | .sse, .body chunk more => r.onSse chunk more
  | _, message => (r, [.send message])

/-- `app_failed()`: a restored tail of a stream still goes out. A `take` that raises ends it. -/
def appFailed (r : Response F) : Response F × List Effect :=
  match r.mode, r.sse with
  | .sse, some sse =>
      match sse.flush.1.take.1 with
      | .error _ => (r.close, [])
      | .ok out =>
          (if sse.flush.2.isSome then r.close.failed else r.close,
            sendOut out ++ [.publish .failed none])
  | _, _ => (r.close, [.publish .failed none])

/-! ## Runs -/

/-- What happens to a response: a call of `send`, an `Exception` of the app, and a `close` by
the ticket or at the end of the request. `last` is the await at which the call ends. -/
inductive Event where
  | send (message : Message) (last : ℕ)
  | raised (last : ℕ)
  | close

/-- The calls of a handler up to the await at which it ends. -/
def perform (handled : Response F × List Effect) (last : ℕ) : Response F :=
  { handled.1 with log := handled.1.log ++ handled.2.take (last + 1) }

def step (drop : Bool) (r : Response F) : Event → Response F
  | .send message last => perform (r.send calls drop message) last
  | .raised last => (perform r.appFailed last).close
  | .close => r.close

def run (drop : Bool) (r : Response F) (events : List Event) : Response F :=
  events.foldl (step calls drop) r

end Response

/-! ## What a client may be handed -/

/-- How far a response has come. -/
inductive Phase where
  | fresh
  | started
  | done
deriving DecidableEq

/-- The phase behind a message; there is none behind a message out of order. -/
def Phase.next : Phase → Message → Option Phase
  | .fresh, .start _ _ => some .started
  | .started, .body _ more => some (if more then .started else .done)
  | phase, .other _ => some phase
  | _, _ => none

/-- The phase behind a sequence of messages: one start, then bodies up to the final one. -/
def phase (messages : List Message) : Option Phase := messages.foldlM Phase.next .fresh

/-- A call that can belong to a success: no failure, and no start with another status. -/
def Effect.sound : Effect → Bool
  | .send (.start status _) => isSuccess status
  | .decide _ _ => false
  | _ => true

/-- What a client has got, and whether all calls so far were sound. -/
structure Client where
  phase : Phase
  sound : Bool
deriving DecidableEq

/-- A call that is in order. An `ok` is published behind a whole and sound response only. -/
def Client.next (c : Client) (call : Effect) : Option Client :=
  match call with
  | .send message => (c.phase.next message).map (⟨·, c.sound && call.sound⟩)
  | .decide _ _ => some ⟨c.phase, c.sound && call.sound⟩
  | .publish outcome _ =>
      if outcome = .ok ∧ c ≠ ⟨.done, true⟩ then none else some ⟨c.phase, c.sound && call.sound⟩

/-- What a client has got after some calls, if they came in order. -/
def client (log : List Effect) : Option Client := log.foldlM Client.next ⟨.fresh, true⟩

/-- The messages among the calls. -/
def sent (log : List Effect) : List Message :=
  log.filterMap fun
    | .send message => some message
    | _ => none

theorem client_append (log calls : List Effect) :
    client (log ++ calls) = (client log).bind fun c => calls.foldlM Client.next c :=
  List.foldlM_append

/-- Calls in order hand the client messages in order. -/
theorem client_eq {log : List Effect} {c : Client} (h : client log = some c) :
    phase (sent log) = some c.phase ∧ c.sound = log.all Effect.sound := by
  induction log using List.reverseRecOn generalizing c with
  | nil =>
    cases h
    exact ⟨rfl, rfl⟩
  | append_singleton log e ih =>
    rw [client_append] at h
    obtain ⟨b, hb, hnext⟩ := Option.bind_eq_some_iff.mp h
    replace hnext : b.next e = some c := by simpa using hnext
    obtain ⟨hphase, hsound⟩ := ih hb
    have hsent : sent (log ++ [e]) = sent log ++ sent [e] := List.filterMap_append
    rw [hsent, phase, List.foldlM_append, ← phase, hphase, List.all_append, ← hsound]
    cases e with
    | send m =>
      obtain ⟨p, hp, rfl⟩ := Option.map_eq_some_iff.mp hnext
      simpa [sent] using hp
    | decide o code =>
      cases hnext
      simp [sent]
    | publish o code =>
      rw [Client.next, Option.ite_none_left_eq_some] at hnext
      cases hnext.2
      simp [sent]

/-! ## The app's messages, the mode and the client -/

namespace Response

variable {r : Response F} {app app' : Phase} {c : Client} {calls : Callbacks F} {drop : Bool}

/-- Nothing is held for the ticket any more. -/
def Empty (r : Response F) : Prop :=
  r.registered = none ∧ r.mapping = none ∧ r.start = none ∧ r.sse = none ∧ r.tap = none ∧
    r.body = []

/-- What the mode says about the app and the client. -/
def Agrees (app : Phase) (c : Client) (r : Response F) : Prop :=
  match r.mode with
  | .unstarted => app = .fresh ∧ c = ⟨.fresh, true⟩
  | .pass => app = .started ∧ c = ⟨.started, isSuccess r.status⟩
  | .sse => app ≠ .fresh ∧ c = ⟨.started, true⟩
  | .unary => app = .started ∧ c = ⟨.fresh, true⟩ ∧ r.mapping.isSome = true ∧
      ∃ status headers, r.start = some (status, headers) ∧ isSuccess status = true
  | .closed => r.Empty

/-- The calls came in order, and the mode agrees with them. -/
def Tracks (app : Phase) (r : Response F) : Prop := ∃ c, client r.log = some c ∧ r.Agrees app c

theorem tracks_new (registered : Option Mapping) : Tracks .fresh (new registered : Response F) :=
  ⟨_, rfl, rfl, rfl⟩

theorem empty_close (r : Response F) : r.close.Empty := ⟨rfl, rfl, rfl, rfl, rfl, rfl⟩

theorem tracks_close (h : Tracks app r) : Tracks app' r.close := by
  obtain ⟨c, hlog, -⟩ := h
  exact ⟨c, hlog, empty_close r⟩

theorem tracks_closed (h : Tracks app r) (hmode : r.mode = .closed) : Tracks app' r := by
  obtain ⟨c, hlog, hagrees⟩ := h
  refine ⟨c, hlog, ?_⟩
  simp only [Agrees, hmode] at hagrees ⊢
  exact hagrees

/-- A handler that closes the response: its calls are in order up to wherever it ends. -/
theorem tracks_perform_closed {handled : Response F × List Effect} {d : Client}
    (hclose : handled.1.close = handled.1) (hlog : client handled.1.log = some c)
    (hcalls : handled.2.foldlM Client.next c = some d) (last : ℕ) :
    Tracks app (perform handled last) := by
  rw [← List.take_append_drop (last + 1) handled.2, List.foldlM_append] at hcalls
  obtain ⟨b, hb, -⟩ := Option.bind_eq_some_iff.mp hcalls
  refine ⟨b, ?_, ?_⟩
  · rw [perform, client_append, hlog]
    exact hb
  · rw [perform, ← hclose]
    exact empty_close handled.1

/-- A handler with at most one call. -/
theorem tracks_perform_single {handled : Response F × List Effect} {d : Client}
    (hone : handled.2.length ≤ 1) (hlog : client handled.1.log = some c)
    (hcalls : handled.2.foldlM Client.next c = some d) (hagrees : handled.1.Agrees app d)
    (last : ℕ) : Tracks app (perform handled last) := by
  refine ⟨d, ?_, hagrees⟩
  rw [perform, client_append, hlog, List.take_of_length_le (by omega)]
  exact hcalls

theorem perform_nil (r : Response F) (last : ℕ) : perform (r, []) last = r := by
  simp [perform]

theorem client_failed (hlog : client r.log = some c) :
    client r.failed.log = some ⟨c.phase, false⟩ := by
  rw [failed, client_append, hlog]
  simp [Client.next, Effect.sound]

/-- The fixed answer goes to a client that has got nothing. -/
theorem tracks_internalError (hlog : client r.log = some ⟨.fresh, true⟩) (last : ℕ) :
    Tracks app (perform r.failed.internalError last) :=
  tracks_perform_closed rfl (client_failed hlog) rfl last

/-- A start goes to a client that has got nothing. -/
theorem tracks_onStart (hlog : client r.log = some ⟨.fresh, true⟩) (status : ℤ)
    (headers : Headers) (last : ℕ) :
    Tracks .started (perform (r.onStart calls drop status headers) last) := by
  have hpass : ∀ (s : Response F) (kept : Headers), s.mode = .pass → s.status = status →
      s.log = r.log → Tracks .started (perform (s, [.send (.start status kept)]) last) := by
    intro s kept hmode hstatus hsame
    refine tracks_perform_single le_rfl (hsame ▸ hlog) rfl ?_ last
    simp [Agrees, hmode, hstatus, Effect.sound]
  unfold onStart
  cases r.registered with
  | none => exact hpass _ _ rfl rfl rfl
  | some mapping =>
    cases mapping with
    | nil => exact hpass _ _ rfl rfl rfl
    | cons pair pairs =>
      simp only
      by_cases hrestore : isSuccess status = true ∧
          TextScan.strip PyChar.isSpace (header headers contentEncoding) ∈ [[], "identity".py]
      · rw [if_pos hrestore]
        split_ifs
        · cases calls.restorer (pair :: pairs) drop with
          | error e => exact tracks_perform_closed rfl (client_failed (r := r) hlog) rfl last
          | ok sse =>
            refine tracks_perform_single le_rfl hlog rfl ?_ last
            simp [Agrees, Effect.sound, hrestore.1]
        · rw [perform_nil]
          exact ⟨_, hlog, rfl, rfl, rfl, status, headers, rfl, hrestore.1⟩
        · exact hpass _ _ rfl rfl rfl
      · rw [if_neg hrestore]
        exact hpass _ _ rfl rfl rfl

section

variable [Host F]

theorem tapped_eq (r : Response F) (body : Bytes) (more : Bool) :
    ∃ tap usage, (r.tapped body more).2 = { r with tap := tap, usage := usage } := by
  unfold tapped
  cases r.tap with
  | none => exact ⟨r.tap, r.usage, rfl⟩
  | some tap => exact ⟨_, _, rfl⟩

theorem tracks_onPass (hmode : r.mode = .pass)
    (hlog : client r.log = some ⟨.started, isSuccess r.status⟩) (body : Bytes) (more : Bool)
    (last : ℕ) :
    Tracks (if more then .started else .done) (perform (r.onPass body more) last) := by
  obtain ⟨tap, usage, hfed⟩ := tapped_eq r body more
  simp only [onPass, hfed]
  cases more with
  | true =>
    refine tracks_perform_single le_rfl hlog rfl ?_ last
    simp [Agrees, hmode, Effect.sound]
  | false =>
    -- the outcome goes by the status that the client was handed
    cases hsuccess : isSuccess r.status with
    | true => exact tracks_perform_closed rfl (hsuccess ▸ hlog) rfl last
    | false => exact tracks_perform_closed rfl (hsuccess ▸ hlog) rfl last

theorem tracks_finishUnary (hlog : client r.log = some ⟨.fresh, true⟩)
    (hmapping : r.mapping.isSome = true) {status : ℤ} {headers : Headers}
    (hstart : r.start = some (status, headers)) (hsuccess : isSuccess status = true) (last : ℕ) :
    Tracks app (perform (r.finishUnary calls) last) := by
  obtain ⟨mapping, hmapping⟩ := Option.isSome_iff_exists.mp hmapping
  simp only [finishUnary, hstart, hmapping]
  cases restoredBody calls mapping r.body with
  | error e => exact tracks_internalError (r := r.close) hlog last
  | ok body =>
    refine tracks_perform_closed rfl hlog (d := ⟨.done, true⟩) ?_ last
    simp [unaryCalls, Client.next, Phase.next, Effect.sound, hsuccess]

theorem foldlM_sendOut (out : Bytes) (effects : List Effect) (sound : Bool) :
    (sendOut out ++ effects).foldlM Client.next ⟨.started, sound⟩ =
      effects.foldlM Client.next ⟨.started, sound⟩ := by
  unfold sendOut
  split_ifs
  · rfl
  · simp [Client.next, Phase.next, Effect.sound]

theorem tracks_onSse (hmode : r.mode = .sse) (hlog : client r.log = some ⟨.started, true⟩)
    (chunk : Bytes) (more : Bool) (last : ℕ) (happ : app ≠ .fresh) :
    Tracks app (perform (r.onSse chunk more) last) := by
  -- a response that stays open, with the restorer behind the chunk
  have hopen : ∀ (sse : Option (SseRestorer F)) (effects : List Effect), effects.length ≤ 1 →
      effects.foldlM Client.next ⟨.started, true⟩ = some ⟨.started, true⟩ →
      Tracks app (perform ({ r with sse := sse }, effects) last) := by
    intro sse effects hone heffects
    refine tracks_perform_single hone hlog heffects ?_ last
    simp only [Agrees, hmode]
    exact ⟨happ, trivial⟩
  unfold onSse
  cases r.sse with
  | none => exact hopen r.sse [] zero_le_one rfl
  | some sse =>
    rcases htake : (fedRestorer sse chunk more).1.take with ⟨out, sse'⟩
    simp only [htake]
    cases out with
    | error e => exact hopen (some sse') [] zero_le_one rfl
    | ok out =>
      simp only
      split_ifs
      · refine tracks_perform_closed rfl (client_failed (r := r.close) hlog)
          (d := ⟨.done, false⟩) ?_ last
        rw [foldlM_sendOut]
        rfl
      · exact hopen (some sse') _ le_rfl rfl
      · exact tracks_perform_closed rfl hlog rfl last
      · exact tracks_perform_closed rfl hlog rfl last

theorem tracks_body (h : Tracks app r) {body : Bytes} {more : Bool}
    (happ : app.next (.body body more) = some app') (hmode : r.mode ≠ .closed) (last : ℕ) :
    Tracks app' (perform (r.send calls drop (.body body more)) last) := by
  obtain ⟨c, hlog, hagrees⟩ := h
  -- the app may not send a body before its start
  have hstarted : app = .started ∧ app' = if more then .started else .done := by
    cases app with
    | started => exact ⟨rfl, (Option.some.inj happ).symm⟩
    | fresh | done => cases happ
  obtain ⟨rfl, rfl⟩ := hstarted
  unfold send
  cases hm : r.mode with
  | closed => exact absurd hm hmode
  | unstarted =>
    simp only [Agrees, hm] at hagrees
    cases hagrees.1
  | pass =>
    simp only [Agrees, hm] at hagrees
    rw [hagrees.2] at hlog
    exact tracks_onPass hm hlog body more last
  | sse =>
    simp only [Agrees, hm] at hagrees
    rw [hagrees.2] at hlog
    refine tracks_onSse hm hlog body more last ?_
    cases more <;> decide
  | unary =>
    simp only [Agrees, hm] at hagrees
    obtain ⟨-, rfl, hmapping, status, headers, hstart, hsuccess⟩ := hagrees
    cases more with
    | true =>
      simp only [if_true, perform_nil]
      exact ⟨_, hlog, rfl, rfl, hmapping, status, headers, hstart, hsuccess⟩
    | false =>
      exact tracks_finishUnary (r := ⟨.unary, _, _, _, _, _, _, _, _, _⟩) hlog hmapping hstart
        hsuccess last

theorem tracks_send (h : Tracks app r) {m : Message} (happ : app.next m = some app')
    (last : ℕ) : Tracks app' (perform (r.send calls drop m) last) := by
  by_cases hmode : r.mode = .closed
  · have hsend : r.send calls drop m = (r, []) := by simp [send, hmode]
    rw [hsend, perform_nil]
    exact tracks_closed h hmode
  · cases m with
    | body body more => exact tracks_body h happ hmode last
    | start status headers =>
      have hsend : r.send calls drop (.start status headers) =
          r.onStart calls drop status headers := by
        cases hm : r.mode <;> simp_all [send]
      have hfresh : app = .fresh ∧ app' = .started := by
        cases app with
        | fresh => exact ⟨rfl, (Option.some.inj happ).symm⟩
        | started | done => cases happ
      obtain ⟨c, hlog, hagrees⟩ := h
      have hc : c = ⟨.fresh, true⟩ := by
        cases hm : r.mode <;> simp_all [Agrees]
      rw [hsend, hfresh.2]
      exact tracks_onStart (hc ▸ hlog) status headers last
    | other kind =>
      have hsend : r.send calls drop (.other kind) = (r, [.send (.other kind)]) := by
        cases hm : r.mode <;> simp_all [send]
      have hsame : app = app' := by
        cases app <;> exact Option.some.inj happ
      obtain ⟨c, hlog, hagrees⟩ := h
      rw [hsend, ← hsame]
      refine tracks_perform_single le_rfl hlog ?_ hagrees last
      obtain ⟨p, sound⟩ := c
      cases p <;> simp [Client.next, Phase.next, Effect.sound]

/-- The failure of the app ends the response. -/
theorem tracks_appFailed (h : Tracks app r) (last : ℕ) :
    Tracks app (perform r.appFailed last) := by
  have hclose : Tracks app r.close := tracks_close h
  obtain ⟨c, hlog, hagrees⟩ := h
  have hquiet : Tracks app (perform (r.close, [.publish .failed none]) last) :=
    tracks_perform_closed (d := ⟨c.phase, c.sound && true⟩) rfl hlog rfl last
  unfold appFailed
  cases hmode : r.mode with
  | unstarted | pass | unary | closed => exact hquiet
  | sse =>
    simp only [Agrees, hmode] at hagrees
    obtain ⟨-, rfl⟩ := hagrees
    cases r.sse with
    | none => exact hquiet
    | some sse =>
      simp only
      cases sse.flush.1.take.1 with
      | error e =>
        rw [perform_nil]
        exact hclose
      | ok out =>
        have hcalls : ∀ sound, (sendOut out ++ [Effect.publish .failed none]).foldlM Client.next
            ⟨.started, sound⟩ = some ⟨.started, sound && true⟩ := by
          intro sound
          rw [foldlM_sendOut]
          rfl
        cases sse.flush.2 with
        | none => exact tracks_perform_closed rfl hlog (hcalls true) last
        | some e =>
          exact tracks_perform_closed rfl (client_failed (r := r.close) hlog) (hcalls false) last

/-! ## Runs -/

/-- The message of an event, if the app sends one. -/
def Event.message? : Event → Option Message
  | .send message _ => some message
  | .raised _ | .close => none

/-- An app that sends its messages in order. -/
def InOrder (events : List Event) : Prop :=
  (phase (events.filterMap Event.message?)).isSome = true

theorem run_append (r : Response F) (before after : List Event) :
    run calls drop r (before ++ after) = run calls drop (run calls drop r before) after :=
  List.foldl_append

theorem tracks_run {events : List Event} {r : Response F} {app app' : Phase} (h : Tracks app r)
    (happ : (events.filterMap Event.message?).foldlM Phase.next app = some app') :
    Tracks app' (run calls drop r events) := by
  induction events generalizing r app with
  | nil =>
    cases happ
    exact h
  | cons e events ih =>
    cases e with
    | send m last =>
      obtain ⟨p, hp, hrest⟩ := Option.bind_eq_some_iff.mp happ
      exact ih (tracks_send h hp last) hrest
    | raised last => exact ih (tracks_close (tracks_appFailed h last)) happ
    | close => exact ih (tracks_close h) happ

theorem tracks_of_inOrder {events : List Event} (h : InOrder events) (calls : Callbacks F)
    (drop : Bool) (registered : Option Mapping) :
    ∃ app, Tracks app (run calls drop (new registered) events) := by
  obtain ⟨app, happ⟩ := Option.isSome_iff_exists.mp h
  exact ⟨app, tracks_run (tracks_new registered) happ⟩

/-- **The client gets messages in order**: one start, then bodies, none behind the final one.
It holds for every app that keeps this order itself, wherever a restoration, a send or the app
fails and whenever the response is closed. -/
theorem messages_inOrder (calls : Callbacks F) (drop : Bool) (registered : Option Mapping)
    (events : List Event) (h : InOrder events) :
    (phase (sent (run calls drop (new registered) events).log)).isSome = true := by
  obtain ⟨app, c, hlog, -⟩ := tracks_of_inOrder h calls drop registered
  rw [(client_eq hlog).1]
  rfl

/-- Callbacks that read every JSON body as `null` and leave it so. -/
def nullCalls : Callbacks Literal :=
  ⟨fun _ => .ok .null, fun j _ => .ok j, fun mapping drop => .ok (.new mapping drop)⟩

/-- A stream that is cut off by the failure of the app. -/
theorem messages_inOrder_raised :
    let events : List Event :=
      [.send (.start 200 [(contentType, Unicode.utf8 "text/event-stream".toList)]) 0,
        .send (.body (Unicode.utf8 "data: [N_".toList) true) 0, .raised 1, .send (.body [] false) 0]
    let r := run nullCalls false (new (some [("Ann".py, "[N_1]".py)])) events
    InOrder events ∧ (phase (sent r.log)).isSome = true := by
  intro events r
  have horder : InOrder events := rfl
  exact ⟨horder, messages_inOrder nullCalls false _ events horder⟩

/-- **An `ok` is published behind a delivered response only.** By then the client was handed
a whole response with a status of success, and no restoration had failed. -/
theorem published_ok_delivered (calls : Callbacks F) (drop : Bool) (registered : Option Mapping)
    (events : List Event) (h : InOrder events) {before after : List Effect} {code : Option String}
    (hlog : (run calls drop (new registered) events).log = before ++ .publish .ok code :: after) :
    phase (sent before) = some .done ∧ before.all Effect.sound = true := by
  obtain ⟨app, c, hclient, -⟩ := tracks_of_inOrder h calls drop registered
  rw [hlog, client_append] at hclient
  obtain ⟨b, hb, hnext⟩ := Option.bind_eq_some_iff.mp hclient
  obtain ⟨d, hd, -⟩ := Option.bind_eq_some_iff.mp hnext
  have hdone : b = ⟨.done, true⟩ := by
    rw [Client.next, Option.ite_none_left_eq_some] at hd
    by_contra hne
    exact hd.1 ⟨rfl, hne⟩
  obtain ⟨hphase, hsound⟩ := client_eq hb
  rw [hdone] at hphase hsound
  exact ⟨hphase, hsound.symm⟩

/-- A response without a mapping. -/
theorem published_ok_delivered_pass :
    let events : List Event := [.send (.start 201 []) 0, .send (.body [0x68] false) 1]
    let before : List Effect := [.send (.start 201 []), .send (.body [0x68] false)]
    (InOrder events ∧
      (run nullCalls false (new none) events).log = before ++ [.publish .ok none]) ∧
      phase (sent before) = some .done ∧ before.all Effect.sound = true := by
  intro events before
  have horder : InOrder events := rfl
  have hlog : (run nullCalls false (new none) events).log = before ++ [.publish .ok none] := rfl
  exact ⟨⟨horder, hlog⟩, published_ok_delivered nullCalls false none events horder hlog⟩

/-! ## The end of a response -/

theorem run_closed (hmode : r.mode = .closed) (events : List Event) :
    (run calls drop r events).mode = .closed ∧
      sent (run calls drop r events).log = sent r.log := by
  induction events generalizing r with
  | nil => exact ⟨hmode, rfl⟩
  | cons e events ih =>
    have hstep : (step calls drop r e).mode = .closed ∧
        sent (step calls drop r e).log = sent r.log := by
      cases e with
      | send m last => simp [step, send, hmode, perform]
      | raised last => simp [step, appFailed, hmode, perform, close, sent]
      | close => exact ⟨rfl, rfl⟩
    obtain ⟨hmode', hsent⟩ := ih hstep.1
    exact ⟨hmode', hsent.trans hstep.2⟩

/-- **Nothing outlives the response.** Once the client has got a whole response, the app has
failed or the response was closed, the store holds no mapping for the ticket, nothing is
buffered, and no later event sends anything. -/
theorem closed_released (calls : Callbacks F) (drop : Bool) (registered : Option Mapping)
    (events : List Event) (h : InOrder events)
    (hend : phase (sent (run calls drop (new registered) events).log) = some .done ∨
      ∃ e ∈ events, e.message? = none) :
    let r := run calls drop (new registered) events
    r.Empty ∧ ∀ later, sent (run calls drop r later).log = sent r.log := by
  intro r
  obtain ⟨app, c, hlog, hagrees⟩ := tracks_of_inOrder h calls drop registered
  have hclosed : r.mode = .closed := by
    rcases hend with hdone | ⟨e, he, hmessage⟩
    · -- in every other mode the client still waits
      rw [(client_eq hlog).1] at hdone
      cases hmode : r.mode <;> simp_all [Agrees, r]
    · obtain ⟨before, after, rfl⟩ := List.append_of_mem he
      let s : Response F := run calls drop (new registered) before
      have hclosed : (step calls drop s e).mode = .closed := by
        cases e with
        | send m last => cases hmessage
        | raised last | close => rfl
      rw [show r = _ from run_append (new registered) before (e :: after)]
      exact (run_closed hclosed after).1
  refine ⟨?_, fun later => (run_closed hclosed later).2⟩
  simpa only [Agrees, show (run calls drop (new registered) events).mode = .closed from hclosed]
    using hagrees

/-- A JSON response that is closed before its body ends. -/
theorem closed_released_close :
    let events : List Event :=
      [.send (.start 200 [(contentType, Unicode.utf8 "application/json".toList)]) 0,
        .send (.body [0x7b] true) 0, .close]
    let r := run nullCalls false (new (some [("Ann".py, "[N_1]".py)])) events
    (InOrder events ∧ .close ∈ events) ∧
      r.Empty ∧ ∀ later, sent (run nullCalls false r later).log = sent r.log := by
  intro events r
  have horder : InOrder events := rfl
  have hmem : .close ∈ events := by simp [events]
  exact ⟨⟨horder, hmem⟩,
    closed_released nullCalls false _ events horder (Or.inr ⟨.close, hmem, rfl⟩)⟩

/-! ## JSON bodies -/

/-- The calls that answer a JSON request, up to the one at which they end. -/
def answer (status : ℤ) (headers : Headers) (last : ℕ) : Except Raised Bytes → List Effect
  | .ok body => (unaryCalls status headers body).take (last + 1)
  | .error _ => .decide .failed (some internal) :: internalErrorCalls.take (last + 1)

theorem run_unary_chunks (hmode : r.mode = .unary) (chunks : List (Bytes × ℕ)) :
    run calls drop r (chunks.map fun c => .send (.body c.1 true) c.2) =
      { r with body := r.body ++ (chunks.map Prod.fst).flatten } := by
  induction chunks generalizing r with
  | nil => simp [run]
  | cons c chunks ih =>
    have hstep : step calls drop r (.send (.body c.1 true) c.2) =
        { r with body := r.body ++ c.1 } := by
      simp [step, send, hmode, perform]
    have hrest := ih (r := { r with body := r.body ++ c.1 }) hmode
    simp only [run, List.map_cons, List.foldl_cons, hstep] at hrest ⊢
    rw [hrest]
    simp

/-- **A JSON response goes out whole or not at all.** Nothing is sent before its last chunk.
Then the client is handed a start and one body: the chunks joined and restored, or the fixed
500 answer if anything failed. -/
theorem unary_whole (calls : Callbacks F) (drop : Bool) (mapping : Mapping) (status : ℤ)
    (headers : Headers) (hmapping : mapping ≠ []) (hsuccess : isSuccess status = true)
    (hidentity :
      TextScan.strip PyChar.isSpace (header headers contentEncoding) ∈ [[], "identity".py])
    (hjson : "json".py <:+: header headers contentType)
    (hstream : "text/event-stream".py.isPrefixOf (header headers contentType) = false)
    (first : ℕ) (chunks : List (Bytes × ℕ)) (body : Bytes) (last : ℕ) :
    let begun := .send (.start status headers) first ::
      chunks.map fun c => .send (.body c.1 true) c.2
    (run calls drop (new (some mapping)) begun).log = [] ∧
      (run calls drop (new (some mapping)) (begun ++ [.send (.body body false) last])).log =
        answer status headers last
          (restoredBody calls mapping ((chunks.map Prod.fst).flatten ++ body)) := by
  intro begun
  obtain ⟨pair, pairs, rfl⟩ := List.exists_cons_of_ne_nil hmapping
  let started : Response F := { (new (some (pair :: pairs)) : Response F) with
    mode := .unary, status := status, mapping := some (pair :: pairs),
    start := some (status, headers) }
  have hstart : step calls drop (new (some (pair :: pairs))) (.send (.start status headers) first) =
      started := by
    simp only [step, send, new, onStart]
    rw [if_pos ⟨hsuccess, hidentity⟩, if_neg (by rw [hstream]; exact Bool.false_ne_true),
      if_pos hjson, perform_nil]
    rfl
  have hbegun : run calls drop (new (some (pair :: pairs))) begun =
      { started with body := (chunks.map Prod.fst).flatten } := by
    rw [run, List.foldl_cons, hstart]
    exact run_unary_chunks rfl chunks
  rw [run_append, hbegun]
  refine ⟨rfl, ?_⟩
  have hlast : run calls drop { started with body := (chunks.map Prod.fst).flatten }
      [.send (.body body false) last] =
        perform (finishUnary calls
          { started with body := (chunks.map Prod.fst).flatten ++ body }) last := rfl
  rw [hlast]
  simp only [finishUnary, started, new]
  cases restoredBody calls (pair :: pairs) ((chunks.map Prod.fst).flatten ++ body) <;> rfl

/-- A body in two chunks that is read as `null`. -/
theorem unary_whole_null :
    let headers : Headers := [(contentType, Unicode.utf8 "application/json".toList)]
    let mapping : Mapping := [("Ann".py, "[N_1]".py)]
    let begun : List Event := [.send (.start 200 headers) 0, .send (.body [0x6e, 0x75] true) 0]
    "json".py <:+: header headers contentType ∧
      (run nullCalls false (new (some mapping)) begun).log = [] ∧
      (run nullCalls false (new (some mapping))
        (begun ++ [.send (.body [0x6c, 0x6c] false) 2])).log =
        unaryCalls 200 headers (Unicode.utf8 "null".toList) := by
  intro headers mapping begun
  have hjson : "json".py <:+: header headers contentType := by decide +kernel
  exact ⟨hjson, unary_whole nullCalls false mapping 200 headers (by simp [mapping]) rfl
    (by decide +kernel) hjson (by decide +kernel) 0 [([0x6e, 0x75], 0)] [0x6c, 0x6c] 2⟩

end

end Response

end CorpLlmGateway.RouteGate.Desanitize
