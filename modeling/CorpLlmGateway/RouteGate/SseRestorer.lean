import CorpLlmGateway.Sanitizer.ResponsesStream
import CorpLlmGateway.Sanitizer.SseStream

/-!
# Restoring a response stream

`_SseRestorer` of `route_gate/desanitize_middleware.py`: complete events are cut off the
decoded stream, Responses events go to their own adapter, all others to
`SseStreamDesanitizer`. Token counts are read on the way.

* `framing_independent` — what goes out does not depend on how the network cut the
  stream, neither here nor in `SseStreamDesanitizer`.
-/

namespace CorpLlmGateway.RouteGate

open Json Framing Sanitizer PyStr

variable {F : Type} [Host F]

/-! ## Token counts -/

/-- `_Usage`. -/
structure Usage where
  prompt : Option ℤ
  completion : Option ℤ
deriving DecidableEq, Repr

namespace Usage

/-- `_count(usage, *names)`. -/
def count (usage : Fields F) (names : List PyStr) : Option ℤ :=
  names.findSome? fun name =>
    match usage.get? name with
    | some (.int n) => if 0 ≤ n then some n else none
    | _ => none

/-- `_take(usage)`. -/
def take (u : Usage) (usage : Fields F) : Usage where
  prompt := (count usage ["prompt_tokens".py, "input_tokens".py]).or u.prompt
  completion := (count usage ["completion_tokens".py, "output_tokens".py]).or u.completion

/-- The usage object of a holder. -/
def takeFrom (u : Usage) : Option (Json F) → Usage
  | some (.obj holder) =>
      match Fields.get? holder "usage".py with
      | some (.obj usage) => u.take usage
      | _ => u
  | _ => u

/-- `observe(payload)`. -/
def observe (u : Usage) (payload : Json F) : Usage :=
  match payload with
  | .obj fields =>
      ((u.takeFrom (some payload)).takeFrom (Fields.get? fields "message".py)).takeFrom
        (Fields.get? fields "response".py)
  | _ => u

end Usage

/-- `_empty_choice(choice)`. -/
def emptyChoice : Json F → Bool
  | .obj choice =>
      isNone (Fields.get? choice "finish_reason".py) &&
        isNone (Fields.get? choice "logprobs".py) &&
        match Fields.get? choice "delta".py with
        | none | some .null => true
        | some (.obj delta) => delta.all fun e => isNone (some e.2)
        | _ => false
  | _ => false

/-- `_injected_usage_artifact(payload)`. -/
def injectedUsageArtifact : Json F → Bool
  | .obj payload =>
      isNone (Fields.get? payload "provider_specific_fields".py) &&
        match Fields.get? payload "choices".py with
        | some (.arr choices) => choices.all emptyChoice
        | _ => false
  | _ => false

/-! ## Events -/

/-- `_data_field(event)`. -/
def dataField (event : PyStr) : Option PyStr :=
  let data := ((splitlines event).filter isDataLine).map fun line =>
    (line.drop 5).dropWhile PyChar.isSpace
  if data.isEmpty then none else some ("\n".py.intercalate data)

/-- `_json_or_none(data)`: `None` is the value `null`. -/
def jsonOrNone (data : Option PyStr) : Json F :=
  match data with
  | none => .null
  | some s =>
      match (loads s : Except Json.Error (Json F)) with
      | .ok j => j
      | .error _ => .null

/-- `_frame(payload, with_event_line)`. -/
def frame (payload : Fields F) (withEventLine : Bool) : Except Raised PyStr := do
  let data ← (dumps ⟨false, true⟩ (.obj payload)).mapError .json
  let kind :=
    match payload.get? "type".py with
    | some j => strOfValue j
    | none => "None".py
  let head := if withEventLine then "event: ".py ++ kind ++ "\n".py else []
  .ok (head ++ "data: ".py ++ data ++ "\n\n".py)

/-- The frame of an emitted Responses event. -/
def frameItem (withEventLine : Bool) : ResponsesItem F → Except Raised PyStr
  | .dict fields => frame fields withEventLine
  | .text s =>
      match (loads s : Except Json.Error (Json F)) with
      | .ok (.obj fields) => frame fields withEventLine
      | .ok _ => .error .attribute
      | .error e => .error (.json e)

/-- `_text(item)`. -/
def textOf : Chunk → PyStr
  | .bytes b => ofText (Utf8.decode b)
  | .str s => s

/-- The state of a `_SseRestorer` behind its framing. -/
structure Restorer (F : Type) where
  dropUsageChunk : Bool
  events : SseStreamDesanitizer F
  responses : ResponsesStreamDesanitizer F
  eventLines : Bool
  sawError : Bool
  usage : Usage

namespace Restorer

def new (mapping : List (Pair PyChar)) (dropUsageChunk : Bool) : Restorer F :=
  ⟨dropUsageChunk, .new mapping, .new mapping, false, false, ⟨none, none⟩⟩

/-- `_responses_tails()`. -/
def responsesTails (r : Restorer F) : Except Raised (List PyStr × Restorer F) := do
  let (items, responses) ← r.responses.flush
  let frames ← items.mapM (frameItem r.eventLines)
  .ok (frames, { r with responses := responses })

/-- A Responses event. -/
def responsesEvent (r : Restorer F) (event eventType : PyStr) (payload : Fields F) :
    Except Raised (List PyStr × Restorer F) := do
  let withEventLine := (splitlines event).any fun line => "event:".py.isPrefixOf line
  let r := { r with
    eventLines := r.eventLines || withEventLine
    sawError := r.sawError || eventType == "response.failed".py }
  let (items, responses) ← r.responses.feed payload
  let frames ← items.mapM (frameItem withEventLine)
  .ok (frames, { r with responses := responses })

/-- `str(payload.get("type") or "")`, of which only a string can start with `response.`. -/
def eventType (payload : Json F) : PyStr :=
  match payload with
  | .obj fields =>
      match Fields.get? fields "type".py with
      | some (.str t) => t
      | _ => []
  | _ => []

/-- The adapter of an event. -/
def adapt (r : Restorer F) (event : PyStr) (payload : Json F) :
    Except Raised (List PyStr × Restorer F) :=
  match payload with
  | .obj fields =>
      if "response.".py.isPrefixOf (eventType payload) then
        r.responsesEvent event (eventType payload) fields
      else do
        let (items, events) ← r.events.feed (.str event)
        .ok (items.map textOf, { r with events := events })
  | _ => do
      let (items, events) ← r.events.feed (.str event)
      .ok (items.map textOf, { r with events := events })

/-- `_event(event)`. -/
def event (r : Restorer F) (event : PyStr) : Except Raised (List PyStr × Restorer F) := do
  let data := dataField event
  let payload : Json F := jsonOrNone data
  let r := { r with usage := r.usage.observe payload }
  if r.dropUsageChunk && injectedUsageArtifact payload then .ok ([], r)
  else
    let done := data == some "[DONE]".py
    let (head, r) ←
      if done || isStreamErrorEvent payload then
        ({ r with sawError := r.sawError || !done } : Restorer F).responsesTails
      else .ok ([], r)
    let (out, r) ← r.adapt event payload
    .ok (head ++ out, r)

end Restorer

/-! ## Framing -/

/-- `_SseRestorer`: the bytes its decoder holds, the text of an incomplete event, and the
events that wait for `take`. -/
structure SseRestorer (F : Type) where
  utf8 : Utf8.Bytes
  buffer : Text
  ready : List PyStr
  restorer : Restorer F

namespace SseRestorer

def new (mapping : List (Pair PyChar)) (dropUsageChunk : Bool) : SseRestorer F :=
  ⟨[], [], [], .new mapping dropUsageChunk⟩

/-- An event that is restored, or the failure it raises. What a failing event did to the
adapters is not kept: after a failure only `take` is called. -/
def extend (s : SseRestorer F) (result : Except Raised (List PyStr × Restorer F)) :
    SseRestorer F × Option Raised :=
  match result with
  | .ok (out, r) => ({ s with ready := s.ready ++ out, restorer := r }, none)
  | .error e => (s, some e)

/-- The loop of `feed`, at most `fuel` times. -/
def feedLoop : ℕ → SseRestorer F → SseRestorer F × Option Raised
  | 0, s => (s, none)
  | fuel + 1, s =>
      match readEvent s.buffer with
      | none => (s, none)
      | some (event, n) =>
          match { s with buffer := s.buffer.drop n }.extend (s.restorer.event event) with
          | (s, none) => feedLoop fuel s
          | failed => failed

/-- `feed(chunk)`: the restorer behind it, and what it raised. -/
def feed (s : SseRestorer F) (chunk : Utf8.Bytes) : SseRestorer F × Option Raised :=
  let decoded := drain Utf8.decodeOne (s.utf8 ++ chunk)
  let buffer := s.buffer ++ decoded.1
  feedLoop buffer.length { s with utf8 := decoded.2, buffer := buffer }

/-- The adapters' own buffers, at the end of the stream. -/
def flushTails (s : SseRestorer F) : SseRestorer F × Option Raised :=
  match s.extend s.restorer.responsesTails with
  | (s, none) =>
      s.extend (s.restorer.events.flush.map fun p =>
        (p.1.map textOf, { s.restorer with events := p.2 }))
  | failed => failed

/-- `flush()`. -/
def flush (s : SseRestorer F) : SseRestorer F × Option Raised :=
  let buffer := s.buffer ++ Utf8.decode s.utf8
  let s := { s with utf8 := [], buffer := [] }
  if buffer.isEmpty then s.flushTails
  else
    match s.extend (s.restorer.event (ofText buffer)) with
    | (s, none) => s.flushTails
    | failed => failed

/-- `take()`. -/
def take (s : SseRestorer F) : Except Raised Utf8.Bytes × SseRestorer F :=
  (encodeText s.ready.flatten, { s with ready := [] })

/-- What is ready after a step that did not raise. -/
def taken (result : SseRestorer F × Option Raised) :
    Except Raised (Utf8.Bytes × SseRestorer F) :=
  match result with
  | (s, none) => s.take.1.map fun out => (out, s.take.2)
  | (_, some e) => .error e

/-- Every chunk, then the flush: the concatenated bytes. -/
def stream (F : Type) [Host F] (mapping : List (Pair PyChar)) (dropUsageChunk : Bool)
    (chunks : List Utf8.Bytes) : Except Raised Utf8.Bytes := do
  let (out, s) ← feedList (fun s chunk => taken (s.feed chunk))
    (new mapping dropUsageChunk : SseRestorer F) chunks
  let (tail, _) ← taken s.flush
  .ok (out ++ tail)

/-! ## The restorer as a pipe -/

/-- Decoding in front of the restorer. -/
abbrev RestorerPipe (F : Type) := Pipe UInt8 Char (Restorer F)

/-- The restorer that a pipe is, from which everything ready has been taken. -/
def ofPipe (p : RestorerPipe F) : SseRestorer F := ⟨p.held, p.buffer, [], p.state⟩

/-- The loop hands over the events of the buffer. -/
theorem feedLoop_eq (fuel : ℕ) (s : SseRestorer F) :
    match consumeFuel readEvent Restorer.event fuel s.buffer s.restorer with
    | .ok (outs, buffer, r) =>
        feedLoop fuel s = (⟨s.utf8, buffer, s.ready ++ outs, r⟩, none)
    | .error e => (feedLoop fuel s).2 = some e := by
  induction fuel generalizing s with
  | zero => simp [consumeFuel, feedLoop]
  | succ fuel ih =>
    simp only [consumeFuel, feedLoop]
    cases readEvent s.buffer with
    | none => simp
    | some x =>
      simp only [bind, Except.bind]
      cases s.restorer.event x.1 with
      | error e => rfl
      | ok q =>
        have hrest := ih ⟨s.utf8, s.buffer.drop x.2, s.ready ++ q.1, q.2⟩
        simp only [extend]
        cases hc : consumeFuel readEvent Restorer.event fuel (s.buffer.drop x.2) q.2 with
        | error e =>
          rw [hc] at hrest
          exact hrest
        | ok r =>
          rw [hc] at hrest
          simpa using hrest

theorem encode_flatten_append (a b : List PyStr) :
    PyStr.encode (a ++ b).flatten =
      (PyStr.encode a.flatten).bind fun x => (PyStr.encode b.flatten).map (x ++ ·) := by
  rw [List.flatten_append, PyStr.encode_append]

theorem toOption_encodeText (text : PyStr) : (encodeText text).toOption = PyStr.encode text := by
  unfold encodeText
  cases PyStr.encode text <;> rfl

/-- One chunk of a response. -/
theorem toOption_taken_feed (p : RestorerPipe F) (chunk : Utf8.Bytes) :
    (taken ((ofPipe p).feed chunk)).toOption =
      (pipeFeed Utf8.decodeOne readEvent Restorer.event p chunk).toOption.bind fun q =>
        (PyStr.encode q.1.flatten).map fun out => (out, ofPipe q.2) := by
  have hloop := feedLoop_eq (p.buffer ++ (drain Utf8.decodeOne (p.held ++ chunk)).1).length
    (⟨(drain Utf8.decodeOne (p.held ++ chunk)).2,
      p.buffer ++ (drain Utf8.decodeOne (p.held ++ chunk)).1, [], p.state⟩ : SseRestorer F)
  simp only [pipeFeed, consume, bind, Except.bind]
  cases hc : consumeFuel readEvent Restorer.event
      (p.buffer ++ (drain Utf8.decodeOne (p.held ++ chunk)).1).length
      (p.buffer ++ (drain Utf8.decodeOne (p.held ++ chunk)).1) p.state with
  | error e =>
    rw [hc] at hloop
    have hfeed : ((ofPipe p).feed chunk).2 = some e := hloop
    rcases hs : (ofPipe p).feed chunk with ⟨s, failure⟩
    rw [hs] at hfeed
    cases hfeed
    rfl
  | ok q =>
    rw [hc] at hloop
    have hfeed : (ofPipe p).feed chunk = _ := hloop
    simp only [hfeed, taken, take, toOption_map, toOption_encodeText]
    rfl

/-- **The bytes of a response** are those of the pipe, fed with everything at once; or both
raise. -/
theorem stream_eq (mapping : List (Pair PyChar)) (dropUsageChunk : Bool)
    (chunks : List Utf8.Bytes) :
    (stream F mapping dropUsageChunk chunks).toOption =
      (pipeFeed Utf8.decodeOne readEvent Restorer.event
        (⟨[], [], .new mapping dropUsageChunk⟩ : RestorerPipe F) chunks.flatten).toOption.bind
          fun p => (PyStr.encode p.1.flatten).bind fun out =>
            (taken (ofPipe p.2).flush).toOption.map fun q => out ++ q.1 := by
  have hwait : Pipe.Waiting Utf8.decodeOne readEvent
      (⟨[], [], .new mapping dropUsageChunk⟩ : RestorerPipe F) :=
    ⟨Utf8.decodeOne_nil, readEvent_nil⟩
  have hall := pipeAll_eq (f := Restorer.event) Utf8.decodeOne_stable readEvent_stable hwait chunks
  have hnil : PyStr.encode ([] : List PyStr).flatten = some [] := by decide
  have hfeed := feedList_through (g := fun (s : SseRestorer F) chunk => taken (s.feed chunk))
    (fun texts : List PyStr => PyStr.encode texts.flatten) hnil encode_flatten_append
    toOption_taken_feed
    (⟨[], [], .new mapping dropUsageChunk⟩ : RestorerPipe F) chunks
  rw [← pipeAll, hall] at hfeed
  have hstream : stream F mapping dropUsageChunk chunks =
      (feedList (fun s chunk => taken (s.feed chunk))
        (ofPipe ⟨[], [], .new mapping dropUsageChunk⟩ : SseRestorer F) chunks).bind fun p =>
          (taken p.2.flush).map fun q => p.1 ++ q.1 := by
    simp only [stream, bind, Except.bind]
    rfl
  rw [hstream, toOption_bind, hfeed]
  simp only [toOption_map, Option.bind_assoc, Option.bind_map]
  rfl

end SseRestorer

/-- **Framing does not depend on the network**: two ways of cutting a byte stream into
chunks give the same bytes, in the response path and in `SseStreamDesanitizer`; if an
event raises, something raises in both. -/
theorem framing_independent (F : Type) [Host F] (mapping : List (Pair PyChar))
    (dropUsageChunk : Bool) (bytes : Utf8.Bytes) (chunks chunks' : List Utf8.Bytes)
    (hcut : chunks.flatten = bytes) (hcut' : chunks'.flatten = bytes) :
    (SseRestorer.stream F mapping dropUsageChunk chunks).toOption =
        (SseRestorer.stream F mapping dropUsageChunk chunks').toOption ∧
      (SseStreamDesanitizer.stream F mapping (chunks.map .bytes)).toOption =
        (SseStreamDesanitizer.stream F mapping (chunks'.map .bytes)).toOption := by
  constructor
  · rw [SseRestorer.stream_eq, SseRestorer.stream_eq, hcut, hcut']
  · rw [SseStreamDesanitizer.stream_eq, SseStreamDesanitizer.stream_eq, hcut, hcut']

/-- A boundary and a character of two bytes, each cut in the middle. -/
theorem framing_independent_split :
    (SseRestorer.stream Literal [("bob".py, "[N_1]".py)] false
          [Unicode.utf8 "data: \"".toList ++ [0xC3], 0xA9 :: Unicode.utf8 "\"\r\n\r".toList,
            Unicode.utf8 "\n".toList]).toOption =
        (SseRestorer.stream Literal [("bob".py, "[N_1]".py)] false
          [Unicode.utf8 "data: \"é\"\r\n\r\n".toList]).toOption ∧
      (SseStreamDesanitizer.stream Literal [("bob".py, "[N_1]".py)]
          ([Unicode.utf8 "data: \"".toList ++ [0xC3], 0xA9 :: Unicode.utf8 "\"\r\n\r".toList,
            Unicode.utf8 "\n".toList].map .bytes)).toOption =
        (SseStreamDesanitizer.stream Literal [("bob".py, "[N_1]".py)]
          ([Unicode.utf8 "data: \"é\"\r\n\r\n".toList].map .bytes)).toOption :=
  framing_independent Literal _ _ (Unicode.utf8 "data: \"é\"\r\n\r\n".toList) _ _ (by decide)
    (by decide)

end CorpLlmGateway.RouteGate
