import CorpLlmGateway.Sanitizer.SseEvents

/-!
# Restoring Responses events

The model of `ResponsesStreamDesanitizer` for events that arrive as dictionaries. Each
output field that streams in deltas has a buffer of its own; what it holds goes out as
a delta event before the event that ends the field, its item or the stream. Every
emitted event that carries a sequence number is renumbered.
-/

namespace CorpLlmGateway.Sanitizer

open Json

variable {F : Type} [Host F]

/-! ## Keys -/

/-- A JSON value as a dictionary key: numbers are compared by value, `True` and `1.0`
are the key `1`. -/
inductive Key where
  | none
  | num (q : ℚ)
  /-- NaN and the infinities, by their names. -/
  | special (name : List Char)
  | str (s : PyStr)
deriving DecidableEq

/-- The key of a value; lists and objects are not hashable. -/
def Key.of? : Json F → Option Key
  | .null => some .none
  | .bool b => some (.num (if b then 1 else 0))
  | .int n => some (.num n)
  | .float f =>
      match Floats.value f with
      | some q => some (.num q)
      | Option.none => some (.special (Floats.repr f))
  | .str s => some (.str s)
  | _ => Option.none

/-- The key of `d.get(name)`. -/
def keyOf (fields : Fields F) (name : PyStr) : Except Raised Key :=
  match fields.get? name with
  | none => .ok .none
  | some j =>
      match Key.of? j with
      | some k => .ok k
      | none => .error .unhashable

/-- `value is not None and key == value`. -/
def Key.matches (k : Key) (value : Option (Json F)) : Bool :=
  !isNone value && value.bind Key.of? == some k

/-- The key of a logical output field. -/
structure StreamKey where
  eventType : PyStr
  itemId : Key
  outputIndex : Key
  contentIndex : Key
  summaryIndex : Key
deriving DecidableEq

/-! ## Tables -/

/-- `_RESPONSES_DELTA_EVENTS`: the field is always `delta`; whether originals are escaped. -/
def responsesDeltaEvents : List (PyStr × Bool) :=
  [("response.output_text.delta".py, false),
    ("response.reasoning_summary_text.delta".py, false),
    ("response.reasoning_text.delta".py, false), ("response.refusal.delta".py, false),
    ("response.function_call_arguments.delta".py, true),
    ("response.custom_tool_call_input.delta".py, false)]

/-- `_RESPONSES_DONE_EVENTS`: the delta events that a done event ends. -/
def responsesDoneEvents : List (PyStr × PyStr) :=
  [("response.output_text.done".py, "response.output_text.delta".py),
    ("response.reasoning_summary_text.done".py,
      "response.reasoning_summary_text.delta".py),
    ("response.reasoning_text.done".py, "response.reasoning_text.delta".py),
    ("response.refusal.done".py, "response.refusal.delta".py),
    ("response.function_call_arguments.done".py,
      "response.function_call_arguments.delta".py),
    ("response.custom_tool_call_input.done".py,
      "response.custom_tool_call_input.delta".py)]

/-- `_RESPONSES_EVENT_ID_FIELDS`. -/
def responsesEventIdFields : List PyStr :=
  ["item_id".py, "output_index".py, "content_index".py, "summary_index".py,
    "sequence_number".py]

/-- `_RESPONSES_TERMINAL_EVENTS`. -/
def responsesTerminalEvents : List PyStr :=
  ["response.completed".py, "response.failed".py, "response.incomplete".py,
    "error".py]

/-- `_RESPONSES_ITEM_DONE_EVENTS`. -/
def responsesItemDoneEvents : List PyStr :=
  ["response.output_item.done".py, "response.content_part.done".py]

/-- `_RESPONSES_DUPLICATE_EVENTS`. -/
def responsesDuplicateEvents : List PyStr :=
  ["response.completed".py, "response.failed".py, "response.incomplete".py,
    "response.output_item.added".py, "response.output_item.done".py,
    "response.content_part.added".py, "response.content_part.done".py]

/-- `_item_matcher(payload)`. -/
def itemMatcher (payload : Fields F) (key : StreamKey) : Bool :=
  let itemId :=
    match payload.get? "item".py with
    | some (.obj item) => Fields.get? item "id".py
    | _ => none
  let sameItem :=
    key.itemId.matches itemId || key.outputIndex.matches (payload.get? "output_index".py)
  if isNone (payload.get? "content_index".py) then sameItem
  else sameItem && key.contentIndex.matches (payload.get? "content_index".py)

/-- What is emitted: an event as a dictionary, or the JSON text of a tail. -/
inductive ResponsesItem (F : Type) where
  | dict (fields : Fields F)
  | text (s : PyStr)

/-- `_event_metadata(payload)`. -/
def eventMetadata (payload : Fields F) : Fields F :=
  responsesEventIdFields.filterMap fun k => (payload.get? k).map fun v => (k, v)

/-- `_stream_key(event_type, payload)`. -/
def streamKey (eventType : PyStr) (payload : Fields F) : Except Raised StreamKey := do
  let itemId ← keyOf payload "item_id".py
  let outputIndex ← keyOf payload "output_index".py
  let contentIndex ← keyOf payload "content_index".py
  let summaryIndex ← keyOf payload "summary_index".py
  .ok ⟨eventType, itemId, outputIndex, contentIndex, summaryIndex⟩

/-- The JSON text of a tail. -/
def tailEvent (eventType : PyStr) (metadata : Fields F) (tail : PyStr) :
    Except Raised (ResponsesItem F) := do
  let event := (Fields.update [("type".py, .str eventType)] metadata).set "delta".py
    (.str tail)
  let s ← dumpsText (.obj event)
  .ok (.text s)

/-! ## The desanitizer -/

/-- `ResponsesStreamDesanitizer`. -/
structure ResponsesStreamDesanitizer (F : Type) where
  mapping : List (Pair PyChar)
  streams : Dict StreamKey (StreamingDesanitizer PyChar)
  metadata : Dict StreamKey (Fields F)
  lastSequence : Option ℤ

namespace ResponsesStreamDesanitizer

def new (mapping : List (Pair PyChar)) : ResponsesStreamDesanitizer F :=
  ⟨mapping, .empty, .empty, none⟩

/-- The loop of `_flush_where(selected)`. -/
def flushEntries (selected : StreamKey → Bool) (r : ResponsesStreamDesanitizer F) :
    List (StreamKey × StreamingDesanitizer PyChar) →
      Except Raised (List (ResponsesItem F) × ResponsesStreamDesanitizer F)
  | [] => .ok ([], r)
  | (key, d) :: rest =>
      if selected key then do
        let metadata := (r.metadata.get? key).getD []
        let r := { r with streams := r.streams.erase key, metadata := r.metadata.erase key }
        let tail := d.flush.1
        let (items, r) ← flushEntries selected r rest
        if tail.isEmpty then .ok (items, r)
        else do
          let item ← tailEvent key.eventType metadata tail
          .ok (item :: items, r)
      else flushEntries selected r rest

/-- `_flush_where(selected)`. -/
def flushWhere (selected : StreamKey → Bool) (r : ResponsesStreamDesanitizer F) :
    Except Raised (List (ResponsesItem F) × ResponsesStreamDesanitizer F) :=
  r.flushEntries selected r.streams.entries

/-- `desanitize_responses_payload(payload, self._reverse)`, where the payload is an object. -/
def restorePayload (r : ResponsesStreamDesanitizer F) (payload : Fields F) :
    Except Raised (Fields F) :=
  (desanitizeResponsesFields (buildReverseSubstituter r.mapping) 1 payload).mapError .json

/-- A delta event. -/
def feedDelta (r : ResponsesStreamDesanitizer F) (payload : Fields F) (eventType : PyStr)
    (jsonEscape : Bool) :
    Except Raised (List (ResponsesItem F) × ResponsesStreamDesanitizer F) :=
  match payload.get? "delta".py with
  | some (.str value) => do
      let key ← streamKey eventType payload
      let escape := if jsonEscape then some jsonStringEscape else none
      let d := (r.streams.get? key).getD (.new r.mapping escape)
      let (out, d) ← d.feedText value
      let r := { r with
        streams := r.streams.insert key d
        metadata := r.metadata.insert key (eventMetadata payload) }
      .ok (if out.isEmpty then [] else [.dict (payload.set "delta".py (.str out))], r)
  | _ => .ok ([.dict payload], r)

/-- A done event. -/
def feedDone (r : ResponsesStreamDesanitizer F) (payload : Fields F) (deltaType : PyStr) :
    Except Raised (List (ResponsesItem F) × ResponsesStreamDesanitizer F) := do
  let key ← streamKey deltaType payload
  let metadata := (r.metadata.get? key).getD (eventMetadata payload)
  let r' := { r with streams := r.streams.erase key, metadata := r.metadata.erase key }
  let tails ←
    match r.streams.get? key with
    | none => .ok []
    | some d =>
        if d.flush.1.isEmpty then .ok []
        else (tailEvent deltaType metadata d.flush.1).map fun item => [item]
  let restored ← r.restorePayload payload
  .ok (tails ++ [.dict restored], r')

/-- Any other event: tails go out before what ends them. -/
def feedOther (r : ResponsesStreamDesanitizer F) (payload : Fields F) (eventType : PyStr) :
    Except Raised (List (ResponsesItem F) × ResponsesStreamDesanitizer F) := do
  let (tails, r) ←
    if eventType ∈ responsesTerminalEvents then r.flushWhere fun _ => true
    else if eventType ∈ responsesItemDoneEvents then r.flushWhere (itemMatcher payload)
    else .ok ([], r)
  if eventType ∈ responsesDuplicateEvents then
    let restored ← r.restorePayload payload
    .ok (tails ++ [.dict restored], r)
  else .ok (tails ++ [.dict payload], r)

/-- `_feed(chunk)`. -/
def feedEvent (r : ResponsesStreamDesanitizer F) (payload : Fields F) :
    Except Raised (List (ResponsesItem F) × ResponsesStreamDesanitizer F) :=
  match payload.get? "type".py with
  | some (.str eventType) =>
      match responsesDeltaEvents.lookup eventType with
      | some jsonEscape => r.feedDelta payload eventType jsonEscape
      | none =>
          match responsesDoneEvents.lookup eventType with
          | some deltaType => r.feedDone payload deltaType
          | none => r.feedOther payload eventType
  | _ => .ok ([.dict payload], r)

/-- The object and the sequence number of an emitted event. -/
def sequenceOf : ResponsesItem F → Option (Fields F × ℤ)
  | .dict fields =>
      match fields.get? "sequence_number".py with
      | some (.int n) => some (fields, n)
      | _ => none
  | .text s =>
      match (loads s : Except Json.Error (Json F)) with
      | .ok (.obj fields) =>
          match Fields.get? fields "sequence_number".py with
          | some (.int n) => some (fields, n)
          | _ => none
      | _ => none

/-- `_numbered(event)`. -/
def numbered (r : ResponsesStreamDesanitizer F) (item : ResponsesItem F) :
    Except Raised (ResponsesItem F × ResponsesStreamDesanitizer F) :=
  match sequenceOf item with
  | none => .ok (item, r)
  | some (fields, current) =>
      let number := (r.lastSequence.map (· + 1)).getD current
      let r := { r with lastSequence := some number }
      if number = current then .ok (item, r)
      else
        let fields := fields.set "sequence_number".py (.int number)
        match item with
        | .dict _ => .ok (.dict fields, r)
        | .text _ => do
            let s ← dumpsText (.obj fields)
            .ok (.text s, r)

/-- `_renumber(events)`. -/
def renumber (r : ResponsesStreamDesanitizer F) : List (ResponsesItem F) →
    Except Raised (List (ResponsesItem F) × ResponsesStreamDesanitizer F)
  | [] => .ok ([], r)
  | item :: items => do
      let (item, r) ← r.numbered item
      let (items, r) ← r.renumber items
      .ok (item :: items, r)

/-- `feed(chunk)`. -/
def feed (r : ResponsesStreamDesanitizer F) (payload : Fields F) :
    Except Raised (List (ResponsesItem F) × ResponsesStreamDesanitizer F) := do
  let (items, r) ← r.feedEvent payload
  r.renumber items

/-- `flush()`. -/
def flush (r : ResponsesStreamDesanitizer F) :
    Except Raised (List (ResponsesItem F) × ResponsesStreamDesanitizer F) := do
  let (items, r) ← r.flushWhere fun _ => true
  r.renumber items

end ResponsesStreamDesanitizer

end CorpLlmGateway.Sanitizer
