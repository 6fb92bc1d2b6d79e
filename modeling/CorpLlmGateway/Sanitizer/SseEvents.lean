import CorpLlmGateway.Sanitizer.ChatChoice
import CorpLlmGateway.Sanitizer.Sse

/-!
# Restoring one event of a stream

The event level of `SseStreamDesanitizer`: what it emits for one complete SSE event and
how its buffers change. Anthropic content blocks have one buffer each, OpenAI chat
choices those of `ChatChoice`; every other event passes as it is. Events are texts here:
the encoding of what is emitted belongs to the framing.
-/

namespace CorpLlmGateway.Sanitizer

open Json

variable {F : Type} [Host F]

/-- The type of an Anthropic content block that is rewritten. -/
inductive BlockType where
  | text
  | toolUse
deriving DecidableEq, Repr

/-- The buffers of a `SseStreamDesanitizer`. -/
structure SseEvents (F : Type) where
  mapping : List (Pair PyChar)
  blockDesanitizers : Dict ℤ (StreamingDesanitizer PyChar)
  blockTypes : Dict ℤ BlockType
  chat : Dict ℤ ChatChoice
  chatMeta : Fields F

/-- The text of an object in an event: `json.dumps(obj, ensure_ascii=False)`. -/
def dumpsText (j : Json F) : Except Raised PyStr := (dumps plainStyle j).mapError .json

/-- The object of `_make_text_delta_event` and `_make_input_json_delta_event`. -/
def blockDelta (kind : BlockType) (index : ℤ) (tail : PyStr) : Json F :=
  let delta : Fields F :=
    match kind with
    | .text => [("type".py, .str "text_delta".py), ("text".py, .str tail)]
    | .toolUse =>
        [("type".py, .str "input_json_delta".py), ("partial_json".py, .str tail)]
  .obj [("type".py, .str "content_block_delta".py), ("index".py, .int index),
    ("delta".py, .obj delta)]

/-- A `content_block_delta` event without its boundary. -/
def makeDeltaEvent (F : Type) [Host F] (kind : BlockType) (index : ℤ) (tail : PyStr) :
    Except Raised PyStr := do
  let data ← dumpsText (blockDelta kind index tail : Json F)
  .ok ("event: content_block_delta\ndata: ".py ++ data)

/-- `_CHAT_META_KEYS`. -/
def chatMetaKeys : List PyStr :=
  ["id".py, "object".py, "created".py, "model".py, "system_fingerprint".py,
    "service_tier".py]

/-- `is_stream_error_event(obj)`. -/
def isStreamErrorEvent : Json F → Bool
  | .obj fields =>
      (match Fields.get? fields "type".py with
        | some (.str t) => t == "error".py
        | _ => false) ||
      (((Fields.get? fields "error".py).any truthy) && !Fields.has fields "choices".py)
  | _ => false

/-- `value or {}`, when it is an object. -/
def objectOr : Option (Json F) → Option (Fields F)
  | some (.obj fields) => some fields
  | some j => if j.truthy then none else some []
  | none => some []

/-- `value is None`. -/
def isNone : Option (Json F) → Bool
  | some .null | none => true
  | some _ => false

/-- What `_rewrite_choice` returns: the choice itself, nothing, or a rewritten copy. -/
inductive Rewritten (F : Type) where
  | same
  | dropped
  | new (choice : Json F)

def Rewritten.isSame : Rewritten F → Bool
  | .same => true
  | _ => false

/-- What goes out for a choice. -/
def Rewritten.out (choice : Json F) : Rewritten F → Option (Json F)
  | .same => some choice
  | .dropped => none
  | .new choice => some choice

/-- The parts of a delta that are rewritten: the content, the tool calls, and the function
call with its arguments. -/
structure DeltaParts (F : Type) where
  content : Option PyStr
  calls : Option (List (Json F))
  functionCall : Option (Fields F × PyStr)

def DeltaParts.of (delta : Fields F) : DeltaParts F where
  content :=
    match delta.get? "content".py with
    | some (.str s) => some s
    | _ => none
  calls :=
    match delta.get? "tool_calls".py with
    | some (.arr calls) => some calls
    | _ => none
  functionCall :=
    match delta.get? "function_call".py with
    | some (.obj fn) =>
        match Fields.get? fn "arguments".py with
        | some (.str arguments) => some (fn, arguments)
        | _ => none
    | _ => none

def DeltaParts.isEmpty (p : DeltaParts F) : Bool :=
  p.content.isNone && p.calls.isNone && p.functionCall.isNone

/-- The index of the first tool call that has a usable one. -/
def firstIndex (calls : List (Json F)) : Option ℤ :=
  calls.findSome? fun tc =>
    match tc with
    | .obj call => coerceToolIndex (getD call "index".py (.int 0))
    | _ => none

/-- Feed the content of a delta. -/
def feedContent (mapping : List (Pair PyChar)) (content : Option PyStr) (delta : Fields F) (c : ChatChoice) :
    Except Raised (Fields F × ChatChoice) :=
  match content with
  | none => .ok (delta, c)
  | some s => do
      let (out, d) ← (c.content.getD (.new mapping none)).feedText s
      .ok (delta.set "content".py (.str out), { c with content := some d })

/-- Feed the tool calls of a delta. -/
def feedCalls (calls : Option (List (Json F))) (delta : Fields F) (c : ChatChoice) :
    Except Raised (Fields F × ChatChoice) :=
  match calls with
  | none => .ok (delta, c)
  | some tcs => do
      let (tcs, c) ← c.feedToolCalls tcs
      .ok (delta.set "tool_calls".py (.arr tcs), c)

/-- Feed the function call of a delta. -/
def feedFunction (mapping : List (Pair PyChar)) (fc : Option (Fields F × PyStr)) (delta : Fields F)
    (c : ChatChoice) : Except Raised (Fields F × ChatChoice) :=
  match fc with
  | none => .ok (delta, c)
  | some (fn, arguments) => do
      let (out, d) ← (c.functionCall.getD (.new mapping (some jsonStringEscape))).feedText arguments
      .ok (delta.set "function_call".py (.obj (fn.set "arguments".py (.str out))),
        { c with functionCall := some d })

/-- The tail that is due before the tool calls of a delta. -/
def tailBeforeCalls (calls : Option (List (Json F))) (c : ChatChoice) : Option Tail × ChatChoice :=
  match calls.bind firstIndex with
  | none => (none, c)
  | some first =>
      if c.toolIndex = some first then (none, c)
      else (some c.flushBeforeToolCall.1, c.flushBeforeToolCall.2)

namespace SseEvents

def new (mapping : List (Pair PyChar)) : SseEvents F := ⟨mapping, .empty, .empty, .empty, []⟩

/-! ## Tails -/

/-- `_chat_tail(index, delta)`. -/
def chatTail (st : SseEvents F) (index : ℤ) (tail : Tail) : Except Raised PyStr := do
  let choice : Json F :=
    .obj [("index".py, .int index), ("delta".py, .obj tail.delta),
      ("finish_reason".py, .null)]
  let data ← dumpsText (.obj (st.chatMeta.set "choices".py (.arr [choice])))
  .ok ("data: ".py ++ data ++ "\n\n".py)

/-- The tails of the content blocks. -/
def blockTails (st : SseEvents F) : List (ℤ × StreamingDesanitizer PyChar) → Except Raised (List PyStr)
  | [] => .ok []
  | (index, d) :: rest => do
      let tail := d.flush.1
      let tails ← st.blockTails rest
      if tail.isEmpty then .ok tails
      else do
        let event ← makeDeltaEvent F ((st.blockTypes.get? index).getD .text) index tail
        .ok ((event ++ "\n\n".py) :: tails)

/-- The tails of the choices. -/
def chatTails (st : SseEvents F) : List ℤ → Except Raised (List PyStr)
  | [] => .ok []
  | index :: rest => do
      let tails ← st.chatTails rest
      match st.chat.get? index with
      | none => .ok tails
      | some c =>
          if c.flush.isEmpty then .ok tails
          else do
            let event ← st.chatTail index c.flush
            .ok (event :: tails)

/-- `_held_tails()`. -/
def heldTails (st : SseEvents F) : Except Raised (List PyStr × SseEvents F) := do
  let blocks ← st.blockTails st.blockDesanitizers.entries
  let choices ← st.chatTails (st.chat.keys.insertionSort (· ≤ ·))
  .ok (blocks ++ choices,
    { st with blockDesanitizers := .empty, blockTypes := .empty, chat := .empty })

/-! ## Chat -/

/-- The rewriting of a choice whose delta carries text, or which finishes. -/
def rewriteDelta (st : SseEvents F) (choice delta : Fields F) (index : ℤ) (finishing : Bool) :
    Except Raised (Rewritten F × List PyStr × SseEvents F) := do
  let parts := DeltaParts.of delta
  let c := (st.chat.get? index).getD (.new st.mapping)
  let (pending, c) := tailBeforeCalls parts.calls c
  let before ←
    match pending with
    | none => .ok []
    | some tail => if tail.isEmpty then .ok [] else (st.chatTail index tail).map fun s => [s]
  let (newDelta, c) ← feedContent st.mapping parts.content delta c
  let (newDelta, c) ← feedCalls parts.calls newDelta c
  let (newDelta, c) ← feedFunction st.mapping parts.functionCall newDelta c
  if finishing then
    let newDelta ← mergeTail newDelta c.flush
    .ok (.new (.obj (choice.set "delta".py (.obj newDelta))), before,
      { st with chat := st.chat.erase index })
  else
    let st := { st with chat := st.chat.insert index c }
    let held :=
      parts.content.isSome && newDelta.all (fun e => e.1 == "content".py) &&
        (newDelta.get? "content".py).all (fun j => !j.truthy) &&
        isNone (choice.get? "logprobs".py)
    .ok (if held then .dropped else .new (.obj (choice.set "delta".py (.obj newDelta))),
      before, st)

/-- The event of the tail that is due before the calls of a delta. -/
def pendingEvents (st : SseEvents F) (index : ℤ) : Option Tail → Except Raised (List PyStr)
  | none => .ok []
  | some tail => if tail.isEmpty then .ok [] else (st.chatTail index tail).map fun s => [s]

/-- What becomes of a choice whose delta was fed. -/
def finishDelta (st : SseEvents F) (choice delta newDelta : Fields F) (index : ℤ) (finishing : Bool)
    (before : List PyStr) (c : ChatChoice) :
    Except Raised (Rewritten F × List PyStr × SseEvents F) :=
  if finishing then
    (mergeTail newDelta c.flush).map fun newDelta =>
      (.new (.obj (choice.set "delta".py (.obj newDelta))), before,
        { st with chat := st.chat.erase index })
  else
    let held :=
      (DeltaParts.of delta).content.isSome && newDelta.all (fun e => e.1 == "content".py) &&
        (newDelta.get? "content".py).all (fun j => !j.truthy) &&
        isNone (choice.get? "logprobs".py)
    .ok (if held then .dropped else .new (.obj (choice.set "delta".py (.obj newDelta))), before,
      { st with chat := st.chat.insert index c })

/-- The steps of a rewriting, one after the other. -/
theorem rewriteDelta_eq (st : SseEvents F) (choice delta : Fields F) (index : ℤ) (finishing : Bool) :
    st.rewriteDelta choice delta index finishing =
      (st.pendingEvents index (tailBeforeCalls (DeltaParts.of delta).calls
        ((st.chat.get? index).getD (.new st.mapping))).1).bind fun before =>
      (feedContent st.mapping (DeltaParts.of delta).content delta
        (tailBeforeCalls (DeltaParts.of delta).calls
          ((st.chat.get? index).getD (.new st.mapping))).2).bind fun p =>
      (feedCalls (DeltaParts.of delta).calls p.1 p.2).bind fun q =>
      (feedFunction st.mapping (DeltaParts.of delta).functionCall q.1 q.2).bind fun r =>
      st.finishDelta choice delta r.1 index finishing before r.2 := by
  have hmap : ∀ {α β : Type} (x : Except Raised α) (g : α → β),
      (x.bind fun a => .ok (g a)) = x.map g := by
    intro α β x g
    cases x <;> rfl
  unfold rewriteDelta
  simp only [bind, hmap]
  cases htail : (tailBeforeCalls (DeltaParts.of delta).calls
    ((st.chat.get? index).getD (.new st.mapping))).1 with
  | none => rfl
  | some tail =>
    simp only [pendingEvents]
    split <;> rfl

/-- `_rewrite_choice(choice, before)`, with what it adds to `before`. -/
def rewriteChoice (st : SseEvents F) (choice : Json F) :
    Except Raised (Rewritten F × List PyStr × SseEvents F) :=
  match choice with
  | .obj fields =>
      match Fields.get? fields "delta".py,
        coerceToolIndex (getD fields "index".py (.int 0)) with
      | some (.obj delta), some index =>
          let finishing := !isNone (Fields.get? fields "finish_reason".py)
          if (DeltaParts.of delta).isEmpty && !(finishing && (st.chat.get? index).isSome) then
            .ok (.same, [], st)
          else st.rewriteDelta fields delta index finishing
      | _, _ => .ok (.same, [], st)
  | _ => .ok (.same, [], st)

/-- The loop of `_process_chat`. -/
def rewriteChoices (st : SseEvents F) :
    List (Json F) → Except Raised (List (Rewritten F) × List PyStr × SseEvents F)
  | [] => .ok ([], [], st)
  | choice :: choices => do
      let (r, before, st) ← st.rewriteChoice choice
      let (rs, befores, st) ← st.rewriteChoices choices
      .ok (r :: rs, before ++ befores, st)

/-- The choices that go out. -/
def newChoices (choices : List (Json F)) (rs : List (Rewritten F)) : List (Json F) :=
  (choices.zip rs).filterMap fun p => p.2.out p.1

/-- `_process_chat(event_text, obj)`. -/
def processChat (st : SseEvents F) (event : PyStr) (fields : Fields F) (choices : List (Json F)) :
    Except Raised (List PyStr × SseEvents F) := do
  let found := chatMetaKeys.filterMap fun k => (fields.get? k).map fun v => (k, v)
  let st := { st with chatMeta := st.chatMeta.update found }
  let (rs, before, st) ← st.rewriteChoices choices
  if rs.all Rewritten.isSame then .ok (before ++ [event], st)
  else if !choices.isEmpty && (newChoices choices rs).isEmpty && isNone (fields.get? "usage".py)
  then .ok (before, st)
  else
    let data ← dumpsText (.obj (fields.set "choices".py (.arr (newChoices choices rs))))
    .ok (before ++ [rebuildEvent event data (boundaryFrom event)], st)

/-! ## Content blocks -/

/-- `int(obj.get("index", 0))`. -/
def blockIndex (fields : Fields F) : Except Raised ℤ :=
  intOfValue (getD fields "index".py (.int 0))

/-- `content_block_start`. -/
def processBlockStart (st : SseEvents F) (event : PyStr) (fields : Fields F) :
    Except Raised (List PyStr × SseEvents F) :=
  match objectOr (fields.get? "content_block".py) with
  | none => .ok ([event], st)
  | some block => do
      let index ← blockIndex fields
      let start (kind : BlockType) (escape : Option (PyStr → PyStr)) : SseEvents F :=
        { st with
          blockDesanitizers := st.blockDesanitizers.insert index (.new st.mapping escape)
          blockTypes := st.blockTypes.insert index kind }
      match block.get? "type".py with
      | some (.str t) =>
          if t = "text".py then .ok ([event], start .text none)
          else if t = "tool_use".py then
            .ok ([event], start .toolUse (some jsonStringEscape))
          else .ok ([event], st)
      | _ => .ok ([event], st)

/-- `content_block_delta` with the text field `key`. -/
def processBlockDelta (st : SseEvents F) (event : PyStr) (fields delta : Fields F) (key : PyStr) :
    Except Raised (List PyStr × SseEvents F) := do
  let index ← blockIndex fields
  match getD delta key (.str []), st.blockDesanitizers.get? index with
  | .str text, some d => do
      let (out, d) ← d.feedText text
      let st := { st with blockDesanitizers := st.blockDesanitizers.insert index d }
      if out.isEmpty then .ok ([], st)
      else do
        let data ← dumpsText (.obj (fields.set "delta".py (.obj (delta.set key (.str out)))))
        .ok ([rebuildEvent event data (boundaryFrom event)], st)
  | _, _ => .ok ([event], st)

/-- `content_block_stop`. -/
def processBlockStop (st : SseEvents F) (event : PyStr) (fields : Fields F) :
    Except Raised (List PyStr × SseEvents F) := do
  let index ← blockIndex fields
  let st' := { st with
    blockDesanitizers := st.blockDesanitizers.erase index
    blockTypes := st.blockTypes.erase index }
  match st.blockDesanitizers.get? index with
  | none => .ok ([event], st')
  | some d =>
      if d.flush.1.isEmpty then .ok ([event], st')
      else do
        let tail ← makeDeltaEvent F ((st.blockTypes.get? index).getD .text) index d.flush.1
        .ok ([tail ++ boundaryFrom event, event], st')

/-! ## Events -/

/-- The last branches of `_process_event`: a chat event, or one that passes. -/
def processOther (st : SseEvents F) (event : PyStr) (fields : Fields F) :
    Except Raised (List PyStr × SseEvents F) :=
  match fields.get? "choices".py with
  | some (.arr choices) => st.processChat event fields choices
  | _ => .ok ([event], st)

/-- An event whose data is an object that is no error. -/
def processFields (st : SseEvents F) (event : PyStr) (fields : Fields F) :
    Except Raised (List PyStr × SseEvents F) :=
  match fields.get? "type".py with
  | some (.str t) =>
      if t = "content_block_start".py then st.processBlockStart event fields
      else if t = "content_block_delta".py then
        match objectOr (fields.get? "delta".py) with
        | some delta =>
            match delta.get? "type".py with
            | some (.str kind) =>
                if kind = "text_delta".py then
                  st.processBlockDelta event fields delta "text".py
                else if kind = "input_json_delta".py then
                  st.processBlockDelta event fields delta "partial_json".py
                else st.processOther event fields
            | _ => st.processOther event fields
        | none => st.processOther event fields
      else if t = "content_block_stop".py then st.processBlockStop event fields
      else st.processOther event fields
  | _ => st.processOther event fields

/-- Everything that is held, then the event. -/
def endStream (st : SseEvents F) (event : PyStr) : Except Raised (List PyStr × SseEvents F) := do
  let (tails, st) ← st.heldTails
  .ok (tails ++ [event], st)

/-- `_process_event(event_text)`. -/
def processEvent (st : SseEvents F) (event : PyStr) : Except Raised (List PyStr × SseEvents F) :=
  match extractDataLine event with
  | none => .ok ([event], st)
  | some data =>
      if data = "[DONE]".py then st.endStream event
      else
        match (loads data : Except Json.Error (Json F)) with
        | .error .jsonDecodeError => .ok ([event], st)
        | .error e => .error (.json e)
        | .ok value =>
            if isStreamErrorEvent value then st.endStream event
            else
              match value with
              | .obj fields => st.processFields event fields
              | _ => .ok ([event], st)

end SseEvents

end CorpLlmGateway.Sanitizer
