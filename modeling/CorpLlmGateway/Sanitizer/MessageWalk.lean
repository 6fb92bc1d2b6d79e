import CorpLlmGateway.Sanitizer.ContentWalk

/-!
# Walking messages and Responses items

The walkers of `sanitizer/content_blocks.py` for what a request is made of: a chat message
with its content and its tool calls, and an item of the Responses API, whose fields are
routed one by one. The arguments of a tool call are JSON text most of the time; they are
parsed, rewritten as a tree and written again.
-/

namespace CorpLlmGateway.Sanitizer

open Json

variable {F : Type} [Floats F]

/-! ## Arguments of tool calls -/

section Arguments

variable {σ ρ : Type} (sanitizeOne : PyStr → Walk σ (OneResult ρ))

/-- `_sanitize_arguments(arguments, sanitize_one)`. -/
def sanitizeArguments (arguments : PyStr) : Walk σ (Json F × List (OneResult ρ)) :=
  match (loads arguments : Except Json.Error (Json F)) with
  | .error _ => sanitizeText sanitizeOne arguments
  | .ok parsed => do
      let (v, rs) ← sanitizeJson sanitizeOne 0 parsed
      match dumps plainStyle v with
      | .ok text => pure (.str text, rs)
      | .error e => throw (.json e)

/-- `_sanitize_tool_arguments(arguments, sanitize_one)`. -/
def sanitizeToolArguments : Json F → Walk σ (Json F × List (OneResult ρ))
  | .str s => sanitizeArguments sanitizeOne s
  | .obj fields => sanitizeJson sanitizeOne 0 (.obj fields)
  | .arr items => sanitizeJson sanitizeOne 0 (.arr items)
  | .null => pure (.null, [])
  | j => throw (.unsanitizableToolArguments (scalarType j))

end Arguments

/-- `_collect_arguments_text(arguments)`. -/
def collectArgumentsText (F : Type) [Floats F] (arguments : PyStr) : List PyStr :=
  match (loads arguments : Except Json.Error (Json F)) with
  | .error _ => [arguments]
  | .ok parsed => collectJsonText 0 parsed

/-- `_collect_tool_arguments_text(arguments)`. -/
def collectToolArgumentsText : Json F → List PyStr
  | .str s => collectArgumentsText F s
  | .obj fields => collectJsonText 0 (.obj fields : Json F)
  | .arr items => collectJsonText 0 (.arr items : Json F)
  | _ => []

/-! ## Tool calls of a message -/

omit [Floats F] in
/-- A function with its arguments, if it is an object that has some. -/
def calledFunction : Option (Json F) → Option (Fields F × Json F)
  | some (.obj fn) => (Fields.get? fn "arguments".py).map fun arguments => (fn, arguments)
  | _ => none

/-- What an item of the Responses API with tool data holds. -/
inductive ToolItem (F : Type) where
  | call (arguments : Json F)
  | output (output : Json F)
  | none

/-- The types of items that carry the output of a tool. -/
def toolOutputTypes : List PyStr := ["function_call_output".py, "custom_tool_call_output".py]

/-- The branch of `sanitize_tool_calls` and of `collect_tool_call_text` for top-level items. -/
def toolItem (message : Fields F) : Except WalkError (ToolItem F) :=
  match message.get? "type".py with
  | some (.str type) =>
      .ok (if type = "function_call".py then
          ((message.get? "arguments".py).map .call).getD .none
        else if type ∈ toolOutputTypes then ((message.get? "output".py).map .output).getD .none
        else .none)
  | some (.arr _) | some (.obj _) => .error .unhashable
  | _ => .ok .none

section Sanitize

variable {σ ρ : Type} (sanitizeOne : PyStr → Walk σ (OneResult ρ))

/-- A function whose arguments are rewritten. -/
def sanitizeFunction (fn : Fields F) (arguments : Json F) :
    Walk σ (Json F × List (OneResult ρ)) := do
  let (v, rs) ← sanitizeToolArguments sanitizeOne arguments
  pure (.obj (fn.set "arguments".py v), rs)

/-- One of `tool_calls`. -/
def sanitizeCall (call : Json F) : Walk σ (Json F × List (OneResult ρ)) :=
  match call with
  | .obj fields =>
      match calledFunction (Fields.get? fields "function".py) with
      | some (fn, arguments) => do
          let (v, rs) ← sanitizeFunction sanitizeOne fn arguments
          pure (.obj (Fields.set fields "function".py v), rs)
      | none => pure (call, [])
  | _ => pure (call, [])

def sanitizeCalls : List (Json F) → Walk σ (List (Json F) × List (OneResult ρ))
  | [] => pure ([], [])
  | call :: calls => do
      let (call, r) ← sanitizeCall sanitizeOne call
      let (calls, rs) ← sanitizeCalls calls
      pure (call :: calls, r ++ rs)

/-- The field `tool_calls` of a message. -/
def sanitizeCallsField (message : Fields F) : Walk σ (Fields F × List (OneResult ρ)) :=
  match message.get? "tool_calls".py with
  | some (.arr calls) => do
      let (calls, rs) ← sanitizeCalls sanitizeOne calls
      pure (message.set "tool_calls".py (.arr calls), rs)
  | _ => pure (message, [])

/-- `_sanitize_message_tool_calls_field(message, sanitize_one)`. -/
def sanitizeMessageToolCallsField (message : Fields F) :
    Walk σ (Fields F × List (OneResult ρ)) := do
  let (new, rs) ← sanitizeCallsField sanitizeOne message
  match calledFunction (message.get? "function_call".py) with
  | some (fc, arguments) => do
      let (v, rs') ← sanitizeFunction sanitizeOne fc arguments
      pure (new.set "function_call".py v, rs ++ rs')
  | none => pure (new, rs)

/-- `sanitize_tool_calls(message, sanitize_one)`. -/
def sanitizeToolCalls (message : Fields F) : Walk σ (Fields F × List (OneResult ρ)) := do
  let (new, rs) ← sanitizeMessageToolCallsField sanitizeOne message
  match toolItem message with
  | .error e => throw e
  | .ok (.call arguments) => do
      let (v, rs') ← sanitizeToolArguments sanitizeOne arguments
      pure (new.set "arguments".py v, rs ++ rs')
  | .ok (.output output) => do
      let (v, rs') ← sanitizeJson sanitizeOne 0 output
      pure (new.set "output".py v, rs ++ rs')
  | .ok .none => pure (new, rs)

omit [Floats F] in
/-- The content of a message, unless it is absent, null or empty. -/
def filledContent (message : Fields F) : Option (Json F) :=
  match message.get? "content".py with
  | none | some .null | some (.str []) => none
  | content => content

/-- `sanitize_message(message, sanitize_one)`. -/
def sanitizeMessage (message : Fields F) : Walk σ (Fields F × List (OneResult ρ)) :=
  match filledContent message with
  | some content => do
      let (v, rs) ← sanitizeContent sanitizeOne content
      let (new, rs') ← sanitizeToolCalls sanitizeOne (message.set "content".py v)
      pure (new, rs ++ rs')
  | none => sanitizeToolCalls sanitizeOne message

end Sanitize

section Collect

/-- What the arguments of a function hold. -/
def collectFunctionText (fn : Option (Json F)) : List PyStr :=
  match calledFunction fn with
  | some (_, arguments) => collectToolArgumentsText arguments
  | none => []

/-- What one of `tool_calls` holds. -/
def collectCallText : Json F → List PyStr
  | .obj fields => collectFunctionText (Fields.get? fields "function".py)
  | _ => []

/-- `_collect_message_tool_calls_field_text(message)`. -/
def collectMessageToolCallsFieldText (message : Fields F) : List PyStr :=
  (match message.get? "tool_calls".py with
    | some (.arr calls) => calls.flatMap collectCallText
    | _ => []) ++ collectFunctionText (message.get? "function_call".py)

/-- `collect_tool_call_text(message)`. -/
def collectToolCallText (message : Fields F) : Except WalkError (List PyStr) :=
  let out := collectMessageToolCallsFieldText message
  match toolItem message with
  | .error e => .error e
  | .ok (.call arguments) => .ok (out ++ collectToolArgumentsText arguments)
  | .ok (.output output) => .ok (out ++ collectJsonText 0 output)
  | .ok .none => .ok out

/-- `collect_text(message.get("content"))` and `collect_tool_call_text(message)`. -/
def collectMessageText (message : Fields F) : Except WalkError (List PyStr) := do
  let content ← collectText ((message.get? "content".py).getD .null)
  let calls ← collectToolCallText message
  .ok (content ++ calls)

end Collect

/-! ## Responses items -/

/-- `_RESPONSES_BLOCK_LIST_FIELDS`. -/
def responsesBlockListFields : List PyStr := ["content".py, "summary".py]

/-- `_RESPONSES_OPAQUE_ITEM_FIELDS`. -/
def responsesOpaqueItemFields : List (PyStr × List PyStr) :=
  [("computer_call_output".py, ["output".py]), ("image_generation_call".py, ["result".py])]

/-- `_RESPONSES_STRUCTURAL_FIELDS`. -/
def responsesStructuralFields : List PyStr :=
  ["type".py, "id".py, "call_id".py, "status".py, "role".py, "container_id".py, "name".py,
    "server_label".py]

/-- `_is_opaque_item_field(item_type, field)`. -/
def isOpaqueItemField (itemType : Option (Json F)) (field : PyStr) : Bool :=
  match itemType with
  | some (.str type) => field ∈ (responsesOpaqueItemFields.lookup type).getD []
  | _ => false

/-- The fields of an item that no walker of its fields enters. -/
def skippedField (itemType : Option (Json F)) (field : PyStr) : Bool :=
  field ∈ responsesOpaqueFields || field ∈ responsesStructuralFields ||
    field ∈ ["tool_calls".py, "function_call".py] || isOpaqueItemField itemType field

section Items

variable {σ ρ : Type} (sanitizeOne : PyStr → Walk σ (OneResult ρ))

omit [Floats F] in
/-- A text, or the texts of a tree; nothing for a scalar. -/
def sanitizeLeaves : Json F → Walk σ (Option (Json F × List (OneResult ρ)))
  | .str s => some <$> sanitizeText sanitizeOne s
  | .obj fields => some <$> sanitizeJson sanitizeOne 0 (.obj fields)
  | .arr items => some <$> sanitizeJson sanitizeOne 0 (.arr items)
  | _ => pure none

/-- One field of an item: its new value, unless the loop goes on to the next field. -/
def sanitizeItemField (field : PyStr) (value : Json F) :
    Walk σ (Option (Json F × List (OneResult ρ))) :=
  if field = "arguments".py then some <$> sanitizeToolArguments sanitizeOne value
  else if field ∈ responsesBlockListFields then some <$> sanitizeContent sanitizeOne value
  else if field = "output".py then some <$> sanitizeJson sanitizeOne 0 value
  else if field ∈ responsesTextFields then
    match value with
    | .bool _ | .int _ | .float _ =>
        throw (.unsanitizableContentBlock field (scalarType value))
    | _ => sanitizeLeaves sanitizeOne value
  else sanitizeLeaves sanitizeOne value

/-- The loop of `sanitize_responses_item` over the fields of the item. -/
def sanitizeItemFields (itemType : Option (Json F)) (new : Fields F) :
    Fields F → Walk σ (Fields F × List (OneResult ρ))
  | [] => pure (new, [])
  | (field, value) :: fs =>
      if skippedField itemType field then sanitizeItemFields itemType new fs
      else do
        match ← sanitizeItemField sanitizeOne field value with
        | some (v, r) => do
            let (new, rs) ← sanitizeItemFields itemType (new.set field v) fs
            pure (new, r ++ rs)
        | none => sanitizeItemFields itemType new fs

/-- `sanitize_responses_item(item, sanitize_one)`. -/
def sanitizeResponsesItem (item : Fields F) : Walk σ (Fields F × List (OneResult ρ)) := do
  let (new, rs) ← sanitizeMessageToolCallsField sanitizeOne item
  let (new, rs') ← sanitizeItemFields sanitizeOne (item.get? "type".py) new item
  pure (new, rs ++ rs')

end Items

/-- A text, or the texts of a tree; nothing for a scalar. -/
def collectLeaves : Json F → List PyStr
  | .str s => [s]
  | .obj fields => collectJsonText 0 (.obj fields : Json F)
  | .arr items => collectJsonText 0 (.arr items : Json F)
  | _ => []

/-- What one field of an item holds. -/
def collectItemField (field : PyStr) (value : Json F) : Except WalkError (List PyStr) :=
  if field = "arguments".py then .ok (collectToolArgumentsText value)
  else if field ∈ responsesBlockListFields then collectText value
  else if field = "output".py then .ok (collectJsonText 0 value)
  else .ok (collectLeaves value)

/-- The loop of `collect_responses_item_text` over the fields of the item. -/
def collectItemFields (itemType : Option (Json F)) : Fields F → Except WalkError (List PyStr)
  | [] => .ok []
  | (field, value) :: fs =>
      if skippedField itemType field then collectItemFields itemType fs
      else do
        let texts ← collectItemField field value
        let more ← collectItemFields itemType fs
        .ok (texts ++ more)

/-- `collect_responses_item_text(item)`. -/
def collectResponsesItemText (item : Fields F) : Except WalkError (List PyStr) :=
  (collectItemFields (item.get? "type".py) item).map fun texts =>
    collectMessageToolCallsFieldText item ++ texts

end CorpLlmGateway.Sanitizer
