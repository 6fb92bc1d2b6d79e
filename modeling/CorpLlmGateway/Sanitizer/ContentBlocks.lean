import CorpLlmGateway.Json.Codec
import CorpLlmGateway.Sanitizer.Placeholder

/-!
# Restoring JSON values

The response side of `sanitizer/content_blocks.py`: the walkers that restore the string
leaves of a JSON value. `_desanitize_json` rewrites every string value, whatever field it
stands in; `desanitize_responses_payload` rewrites only the text fields of the Responses
API, and reads a field `arguments` as JSON text of its own.
-/

namespace CorpLlmGateway.Sanitizer

open Json

variable {F : Type}

/-- `_MAX_JSON_DEPTH`. -/
def maxJsonDepth : ℕ := 64

/-- `_JSON_OPAQUE_KEYS`. -/
def jsonOpaqueKeys : List PyStr := ["encrypted_content".py]

/-- The style of `json.dumps(value, ensure_ascii=False)`. -/
def plainStyle : Style := ⟨false, false⟩

section Json

variable (reverse : PyStr → PyStr)

mutual

/-- `_desanitize_json(value, reverse, _depth)`. -/
def desanitizeJson : ℕ → Json F → Json F
  | depth, .str s => if maxJsonDepth < depth then .str s else .str (reverse s)
  | depth, .arr items =>
      if maxJsonDepth < depth then .arr items else .arr (desanitizeItems (depth + 1) items)
  | depth, .obj fields =>
      if maxJsonDepth < depth then .obj fields else .obj (desanitizeFields (depth + 1) fields)
  | _, j => j

def desanitizeItems : ℕ → List (Json F) → List (Json F)
  | _, [] => []
  | depth, x :: xs => desanitizeJson depth x :: desanitizeItems depth xs

def desanitizeFields : ℕ → List (PyStr × Json F) → List (PyStr × Json F)
  | _, [] => []
  | depth, (k, v) :: fs =>
      (k, if k ∈ jsonOpaqueKeys then v else desanitizeJson depth v) :: desanitizeFields depth fs

end

variable [Floats F]

/-- `_desanitize_arguments(arguments, reverse)`. -/
def desanitizeArguments (F : Type) [Floats F] (arguments : PyStr) : Except Json.Error PyStr :=
  match (loads arguments : Except Json.Error (Json F)) with
  | .error _ => .ok (reverse arguments)
  | .ok parsed => dumps plainStyle (desanitizeJson reverse 0 parsed)

/-- `_RESPONSES_TEXT_FIELDS`. -/
def responsesTextFields : List PyStr :=
  ["arguments".py, "content".py, "delta".py, "input".py, "output".py,
    "reasoning".py, "refusal".py, "summary".py, "text".py, "transcript".py]

/-- `_RESPONSES_OPAQUE_FIELDS`. -/
def responsesOpaqueFields : List PyStr := ["encrypted_content".py]

mutual

/-- `desanitize_responses_payload(value, reverse, _field, _depth)`. -/
def desanitizeResponsesPayload : Option PyStr → ℕ → Json F → Except Json.Error (Json F)
  | field, depth, .str s =>
      if maxJsonDepth < depth ∨ field.any (· ∈ responsesOpaqueFields) then .ok (.str s)
      else if field = some "arguments".py then
        (desanitizeArguments reverse F s).map .str
      else if field.any (· ∈ responsesTextFields) then .ok (.str (reverse s))
      else .ok (.str s)
  | field, depth, .arr items =>
      if maxJsonDepth < depth ∨ field.any (· ∈ responsesOpaqueFields) then .ok (.arr items)
      else (desanitizeResponsesItems field (depth + 1) items).map .arr
  | field, depth, .obj fields =>
      if maxJsonDepth < depth ∨ field.any (· ∈ responsesOpaqueFields) then .ok (.obj fields)
      else (desanitizeResponsesFields (depth + 1) fields).map .obj
  | _, _, j => .ok j

def desanitizeResponsesItems : Option PyStr → ℕ → List (Json F) → Except Json.Error (List (Json F))
  | _, _, [] => .ok []
  | field, depth, x :: xs => do
      let x ← desanitizeResponsesPayload field depth x
      let xs ← desanitizeResponsesItems field depth xs
      .ok (x :: xs)

def desanitizeResponsesFields :
    ℕ → List (PyStr × Json F) → Except Json.Error (List (PyStr × Json F))
  | _, [] => .ok []
  | depth, (k, v) :: fs => do
      let v ← desanitizeResponsesPayload (some k) depth v
      let fs ← desanitizeResponsesFields depth fs
      .ok ((k, v) :: fs)

end

end Json

end CorpLlmGateway.Sanitizer
