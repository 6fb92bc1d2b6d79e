import CorpLlmGateway.Sanitizer.ContentBlocks
import CorpLlmGateway.Sanitizer.Streaming

/-!
# Held text of a chat choice

The buffers that `SseStreamDesanitizer` keeps for one OpenAI chat choice: a stream for
the content, one for each tool call, one for the legacy function call. What they hold
leaves as a tail, either in an event of its own or merged into the delta that finishes
the choice.
-/

namespace CorpLlmGateway.Sanitizer

open Json PyStr

/-- What a stream event can raise. -/
inductive Raised where
  /-- `RuntimeError`: a desanitizer that was flushed is fed. -/
  | stream (e : StreamError)
  /-- `json.loads` or `json.dumps`. -/
  | json (e : Json.Error)
  /-- `RecursionError`: `json.loads` of a text that is nested too deep. -/
  | recursion
  /-- `int(value)`: `ValueError`, `TypeError` or `OverflowError`. -/
  | int
  /-- `TypeError`: `+` of a text and another value. -/
  | concat
  /-- `TypeError`: `list(value)`. -/
  | iter
  /-- `TypeError`: a dictionary key that is not hashable. -/
  | unhashable
  /-- `AttributeError`: a value that is not a dictionary is read as one. -/
  | attribute
  /-- `UnicodeEncodeError`: a text with half of a surrogate pair. -/
  | encode
deriving DecidableEq, Repr

/-- The interpreter's conversions that the stream code uses and nothing here depends on:
floating-point numbers, and `str(value)` of a value that is not a string. -/
class Host (F : Type) extends Floats F where
  strOf : Json F → PyStr

instance : Host Literal where
  strOf _ := []

/-! ## Integers -/

/-- `int(text)`; `none` for a `ValueError`. -/
def intOfText (s : PyStr) : Option ℤ :=
  if Scalar s then Numerals.parseInt (chars s) else none

section Values

variable {F : Type}

/-- `coerce_tool_index(value)`. -/
def coerceToolIndex : Json F → Option ℤ
  | .int n => some n
  | .str s => intOfText s
  | _ => none

/-- `int(value)`. -/
def intOfValue [Host F] : Json F → Except Raised ℤ
  | .bool b => .ok (if b then 1 else 0)
  | .int n => .ok n
  | .float f =>
      match Floats.value f with
      | some q => .ok (if q < 0 then -⌊-q⌋ else ⌊q⌋)
      | none => .error .int
  | .str s =>
      match intOfText s with
      | some n => .ok n
      | none => .error .int
  | _ => .error .int

/-- `str(value)`. -/
def strOfValue [Host F] : Json F → PyStr
  | .str s => s
  | j => Host.strOf j

/-- `value.get(key, default)` of an object. -/
def getD (fields : Fields F) (key : PyStr) (default : Json F) : Json F :=
  (fields.get? key).getD default

end Values

/-- `_json_string_escape(s)`. -/
def jsonStringEscape (s : PyStr) : PyStr := Json.escape true s

/-- `feed` of a desanitizer. -/
def StreamingDesanitizer.feedText (d : StreamingDesanitizer PyChar) (chunk : PyStr) :
    Except Raised (PyStr × StreamingDesanitizer PyChar) := (d.feed chunk).mapError .stream

/-! ## Tool calls -/

/-- `OpenAiToolCallDesanitizer`. -/
structure OpenAiToolCallDesanitizer where
  mapping : List (Pair PyChar)
  byIndex : Dict ℤ (StreamingDesanitizer PyChar)

namespace OpenAiToolCallDesanitizer

def new (mapping : List (Pair PyChar)) : OpenAiToolCallDesanitizer := ⟨mapping, Dict.empty⟩

def feed (t : OpenAiToolCallDesanitizer) (index : ℤ) (fragment : PyStr) :
    Except Raised (PyStr × OpenAiToolCallDesanitizer) := do
  let ds := (t.byIndex.get? index).getD (StreamingDesanitizer.new t.mapping (some jsonStringEscape))
  let (out, ds) ← ds.feedText fragment
  .ok (out, { t with byIndex := t.byIndex.insert index ds })

/-- `flush_index(index)`. -/
def flushIndex (t : OpenAiToolCallDesanitizer) (index : ℤ) : PyStr × OpenAiToolCallDesanitizer :=
  match t.byIndex.get? index with
  | some ds => (ds.flush.1, { t with byIndex := t.byIndex.erase index })
  | none => ([], t)

/-- `flush()`: the tails that are not empty. -/
def flush (t : OpenAiToolCallDesanitizer) : List (ℤ × PyStr) :=
  (t.byIndex.entries.map fun e => (e.1, e.2.flush.1)).filter fun e => !e.2.isEmpty

end OpenAiToolCallDesanitizer

/-! ## Choices -/

/-- Held tails as one delta: the content, the tool call in progress, the function call,
and the other tool calls. -/
structure Tail where
  content : Option PyStr
  current : Option (ℤ × PyStr)
  functionCall : Option PyStr
  others : List (ℤ × PyStr)

namespace Tail

/-- The tool calls of a tail, in their order. -/
def calls (t : Tail) : List (ℤ × PyStr) := t.current.toList ++ t.others

/-- An empty delta is false. -/
def isEmpty (t : Tail) : Bool :=
  t.content.isNone && t.calls.isEmpty && t.functionCall.isNone

section Delta

variable {F : Type}

/-- A tool call that carries the tail `e`. -/
def callJson (e : ℤ × PyStr) : Json F :=
  .obj [("index".py, .int e.1), ("function".py, .obj [("arguments".py, .str e.2)])]

/-- The delta, its fields in the order in which they were set. -/
def delta (t : Tail) : Fields F :=
  let calls : Fields F := [("tool_calls".py, .arr (t.calls.map callJson))]
  (t.content.toList.map fun s => ("content".py, .str s)) ++
    (if t.current.isSome then calls else []) ++
    (t.functionCall.toList.map fun s =>
      ("function_call".py, .obj [("arguments".py, .str s)])) ++
    (if t.current.isNone && !t.others.isEmpty then calls else [])

end Delta

end Tail

/-- A text unless it is empty. -/
def nonempty (s : PyStr) : Option PyStr := if s.isEmpty then none else some s

/-- `_ChatChoice`. -/
structure ChatChoice where
  content : Option (StreamingDesanitizer PyChar)
  functionCall : Option (StreamingDesanitizer PyChar)
  tools : OpenAiToolCallDesanitizer
  toolIndex : Option ℤ

namespace ChatChoice

def new (mapping : List (Pair PyChar)) : ChatChoice where
  content := none
  functionCall := none
  tools := .new mapping
  toolIndex := none

/-- `flush_before_tool_call()`. -/
def flushBeforeToolCall (c : ChatChoice) : Tail × ChatChoice :=
  let content := c.content.bind fun d => nonempty d.flush.1
  match c.toolIndex with
  | none => (⟨content, none, none, []⟩, { c with content := none })
  | some index =>
      let (tail, tools) := c.tools.flushIndex index
      (⟨content, (nonempty tail).map fun s => (index, s), none, []⟩,
        { c with content := none, tools := tools })

/-- `flush()`; the choice is dropped with it. -/
def flush (c : ChatChoice) : Tail :=
  let (tail, c) := c.flushBeforeToolCall
  { tail with
    functionCall := c.functionCall.bind fun d => nonempty d.flush.1
    others := c.tools.flush }

section Json

variable {F : Type}

/-- `feed_tool_call(tc)`. -/
def feedToolCall (c : ChatChoice) (tc : Json F) : Except Raised (Json F × ChatChoice) :=
  match tc with
  | .obj call =>
      match Fields.get? call "function".py with
      | some (.obj fn) =>
          match Fields.get? fn "arguments".py,
            coerceToolIndex (getD call "index".py (.int 0)) with
          | some (.str arguments), some index => do
              let (out, tools) ← c.tools.feed index arguments
              .ok (.obj (Fields.set call "function".py
                  (.obj (Fields.set fn "arguments".py (.str out)))),
                { c with tools := tools, toolIndex := some index })
          | _, _ => .ok (tc, c)
      | _ => .ok (tc, c)
  | _ => .ok (tc, c)

/-- `[state.feed_tool_call(tc) for tc in calls]`. -/
def feedToolCalls (c : ChatChoice) : List (Json F) → Except Raised (List (Json F) × ChatChoice)
  | [] => .ok ([], c)
  | tc :: tcs => do
      let (tc, c) ← c.feedToolCall tc
      let (tcs, c) ← c.feedToolCalls tcs
      .ok (tc :: tcs, c)

end Json

end ChatChoice

/-! ## Merging a tail -/

section Merge

variable {F : Type}

/-- Whether a tail of call `index` is appended to the arguments of an entry. -/
def takesTail (index : ℤ) (existing : Json F) : Option (Fields F × Fields F × PyStr) :=
  match existing with
  | .obj call =>
      match Fields.get? call "function".py with
      | some (.obj fn) =>
          match Fields.get? fn "arguments".py with
          | some (.str arguments) =>
              if coerceToolIndex (getD call "index".py (.int 0)) = some index then
                some (call, fn, arguments)
              else none
          | _ => none
      | _ => none
  | _ => none

/-- Append a tail to the last entry that takes it, the entries given last first. -/
def mergeCallRev (e : ℤ × PyStr) : List (Json F) → Option (List (Json F))
  | [] => none
  | x :: xs =>
      match takesTail e.1 x with
      | some (call, fn, arguments) =>
          some (.obj (call.set "function".py
            (.obj (fn.set "arguments".py (.str (arguments ++ e.2))))) :: xs)
      | none => (mergeCallRev e xs).map fun xs => x :: xs

/-- Append a tail to the last entry that takes it, or as an entry of its own. -/
def mergeCall (calls : List (Json F)) (e : ℤ × PyStr) : List (Json F) :=
  match mergeCallRev e calls.reverse with
  | some calls => calls.reverse
  | none => calls ++ [Tail.callJson e]

variable [Host F]

/-- `(value or "") + text`. -/
def orEmptyAppend (value : Option (Json F)) (s : PyStr) : Except Raised PyStr :=
  match value with
  | some (.str t) => .ok (t ++ s)
  | some j => if j.truthy then .error .concat else .ok s
  | none => .ok s

/-- `list(value or [])`. -/
def listOf : Option (Json F) → Except Raised (List (Json F))
  | some (.arr items) => .ok items
  | some (.str s) => .ok (s.map fun c => .str [c])
  | some (.obj fields) => .ok (fields.map fun e => .str e.1)
  | some j => if j.truthy then .error .iter else .ok []
  | none => .ok []

/-- The function call of a delta with a tail at its end. -/
def mergeFunctionCall (delta : Fields F) (s : PyStr) : Fields F :=
  let fc : Fields F :=
    match delta.get? "function_call".py with
    | some (.obj fields) => fields
    | _ => []
  let old :=
    match fc.get? "arguments".py with
    | some j => if j.truthy then strOfValue j else []
    | none => []
  delta.set "function_call".py (.obj (fc.set "arguments".py (.str (old ++ s))))

/-- `_merge_tail(delta, tail)`. -/
def mergeTail (delta : Fields F) (tail : Tail) : Except Raised (Fields F) := do
  let delta ←
    match tail.content with
    | some s => do
        let content ← orEmptyAppend (delta.get? "content".py) s
        .ok (delta.set "content".py (.str content))
    | none => .ok delta
  let delta :=
    match tail.functionCall with
    | some s => mergeFunctionCall delta s
    | none => delta
  let calls ← listOf (delta.get? "tool_calls".py)
  let calls := tail.calls.foldl mergeCall calls
  .ok (if calls.isEmpty then delta else delta.set "tool_calls".py (.arr calls))

end Merge

end CorpLlmGateway.Sanitizer
