import CorpLlmGateway.Sanitizer.SseClient
import CorpLlmGateway.Sanitizer.SseStream

/-!
# The parts of a chat choice

A client of a chat stream puts a choice together part by part: its content, the arguments
of each of its tool calls, the arguments of its function call. `ChatChoice` holds text back
in the same parts, and what it holds goes out as a tail.

* `short_flush` — the indices of a tail can be written;
* `chatTail_spec` — a tail in an event of its own is read part by part.
-/

namespace CorpLlmGateway.Sanitizer

open Json ChatChoice Numerals

/-! ## What a client reads -/

/-- A part of a choice that arrives in pieces. -/
inductive Part where
  | content
  | call (index : ℤ)
  | functionCall
deriving DecidableEq, Repr

section Read

variable {F : Type}

/-- The text of a field; any other value carries none. -/
def textField (fields : Fields F) (key : PyStr) : PyStr :=
  match fields.get? key with
  | some (.str s) => s
  | _ => []

/-- The index of a tool call or a choice. -/
def indexOf : Json F → Option ℤ
  | .obj fields =>
      match Fields.get? fields "index".py with
      | some (.int n) => some n
      | _ => none
  | _ => none

/-- The arguments of a tool call. -/
def callArguments : Json F → PyStr
  | .obj call =>
      match Fields.get? call "function".py with
      | some (.obj fn) => textField fn "arguments".py
      | _ => []
  | _ => []

/-- A part that carries a text, the others none. -/
def Part.only (k : Part) (s : PyStr) (k' : Part) : PyStr := if k' = k then s else []

/-- What a tool call adds to a part. -/
def Part.readCall (p : Part) (tc : Json F) : PyStr :=
  match p with
  | .call index => if indexOf tc = some index then callArguments tc else []
  | _ => []

/-- What a list of tool calls adds to a part. -/
def Part.readCalls (p : Part) (value : Option (Json F)) : PyStr :=
  match value with
  | some (.arr calls) => calls.flatMap p.readCall
  | _ => []

/-- The arguments of a function call. -/
def functionArguments : Option (Json F) → PyStr
  | some (.obj fn) => textField fn "arguments".py
  | _ => []

/-- What a delta adds to a part. -/
def Part.read (p : Part) (delta : Fields F) : PyStr :=
  match p with
  | .content => textField delta "content".py
  | .call index => (Part.call index).readCalls (delta.get? "tool_calls".py)
  | .functionCall => functionArguments (delta.get? "function_call".py)

end Read

/-! ## Tails -/

namespace Tail

/-- What a tail carries for a part. -/
def read (t : Tail) : Part → PyStr
  | .content => t.content.getD []
  | .call index => t.calls.flatMap fun e => if e.1 = index then e.2 else []
  | .functionCall => t.functionCall.getD []

variable {F : Type}

theorem readCall_callJson (p : Part) (e : ℤ × PyStr) :
    p.readCall (callJson e : Json F) = Part.only (.call e.1) e.2 p := by
  cases p with
  | call index =>
    by_cases h : e.1 = index
    · subst h
      simp [Part.readCall, callJson, indexOf, callArguments, textField, Fields.get?, List.lookup,
        Part.only]
    · have hne : index ≠ e.1 := Ne.symm h
      simp [Part.readCall, callJson, indexOf, Fields.get?, List.lookup, Part.only, h, hne]
  | _ => rfl

theorem get?_delta_calls (t : Tail) :
    (t.delta : Fields F).get? "tool_calls".py =
      if t.calls.isEmpty then none else some (.arr (t.calls.map callJson)) := by
  obtain ⟨content, current, functionCall, others⟩ := t
  cases current with
  | none =>
    cases others <;> cases content <;> cases functionCall <;>
      simp [delta, calls, Fields.get?, List.lookup]
  | some e => cases content <;> cases functionCall <;> simp [delta, calls, Fields.get?, List.lookup]

/-- A tail as a delta. -/
theorem read_delta (t : Tail) (p : Part) : p.read (t.delta : Fields F) = t.read p := by
  cases p with
  | content =>
    obtain ⟨content, current, functionCall, others⟩ := t
    cases content <;> cases current <;> cases functionCall <;> cases others <;>
      simp [Part.read, textField, delta, read, Fields.get?, List.lookup]
  | call index =>
    have hflat : (t.calls.map (callJson : _ → Json F)).flatMap (Part.readCall (.call index)) =
        t.read (.call index) := by
      rw [List.flatMap_map, read]
      refine List.flatMap_congr fun e _ => ?_
      rw [readCall_callJson, Part.only]
      simp [eq_comm]
    rw [Part.read, get?_delta_calls]
    by_cases hempty : t.calls.isEmpty = true
    · have hnil : t.calls = [] := List.isEmpty_iff.mp hempty
      simp [Part.readCalls, read, hnil]
    · rw [if_neg hempty, Part.readCalls, hflat]
  | functionCall =>
    obtain ⟨content, current, functionCall, others⟩ := t
    cases content <;> cases current <;> cases functionCall <;> cases others <;>
      simp [Part.read, functionArguments, textField, delta, read, Fields.get?, List.lookup]

end Tail

/-! ## Streams of a choice -/

namespace ChatChoice

/-- The stream of a part, once it has one. -/
def stream (c : ChatChoice) : Part → Option (StreamingDesanitizer PyChar)
  | .content => c.content
  | .call index => c.tools.byIndex.get? index
  | .functionCall => c.functionCall

variable {c : ChatChoice}

theorem stream_new (mapping : List (Pair PyChar)) (p : Part) : (ChatChoice.new mapping).stream p = none := by
  cases p <;> rfl

/-! ## Flushing -/

theorem stream_flushIndex (c : ChatChoice) (index : ℤ) (q : Part) :
    ({ c with tools := (c.tools.flushIndex index).2 } : ChatChoice).stream q =
      if q = .call index then none else c.stream q := by
  unfold OpenAiToolCallDesanitizer.flushIndex
  cases q with
  | call t =>
    cases hd : c.tools.byIndex.get? index with
    | none =>
      by_cases ht : t = index
      · simp [stream, ht, hd]
      · simp [stream, ht]
    | some d => simp [stream, Dict.get?_erase]
  | _ => cases c.tools.byIndex.get? index <;> simp [stream]

theorem flushBeforeToolCall_none (h : c.toolIndex = none) :
    c.flushBeforeToolCall =
      (⟨c.content.bind fun d => nonempty d.flush.1, none, none, []⟩, { c with content := none }) := by
  simp only [flushBeforeToolCall, h]

theorem flushBeforeToolCall_some {index : ℤ} (h : c.toolIndex = some index) :
    c.flushBeforeToolCall =
      (⟨c.content.bind fun d => nonempty d.flush.1,
        (nonempty (c.tools.flushIndex index).1).map fun s => (index, s), none, []⟩,
        { c with content := none, tools := (c.tools.flushIndex index).2 }) := by
  simp only [flushBeforeToolCall, h]

/-- A flush before a tool call opens no stream. -/
theorem stream_flushBeforeToolCall (c : ChatChoice) {q : Part} {d : StreamingDesanitizer PyChar}
    (h : c.flushBeforeToolCall.2.stream q = some d) : c.stream q = some d := by
  have hcontent : ∀ {q}, ({ c with content := none } : ChatChoice).stream q = some d →
      c.stream q = some d := by
    intro q hq
    cases q with
    | content => cases hq
    | _ => exact hq
  cases hindex : c.toolIndex with
  | none =>
    rw [flushBeforeToolCall_none hindex] at h
    exact hcontent h
  | some index =>
    rw [flushBeforeToolCall_some hindex] at h
    have hsplit := (stream_flushIndex { c with content := none } index q).symm.trans h
    split at hsplit
    · cases hsplit
    · exact hcontent hsplit

section Short

variable (hshort : ∀ t d, c.stream (.call t) = some d → ShortInt t)

include hshort

/-- The calls of the tail have indices that can be written. -/
theorem short_flushBeforeToolCall : ∀ e ∈ c.flushBeforeToolCall.1.calls, ShortInt e.1 := by
  intro e he
  cases hindex : c.toolIndex with
  | none => simp [flushBeforeToolCall_none hindex, Tail.calls] at he
  | some index =>
    rw [flushBeforeToolCall_some hindex] at he
    simp only [Tail.calls, List.append_nil, Option.mem_toList, Option.map_eq_some_iff] at he
    obtain ⟨s, hs, rfl⟩ := he
    -- a call whose tail is not empty has a stream
    cases hd : c.tools.byIndex.get? index with
    | none => simp [OpenAiToolCallDesanitizer.flushIndex, hd, nonempty] at hs
    | some d => exact hshort index d hd

theorem short_of_mem_flush_tools {e : ℤ × PyStr} (he : e ∈ c.tools.flush) : ShortInt e.1 := by
  obtain ⟨e', he', rfl⟩ := List.mem_map.mp (List.mem_filter.mp he).1
  have hkey : e'.1 ∈ c.tools.byIndex.keys := List.mem_map_of_mem he'
  obtain ⟨d, hd⟩ := Option.isSome_iff_exists.mp (Dict.mem_keys.mp hkey)
  exact hshort e'.1 d hd

theorem short_flush : ∀ e ∈ c.flush.calls, ShortInt e.1 := by
  intro e he
  rcases List.mem_append.mp he with he | he
  · exact short_flushBeforeToolCall hshort e (List.mem_append.mpr (.inl he))
  · exact short_of_mem_flush_tools (fun t d hd => hshort t d (stream_flushBeforeToolCall c hd)) he

end Short

/-- The arguments of a tool call are a string. -/
def HasArguments {F : Type} (call fn : Fields F) (s : PyStr) : Prop :=
  call.get? "function".py = some (.obj fn) ∧ fn.get? "arguments".py = some (.str s)

end ChatChoice

variable {F : Type}

theorem takesTail_some {tc : Json F} {i : ℤ} {call fn : Fields F} {s : PyStr}
    (h : takesTail i tc = some (call, fn, s)) :
    tc = .obj call ∧ HasArguments call fn s ∧
      coerceToolIndex (getD call "index".py (.int 0)) = some i := by
  unfold takesTail at h
  split at h
  · next call' =>
    split at h
    · next fn' hfn =>
      split at h
      · next s' hs =>
        split at h
        · next hi =>
          cases h
          exact ⟨rfl, ⟨hfn, hs⟩, hi⟩
        · cases h
      · cases h
    · cases h
  · cases h

theorem ok_callJson {e : ℤ × PyStr} (he : ShortInt e.1) : (Tail.callJson e : Json F).Ok := by
  refine .obj (by simp) ?_
  simp only [List.forall_mem_cons, List.not_mem_nil, false_imp_iff, implies_true, and_true]
  exact ⟨.int he, .obj (by simp) (by simpa using .str e.2)⟩

/-! ## Lanes of a stream -/

/-- A part of a choice of the stream. -/
structure Lane where
  index : ℤ
  part : Part
deriving DecidableEq, Repr

/-- The delta of a choice, empty for a choice that has none. -/
def deltaOf : Json F → Fields F
  | .obj fields =>
      match Fields.get? fields "delta".py with
      | some (.obj delta) => delta
      | _ => []
  | _ => []

namespace Lane

/-- What a choice adds to a lane. -/
def readChoice (lane : Lane) (choice : Json F) : PyStr :=
  if indexOf choice = some lane.index then lane.part.read (deltaOf choice) else []

/-- What the value of an event adds to a lane. -/
def readValue (lane : Lane) : Json F → PyStr
  | .obj fields =>
      match Fields.get? fields "choices".py with
      | some (.arr choices) => choices.flatMap lane.readChoice
      | _ => []
  | _ => []

/-- What a client reads from an event for a lane. -/
def read (F : Type) [Floats F] (lane : Lane) (event : PyStr) : PyStr :=
  lane.readValue (eventValue F event)

end Lane

theorem readChoice_obj {fields delta : Fields F} {n : ℤ}
    (h : fields.get? "index".py = some (.int n))
    (hdelta : fields.get? "delta".py = some (.obj delta)) (lane : Lane) :
    lane.readChoice (.obj fields) = if lane.index = n then lane.part.read delta else [] := by
  simp only [Lane.readChoice, indexOf, h, deltaOf, hdelta, Option.some.injEq, eq_comm]

/-! ## Tails in events -/

namespace SseEvents

variable [Host F] {st : SseEvents F}

omit [Host F] in
theorem ok_tail {tail : Tail} (h : ∀ e ∈ tail.calls, ShortInt e.1) :
    Json.Ok (.obj (tail.delta : Fields F)) := by
  have hcalls : Json.Ok (.arr (tail.calls.map (Tail.callJson : _ → Json F))) := by
    refine .arr fun x hx => ?_
    obtain ⟨e, he, rfl⟩ := List.mem_map.mp hx
    exact ok_callJson (h e he)
  refine .obj ?_ fun e he => ?_
  · obtain ⟨content, current, functionCall, others⟩ := tail
    cases content <;> cases current <;> cases functionCall <;> cases others <;> simp [Tail.delta]
  · simp only [Tail.delta, List.mem_append, List.mem_map, Option.mem_toList] at he
    rcases he with ((⟨s, -, rfl⟩ | he) | ⟨s, -, rfl⟩) | he
    · exact .str s
    · split at he
      · rw [List.mem_singleton.mp he]
        exact hcalls
      · cases he
    · exact .obj (by simp) (by simpa using .str s)
    · split at he
      · rw [List.mem_singleton.mp he]
        exact hcalls
      · cases he

/-- **A tail in an event of its own.** -/
theorem chatTail_spec (hinfo : Json.Ok (.obj st.chatMeta)) {n : ℤ} (hn : ShortInt n) {tail : Tail}
    (htail : ∀ e ∈ tail.calls, ShortInt e.1) :
    ∃ s, st.chatTail n tail = .ok s ∧
      ∀ lane : Lane, lane.read F s = if lane.index = n then tail.read lane.part else [] := by
  set choice : Json F := .obj [("index".py, .int n), ("delta".py, .obj tail.delta),
    ("finish_reason".py, .null)] with hchoice
  set value : Json F := .obj (st.chatMeta.set "choices".py (.arr [choice])) with hvalue
  have hok : value.Ok := by
    refine hinfo.set _ (.arr ?_)
    simp only [List.forall_mem_singleton]
    refine .obj (by simp) ?_
    simp only [List.forall_mem_cons, List.not_mem_nil, false_imp_iff, implies_true, and_true]
    exact ⟨.int hn, ok_tail htail, .null⟩
  refine ⟨"data: ".py ++ render plainStyle value ++ "\n\n".py, ?_, fun lane => ?_⟩
  · rw [chatTail, ← hchoice, ← hvalue]
    simp only [dumpsText, dumps_eq plainStyle hok, Except.mapError, bind, Except.bind]
  · have hread := eventValue_of_render rfl hok (eventData_line fun c hc =>
      isNewline_of_printable (printable_render plainStyle value c hc))
    rw [Lane.read, hread, hvalue, Lane.readValue, Fields.get?_set_self]
    simp only [List.flatMap_singleton]
    rw [readChoice_obj (n := n) rfl rfl, Tail.read_delta]

end SseEvents

end CorpLlmGateway.Sanitizer
