import CorpLlmGateway.Sanitizer.SseTotal

/-!
# Content blocks of an Anthropic stream

An Anthropic message is streamed as content blocks that are started, grow by deltas and are
stopped; blocks may be interleaved, and an error cuts off all that are open. This module
says what an event means for the blocks, when a stream of events is well formed
(`BlockStream`), and what a client reads from what is sent (`sentDelta`).

* `reads_of_fields` — the fields of an event, by what it says;
* `BlockStream.once` — a block has one kind;
* `Spoken.move` — a block that moves by its own events says what one
  `StreamingDesanitizer` says.
-/

namespace CorpLlmGateway.Sanitizer

open Json Framing PyStr Numerals StreamingDesanitizer

variable {F : Type} [Host F]

/-! ## What an event says -/

/-- The escape of a kind of block: the input of a tool is JSON text. -/
def BlockType.escape : BlockType → Option (PyStr → PyStr)
  | .text => none
  | .toolUse => some jsonStringEscape

/-- The type of a kind's deltas. -/
def BlockType.deltaType : BlockType → PyStr
  | .text => "text_delta".py
  | .toolUse => "input_json_delta".py

/-- The field of a kind's deltas that carries the text. -/
def BlockType.textKey : BlockType → PyStr
  | .text => "text".py
  | .toolUse => "partial_json".py

/-- The kind of a block; `none` for thinking and all others, which are not restored. -/
def BlockType.ofBlock (block : Fields F) : Option BlockType :=
  match block.get? "type".py with
  | some (.str t) =>
      if t = "text".py then some .text
      else if t = "tool_use".py then some .toolUse
      else none
  | _ => none

/-- What an event means for the blocks. -/
inductive BlockEvent where
  | start (index : ℤ) (kind : Option BlockType)
  | delta (index : ℤ) (kind : BlockType) (text : PyStr)
  | stop (index : ℤ)
  | error
  | other
deriving DecidableEq

namespace BlockEvent

/-- An event that is none of the blocks'. A list of `choices` belongs to another protocol. -/
def ofOther (fields : Fields F) : Option BlockEvent :=
  match fields.get? "choices".py with
  | some (.arr _) => none
  | _ => some .other

/-- A delta of a kind that is restored carries a text. -/
def ofText (index : ℤ) (kind : BlockType) (d : Fields F) : Option BlockEvent :=
  match d.get? kind.textKey with
  | some (.str text) => some (.delta index kind text)
  | _ => none

/-- A delta; one of another type, such as thinking or a citation, is none of the blocks'. -/
def ofDelta (fields d : Fields F) (index : ℤ) : Option BlockEvent :=
  match d.get? "type".py with
  | some (.str t) =>
      if t = BlockType.text.deltaType then ofText index .text d
      else if t = BlockType.toolUse.deltaType then ofText index .toolUse d
      else ofOther fields
  | _ => ofOther fields

/-- An object that is no error. -/
def ofFields (fields : Fields F) : Option BlockEvent :=
  match fields.get? "type".py with
  | some (.str t) =>
      if t = "content_block_start".py then
        match fields.get? "index".py, fields.get? "content_block".py with
        | some (.int index), some (.obj block) => some (.start index (BlockType.ofBlock block))
        | _, _ => none
      else if t = "content_block_delta".py then
        match fields.get? "index".py, fields.get? "delta".py with
        | some (.int index), some (.obj d) => ofDelta fields d index
        | _, _ => none
      else if t = "content_block_stop".py then
        match fields.get? "index".py with
        | some (.int index) => some (.stop index)
        | _ => none
      else ofOther fields
  | _ => ofOther fields

/-- The meaning of a value, `none` when it is not well formed. -/
def ofValue (value : Json F) : Option BlockEvent :=
  if isStreamErrorEvent value then some .error
  else
    match value with
    | .obj fields => ofFields fields
    | _ => some .other

end BlockEvent

/-- A text that is one event with one data line, which says what it should: the line can be
read as JSON, and its value is well formed. -/
structure AnthropicEvent (F : Type) [Host F] (event : PyStr) (said : BlockEvent) : Prop where
  complete : SseStreamDesanitizer.CompleteEvent event
  parsed : ∃ (line : PyStr) (value : Json F), OneData event line ∧
    loads (line.drop 5) = .ok value ∧ BlockEvent.ofValue value = some said

/-! ## Well-formed streams -/

/-- A block that is open or not, after an event. -/
def openStep (i : ℤ) (block : Option (Option BlockType)) : BlockEvent → Option (Option BlockType)
  | .start j kind => if j = i then some kind else block
  | .stop j => if j = i then none else block
  | .error => none
  | .delta _ _ _ | .other => block

/-- The kind of the block that is open at an index. -/
def openBlock (said : List BlockEvent) (i : ℤ) : Option (Option BlockType) :=
  said.foldl (openStep i) none

/-- What may come next: no index is started twice, a delta is of the kind of its open block
(one that is not restored may have any), and only an open block is stopped. -/
def Follows (front : List BlockEvent) : BlockEvent → Prop
  | .start i _ => ∀ kind, .start i kind ∉ front
  | .delta i k _ => openBlock front i = some (some k) ∨ openBlock front i = some none
  | .stop i => (openBlock front i).isSome
  | .error | .other => True

/-- A well-formed stream. It may end at any point, with blocks that are still open. -/
def BlockStream (said : List BlockEvent) : Prop :=
  ∀ front e back, said = front ++ e :: back → Follows front e

/-- The text of an event for a block. -/
def BlockEvent.input (i : ℤ) : BlockEvent → Option PyStr
  | .delta j _ text => if j = i then some text else none
  | _ => none

/-- The deltas of a block, in their order. -/
def inputs (said : List BlockEvent) (i : ℤ) : List PyStr := said.filterMap (BlockEvent.input i)

/-! ## What a client reads -/

/-- A delta: its block, its kind and its text. -/
def BlockEvent.delta? : BlockEvent → Option (ℤ × BlockType × PyStr)
  | .delta i k text => some (i, k, text)
  | _ => none

/-- The delta that a client reads from an event. -/
def sentDelta (F : Type) [Host F] (event : PyStr) : Option (ℤ × BlockType × PyStr) :=
  (BlockEvent.ofValue (eventValue F event)).bind BlockEvent.delta?

/-- The text of a delta for a block of a kind. -/
def deltaFor (i : ℤ) (k : BlockType) (d : ℤ × BlockType × PyStr) : PyStr :=
  if d.1 = i ∧ d.2.1 = k then d.2.2 else []

/-- The text of an event for a block of a kind. -/
def textFor (F : Type) [Host F] (i : ℤ) (k : BlockType) (event : PyStr) : PyStr :=
  (sentDelta F event).elim [] (deltaFor i k)

/-- All text for a block of a kind. -/
def sentText (F : Type) [Host F] (i : ℤ) (k : BlockType) (sent : List PyStr) : PyStr :=
  sent.flatMap (textFor F i k)

/-- An event that is no delta of a block that is restored. -/
def passes (F : Type) [Host F] (said : List BlockEvent) (event : PyStr) : Bool :=
  (sentDelta F event).all fun d => !decide (.start d.1 (some d.2.1) ∈ said)

/-! ## Reading events -/

theorem delta_ne_start : "content_block_delta".py ≠ "content_block_start".py := by
  simp [-String.py_eq, String.py_inj]

namespace BlockEvent

/-- The fields of an event, by what it says. -/
inductive Reads (fields : Fields F) : BlockEvent → Prop
  | start {index : ℤ} {block : Fields F}
      (htype : fields.get? "type".py = some (.str "content_block_start".py))
      (hindex : fields.get? "index".py = some (.int index))
      (hblock : fields.get? "content_block".py = some (.obj block)) :
      Reads fields (.start index (BlockType.ofBlock block))
  | delta {index : ℤ} {kind : BlockType} {d : Fields F} {text : PyStr}
      (htype : fields.get? "type".py = some (.str "content_block_delta".py))
      (hindex : fields.get? "index".py = some (.int index))
      (hdelta : fields.get? "delta".py = some (.obj d))
      (hkind : d.get? "type".py = some (.str kind.deltaType))
      (htext : d.get? kind.textKey = some (.str text)) : Reads fields (.delta index kind text)
  | stop {index : ℤ} (htype : fields.get? "type".py = some (.str "content_block_stop".py))
      (hindex : fields.get? "index".py = some (.int index)) : Reads fields (.stop index)
  | other (h : ∀ (st : SseEvents F) event, st.processFields event fields = .ok ([event], st)) :
      Reads fields .other

variable {fields : Fields F} {said : BlockEvent}

theorem ofOther_eq (h : ofOther fields = some said) (st : SseEvents F) (event : PyStr) :
    said = .other ∧ st.processOther event fields = .ok ([event], st) := by
  cases hchoices : fields.get? "choices".py with
  | none =>
    simp only [ofOther, hchoices, Option.some.injEq] at h
    exact ⟨h.symm, by simp only [SseEvents.processOther, hchoices]⟩
  | some v =>
    cases v with
    | arr choices => simp only [ofOther, hchoices, reduceCtorEq] at h
    | _ =>
      simp only [ofOther, hchoices, Option.some.injEq] at h
      exact ⟨h.symm, by simp only [SseEvents.processOther, hchoices]⟩

omit [Host F] in
theorem ofText_eq {index : ℤ} {kind : BlockType} {d : Fields F} (h : ofText index kind d = some said) :
    ∃ text, said = .delta index kind text ∧ d.get? kind.textKey = some (.str text) := by
  unfold ofText at h
  split at h
  · next text htext =>
    cases h
    exact ⟨text, rfl, htext⟩
  · cases h

/-- A delta of another type is handled like any other event. -/
theorem reads_of_delta {index : ℤ} {d : Fields F}
    (htype : fields.get? "type".py = some (.str "content_block_delta".py))
    (hindex : fields.get? "index".py = some (.int index))
    (hdelta : fields.get? "delta".py = some (.obj d))
    (h : ofDelta fields d index = some said) : Reads fields said := by
  have hobject : objectOr (some (.obj d)) = some d := rfl
  unfold ofDelta at h
  split at h
  · next t ht =>
    split_ifs at h with htext htool
    · obtain ⟨text, rfl, hfield⟩ := ofText_eq h
      exact .delta htype hindex hdelta (htext ▸ ht) hfield
    · obtain ⟨text, rfl, hfield⟩ := ofText_eq h
      exact .delta htype hindex hdelta (htool ▸ ht) hfield
    · obtain ⟨rfl, -⟩ := ofOther_eq h (.new []) []
      apply Reads.other
      intro st event
      simp only [SseEvents.processFields, htype, if_neg delta_ne_start, if_true, hdelta, hobject, ht]
      rw [if_neg (show ¬ t = "text_delta".py from htext),
        if_neg (show ¬ t = "input_json_delta".py from htool)]
      exact (ofOther_eq h st event).2
  · next hno =>
    obtain ⟨rfl, -⟩ := ofOther_eq h (.new []) []
    apply Reads.other
    intro st event
    simp only [SseEvents.processFields, htype, if_neg delta_ne_start, if_true, hdelta, hobject]
    exact (ofOther_eq h st event).2

theorem reads_of_fields (h : ofFields fields = some said) : Reads fields said := by
  unfold ofFields at h
  split at h
  · next t ht =>
    split_ifs at h with hstart hdelta hstop
    · split at h
      · next index block hindex hblock =>
        cases h
        exact .start (hstart ▸ ht) hindex hblock
      · cases h
    · split at h
      · next index d hindex hd => exact reads_of_delta (hdelta ▸ ht) hindex hd h
      · cases h
    · split at h
      · next index hindex =>
        cases h
        exact .stop (hstop ▸ ht) hindex
      · cases h
    · obtain ⟨rfl, -⟩ := ofOther_eq h (.new []) []
      apply Reads.other
      intro st event
      simp only [SseEvents.processFields, ht]
      rw [if_neg hstart, if_neg hdelta, if_neg hstop]
      exact (ofOther_eq h st event).2
  · next hno =>
    obtain ⟨rfl, -⟩ := ofOther_eq h (.new []) []
    apply Reads.other
    intro st event
    unfold SseEvents.processFields
    split
    · next t ht => exact absurd ht (hno t)
    · exact (ofOther_eq h st event).2

end BlockEvent

/-! ## Handling events -/

section Reading

variable {event : PyStr} {said : BlockEvent}

/-- A client reads what the event says. -/
theorem AnthropicEvent.sentDelta_eq (h : AnthropicEvent F event said) :
    sentDelta F event = said.delta? := by
  obtain ⟨line, value, hline, hvalue, hsaid⟩ := h.parsed
  rw [sentDelta, eventValue_of_data (eventData_eq hline.one) hvalue, hsaid]
  rfl

/-- How the desanitizer handles an event, by what it says. -/
theorem AnthropicEvent.processEvent_eq (h : AnthropicEvent F event said) :
    (said = .error ∧ ∀ st : SseEvents F, st.processEvent event = st.endStream event) ∨
    (said = .other ∧ ∀ st : SseEvents F, st.processEvent event = .ok ([event], st)) ∨
    ∃ fields : Fields F, Json.Ok (.obj fields) ∧ isStreamErrorEvent (.obj fields) = false ∧
      BlockEvent.Reads fields said ∧
      ∀ st : SseEvents F, st.processEvent event = st.processFields event fields := by
  obtain ⟨line, value, hline, hvalue, hsaid⟩ := h.parsed
  have hdata := extractDataLine_eq hline
  have hloads : loads ((line.drop 5).dropWhile (· == .scalar ' ')) = .ok value := by
    rw [loads_dropWhile_space, hvalue]
  have hdone : (line.drop 5).dropWhile (· == .scalar ' ') ≠ "[DONE]".py := by
    intro heq
    have herror : (loads "[DONE]".py : Except Json.Error (Json F)) = .error .jsonDecodeError := rfl
    rw [heq, herror] at hloads
    cases hloads
  unfold BlockEvent.ofValue at hsaid
  split at hsaid
  · next herror =>
    left
    cases hsaid
    refine ⟨rfl, fun st => ?_⟩
    simp only [SseEvents.processEvent, hdata, if_neg hdone, hloads, herror, if_true]
  · next herror =>
    right
    cases value with
    | obj fields =>
      right
      refine ⟨fields, loads_ok hvalue, by simpa using herror,
        BlockEvent.reads_of_fields hsaid, fun st => ?_⟩
      simp only [SseEvents.processEvent, hdata, if_neg hdone, hloads, if_neg herror]
    | _ =>
      left
      cases hsaid
      refine ⟨rfl, fun st => ?_⟩
      simp only [SseEvents.processEvent, hdata, if_neg hdone, hloads, if_neg herror]

/-- The value of a delta. -/
theorem ofValue_delta {fields d : Fields F} {index : ℤ} {kind : BlockType} {text : PyStr}
    (herror : isStreamErrorEvent (.obj fields) = false)
    (htype : fields.get? "type".py = some (.str "content_block_delta".py))
    (hindex : fields.get? "index".py = some (.int index))
    (hdelta : fields.get? "delta".py = some (.obj d))
    (hkind : d.get? "type".py = some (.str kind.deltaType))
    (htext : d.get? kind.textKey = some (.str text)) :
    BlockEvent.ofValue (.obj fields) = some (.delta index kind text) := by
  have hne : BlockType.toolUse.deltaType ≠ BlockType.text.deltaType := by
    simp [-String.py_eq, String.py_inj, BlockType.deltaType]
  simp only [BlockEvent.ofValue, herror, Bool.false_eq_true, if_false, BlockEvent.ofFields, htype,
    if_neg delta_ne_start, if_true, hindex, hdelta, BlockEvent.ofDelta, hkind]
  cases kind with
  | text => simp only [if_true, BlockEvent.ofText, htext]
  | toolUse => simp only [if_neg hne, if_true, BlockEvent.ofText, htext]

end Reading

/-! ## Writing deltas -/

section Writing

variable {event : PyStr}

/-- A delta that is written into an event. -/
theorem sentDelta_of_render {fields : Fields F} {index : ℤ} {kind : BlockType} {text : PyStr}
    (hok : Json.Ok (.obj fields))
    (hvalue : BlockEvent.ofValue (.obj fields) = some (.delta index kind text))
    (h : eventData event = some (.scalar ' ' :: render plainStyle (.obj fields))) :
    sentDelta F event = some (index, kind, text) := by
  rw [sentDelta, eventValue_of_render rfl hok h, hvalue]
  rfl

/-- Another delta does not make an error of an event. -/
theorem isStreamErrorEvent_set_delta {fields : Fields F} (h : isStreamErrorEvent (.obj fields) = false)
    (v : Json F) : isStreamErrorEvent (.obj (fields.set "delta".py v)) = false := by
  have htype : "type".py ≠ "delta".py := by simp [-String.py_eq, String.py_inj]
  have herror : "error".py ≠ "delta".py := by simp [-String.py_eq, String.py_inj]
  have hchoices : "choices".py ≠ "delta".py := by simp [-String.py_eq, String.py_inj]
  simp only [isStreamErrorEvent, Fields.has] at h ⊢
  rw [Fields.get?_set_of_ne htype, Fields.get?_set_of_ne herror, Fields.get?_set_of_ne hchoices]
  exact h

/-- **A rewritten delta**: the event carries the new text. -/
theorem sentDelta_rebuildEvent {line : PyStr} (hline : OneData event line) {fields d : Fields F}
    {index : ℤ} {kind : BlockType} (hok : Json.Ok (.obj fields))
    (herror : isStreamErrorEvent (.obj fields) = false)
    (htype : fields.get? "type".py = some (.str "content_block_delta".py))
    (hindex : fields.get? "index".py = some (.int index))
    (hdelta : fields.get? "delta".py = some (.obj d))
    (hkind : d.get? "type".py = some (.str kind.deltaType)) (out : PyStr) :
    ∃ data, dumpsText (.obj (fields.set "delta".py (.obj (d.set kind.textKey (.str out))))) =
        .ok data ∧
      sentDelta F (rebuildEvent event data (boundaryFrom event)) = some (index, kind, out) := by
  have hok' := hok.set "delta".py ((hok.get? hdelta).set kind.textKey (.str out))
  have hkey : "type".py ≠ kind.textKey := by
    cases kind with
    | text => simp [-String.py_eq, String.py_inj, BlockType.textKey]
    | toolUse => simp [-String.py_eq, String.py_inj, BlockType.textKey]
  refine ⟨_, by simp only [dumpsText, dumps_eq plainStyle hok', Except.mapError]; rfl, ?_⟩
  apply sentDelta_of_render hok'
  · apply ofValue_delta (isStreamErrorEvent_set_delta herror _)
    · rw [Fields.get?_set_of_ne (by simp [-String.py_eq, String.py_inj]), htype]
    · rw [Fields.get?_set_of_ne (by simp [-String.py_eq, String.py_inj]), hindex]
    · exact Fields.get?_set_self _ _ _
    · rw [Fields.get?_set_of_ne hkey, hkind]
    · exact Fields.get?_set_self _ _ _
  · exact eventData_rebuildEvent hline fun c hc =>
      isNewline_of_printable (printable_render plainStyle _ c hc)

/-- The event of a tail. -/
theorem eventData_deltaEvent {data boundary : PyStr} (hdata : ∀ c ∈ data, isNewline c = false)
    (hboundary : boundary ∈ boundaries) :
    eventData ("event: content_block_delta\ndata: ".py ++ data ++ boundary) =
      some (.scalar ' ' :: data) := by
  have hsplit : "event: content_block_delta\ndata: ".py ++ data =
      "\n".py.intercalate ["event: content_block_delta".py, "data: ".py ++ data] := by
    rw [List.intercalate_cons_cons, List.intercalate_singleton, ← List.append_assoc]
    rfl
  have hlines : clientLines ("event: content_block_delta\ndata: ".py ++ data ++ boundary) =
      ["event: content_block_delta".py, "data: ".py ++ data] ++ [[]] := by
    rw [hsplit]
    refine clientLines_intercalate (.inr rfl) hboundary (by simp) ?_
    simp only [List.forall_mem_cons, List.not_mem_nil, false_imp_iff, implies_true, and_true]
    exact ⟨by decide, isNewline_data hdata⟩
  have hread : dataLines ("event: content_block_delta\ndata: ".py ++ data ++ boundary) =
      ["data: ".py ++ data] := by
    rw [dataLines, hlines, List.cons_append, List.filter_cons_of_neg (by decide),
      List.singleton_append, List.filter_cons_of_pos (isDataLine_data data)]
    rfl
  rw [eventData_eq hread]
  rfl

theorem ofValue_blockDelta (kind : BlockType) (n : ℤ) (tail : PyStr) :
    BlockEvent.ofValue (blockDelta kind n tail : Json F) = some (.delta n kind tail) := by
  cases kind with
  | text => rfl
  | toolUse => rfl

/-- **A tail**: the event carries the text that was held. -/
theorem sentDelta_makeDeltaEvent (kind : BlockType) {n : ℤ} (hn : ShortInt n) (tail : PyStr) :
    ∃ s, makeDeltaEvent F kind n tail = .ok s ∧
      ∀ boundary ∈ boundaries, sentDelta F (s ++ boundary) = some (n, kind, tail) := by
  have hok := SseEvents.ok_blockDelta (F := F) kind hn tail
  refine ⟨_, by simp only [makeDeltaEvent, dumpsText, dumps_eq plainStyle hok, Except.mapError,
    bind, Except.bind]; rfl, ?_⟩
  intro boundary hboundary
  exact sentDelta_of_render hok (ofValue_blockDelta kind n tail)
    (eventData_deltaEvent (fun c hc =>
      isNewline_of_printable (printable_render plainStyle _ c hc)) hboundary)

end Writing

/-! ## What was sent -/

section Sent

variable {i j : ℤ} {k k' : BlockType} {event text : PyStr} {sent sent' : List PyStr}
  {all : List BlockEvent}

@[simp] theorem sentText_nil : sentText F i k [] = [] := rfl

@[simp] theorem sentText_cons :
    sentText F i k (event :: sent) = textFor F i k event ++ sentText F i k sent := List.flatMap_cons

@[simp] theorem sentText_append :
    sentText F i k (sent ++ sent') = sentText F i k sent ++ sentText F i k sent' :=
  List.flatMap_append

theorem textFor_of_none (h : sentDelta F event = none) : textFor F i k event = [] := by
  rw [textFor, h]
  rfl

theorem textFor_of_some (h : sentDelta F event = some (j, k', text)) :
    textFor F i k event = if j = i ∧ k' = k then text else [] := by
  rw [textFor, h]
  rfl

theorem passes_of_started (h : sentDelta F event = some (i, k, text))
    (hstart : .start i (some k) ∈ all) : passes F all event = false := by
  rw [passes, h]
  simp [hstart]

end Sent

/-! ## Events of one line -/

section DataEvent

/-- A text without line ends, with a boundary behind it. -/
theorem firstBoundary_line {s : PyStr} (h : ∀ c ∈ s, isNewline c = false) :
    firstBoundary (s ++ "\n\n".py) = some (s.length, 2) := by
  induction s with
  | nil => decide
  | cons c s ih =>
    obtain ⟨hc, hs⟩ := List.forall_mem_cons.mp h
    have hlen : boundaryLen (c :: (s ++ "\n\n".py)) = none := by
      have hcr : PyChar.scalar '\r' ≠ c := by
        rintro rfl
        cases hc
      have hlf : PyChar.scalar '\n' ≠ c := by
        rintro rfl
        cases hc
      simp [boundaryLen, hcr, hlf]
    rw [List.cons_append, firstBoundary, hlen, ih hs]
    rfl

/-- A value on one data line. -/
def dataEvent (value : Json F) : PyStr :=
  "data: ".py ++ render plainStyle value ++ "\n\n".py

/-- A value without raw line separators makes a well-formed event. -/
theorem anthropicEvent_dataEvent {value : Json F} {e : BlockEvent} (hok : value.Ok)
    (he : BlockEvent.ofValue value = some e) (hscalar : Scalar (render plainStyle value))
    (hbreaks : ∀ c ∈ render plainStyle value, isLineBreak c = false) :
    AnthropicEvent F (dataEvent value) e := by
  have hdata : ∀ c ∈ render plainStyle value, isNewline c = false :=
    fun c hc => isNewline_of_isLineBreak (hbreaks c hc)
  constructor
  · refine ⟨⟨_, firstBoundary_line (isNewline_data hdata), ?_⟩, ?_⟩
    · simp [dataEvent]
    · intro c hc
      rcases List.mem_append.mp hc with hc | hc
      · rcases List.mem_append.mp hc with hc | hc
        · exact (by decide : Scalar "data: ".py) c hc
        · exact hscalar c hc
      · exact (by decide : Scalar "\n\n".py) c hc
  · refine ⟨_, value, ⟨?_, dataLines_line hdata⟩, ?_, he⟩
    · intro c hc hbreak
      rcases List.mem_append.mp hc with hc | hc
      · rcases List.mem_append.mp hc with hc | hc
        · exact absurd hbreak
            (by simp [(by decide : ∀ c ∈ "data: ".py, isLineBreak c = false) c hc])
        · exact absurd hbreak (by simp [hbreaks c hc])
      · exact (by decide : ∀ c ∈ "\n\n".py, isNewline c = true) c hc
    · have hdrop : ("data: ".py ++ render plainStyle value).drop 5 =
          .scalar ' ' :: render plainStyle value := rfl
      rw [hdrop, loads_space, loads_render plainStyle hok (by simp [plainStyle])]

end DataEvent

/-! ## Streams, event by event -/

section Streams

variable {front said : List BlockEvent} {e : BlockEvent} {i : ℤ}

theorem openBlock_concat (front : List BlockEvent) (e : BlockEvent) (i : ℤ) :
    openBlock (front ++ [e]) i = openStep i (openBlock front i) e := by
  rw [openBlock, List.foldl_append]
  rfl

theorem inputs_concat (front : List BlockEvent) (e : BlockEvent) (i : ℤ) :
    inputs (front ++ [e]) i = inputs front i ++ (e.input i).toList := by
  rw [inputs, List.filterMap_append]
  cases h : e.input i with
  | none => simp [inputs, h]
  | some text => simp [inputs, h]

theorem BlockStream.concat (h : BlockStream (front ++ [e])) : BlockStream front ∧ Follows front e := by
  constructor
  · intro a x b hfront
    apply h a x (b ++ [e])
    rw [hfront]
    simp
  · exact h front e [] rfl

/-- A block that is open was started. -/
theorem started_of_open {kind : Option BlockType} (h : openBlock front i = some kind) :
    .start i kind ∈ front := by
  induction front using List.reverseRecOn with
  | nil => cases h
  | append_singleton front e ih =>
    rw [openBlock_concat] at h
    cases e with
    | start j kind' =>
      by_cases hj : j = i
      · rw [openStep, if_pos hj] at h
        cases h
        simp [hj]
      · rw [openStep, if_neg hj] at h
        exact List.mem_append_left _ (ih h)
    | stop j =>
      by_cases hj : j = i
      · rw [openStep, if_pos hj] at h
        cases h
      · rw [openStep, if_neg hj] at h
        exact List.mem_append_left _ (ih h)
    | error => cases h
    | delta j k text => exact List.mem_append_left _ (ih h)
    | other => exact List.mem_append_left _ (ih h)

/-- **A block has one kind**: its index is started once. -/
theorem BlockStream.once (h : BlockStream said) {a b : Option BlockType} (ha : .start i a ∈ said)
    (hb : .start i b ∈ said) : a = b := by
  induction said using List.reverseRecOn with
  | nil => cases ha
  | append_singleton front e ih =>
    obtain ⟨hfront, hnext⟩ := h.concat
    rcases List.mem_append.mp ha with ha | ha
    · rcases List.mem_append.mp hb with hb | hb
      · exact ih hfront ha hb
      · rw [← List.mem_singleton.mp hb] at hnext
        exact absurd ha (hnext a)
    · rw [← List.mem_singleton.mp ha] at hnext
      rcases List.mem_append.mp hb with hb | hb
      · exact absurd hb (hnext b)
      · have hsame := (List.mem_singleton.mp ha).trans (List.mem_singleton.mp hb).symm
        cases hsame
        rfl

/-- A block that was closed stays closed, and gets no more deltas. -/
theorem BlockStream.closed {back : List BlockEvent} (h : BlockStream (front ++ back))
    {kind : Option BlockType} (hstart : .start i kind ∈ front) (hclosed : openBlock front i = none) :
    openBlock (front ++ back) i = none ∧ inputs (front ++ back) i = inputs front i := by
  induction back using List.reverseRecOn with
  | nil => simp [hclosed]
  | append_singleton back e ih =>
    rw [← List.append_assoc] at h ⊢
    obtain ⟨hback, hnext⟩ := h.concat
    obtain ⟨hopen, hinputs⟩ := ih hback
    rw [openBlock_concat, inputs_concat, hopen, hinputs]
    cases e with
    | start j kind' =>
      have hj : j ≠ i := by
        rintro rfl
        exact hnext kind (List.mem_append_left _ hstart)
      simp [openStep, BlockEvent.input, hj]
    | delta j k text =>
      have hj : j ≠ i := by
        rintro rfl
        rcases hnext with hnext | hnext
        · rw [hopen] at hnext
          cases hnext
        · rw [hopen] at hnext
          cases hnext
      simp [openStep, BlockEvent.input, hj]
    | stop j => simp [openStep, BlockEvent.input]
    | error => simp [openStep, BlockEvent.input]
    | other => simp [openStep, BlockEvent.input]

end Streams

/-! ## The life of one block -/

/-- The text a desanitizer still holds, if there is one. -/
def heldText (b : Option (StreamingDesanitizer PyChar)) : PyStr := b.elim [] fun d => d.flush.1

/-- What an event does to a block that is restored: its desanitizer before the event, the
text that is sent for it, and its desanitizer after the event. -/
inductive BlockMove (mapping : List (Pair PyChar)) (i : ℤ) (k : BlockType) :
    Option (StreamingDesanitizer PyChar) → BlockEvent → PyStr →
      Option (StreamingDesanitizer PyChar) → Prop
  | start : BlockMove mapping i k none (.start i (some k)) [] (some (.new mapping k.escape))
  | delta {d d' : StreamingDesanitizer PyChar} {text out : PyStr}
      (hfeed : d.feed text = .ok (out, d')) :
      BlockMove mapping i k (some d) (.delta i k text) out (some d')
  | stop {b : Option (StreamingDesanitizer PyChar)} :
      BlockMove mapping i k b (.stop i) (heldText b) none
  | error {b : Option (StreamingDesanitizer PyChar)} :
      BlockMove mapping i k b .error (heldText b) none
  | elsewhere {b : Option (StreamingDesanitizer PyChar)} {e : BlockEvent} (hinput : e.input i = none)
      (hne : ∀ kind, e ≠ .start i kind) : BlockMove mapping i k b e [] b

/-- What has been sent for a block: with an open desanitizer what it gave for the deltas so
far, afterwards all of it, and before the block is started nothing. -/
def Spoken (mapping : List (Pair PyChar)) (i : ℤ) (k : BlockType) (front : List BlockEvent)
    (text : PyStr) : Option (StreamingDesanitizer PyChar) → Prop
  | some d =>
      .start i (some k) ∈ front ∧
        (StreamingDesanitizer.new mapping k.escape).feedAll (inputs front i) = .ok (text, d)
  | none =>
      .start i (some k) ∈ front ∧
          (StreamingDesanitizer.new mapping k.escape).stream (inputs front i) = .ok text ∨
        .start i (some k) ∉ front ∧ inputs front i = [] ∧ text = []

section Spoken

variable {mapping : List (Pair PyChar)} {i : ℤ} {k : BlockType} {front : List BlockEvent}
  {text : PyStr} {b : Option (StreamingDesanitizer PyChar)}

/-- The desanitizer is flushed and dropped. -/
theorem Spoken.flush (h : Spoken mapping i k front text b) :
    Spoken mapping i k front (text ++ heldText b) none := by
  cases b with
  | none =>
    rw [heldText, Option.elim_none, List.append_nil]
    exact h
  | some d =>
    obtain ⟨hstart, hfed⟩ := h
    refine Or.inl ⟨hstart, ?_⟩
    rw [StreamingDesanitizer.stream, hfed]
    rfl

/-- An event that is no delta of the block. -/
theorem Spoken.skip (h : Spoken mapping i k front text b) {e : BlockEvent} (hinput : e.input i = none)
    (hne : ∀ kind, e ≠ .start i kind) : Spoken mapping i k (front ++ [e]) text b := by
  have hsame : inputs (front ++ [e]) i = inputs front i := by
    rw [inputs_concat, hinput, Option.toList_none, List.append_nil]
  have hmem : .start i (some k) ∈ front ++ [e] ↔ .start i (some k) ∈ front := by
    rw [List.mem_append, List.mem_singleton]
    exact or_iff_left fun heq => hne _ heq.symm
  cases b with
  | some d =>
    unfold Spoken
    rw [hsame, hmem]
    exact h
  | none =>
    unfold Spoken
    rw [hsame, hmem]
    exact h

/-- **A block says what its desanitizer says**: one event of a stream. -/
theorem Spoken.move (h : Spoken mapping i k front text b) {e : BlockEvent} {out : PyStr}
    {b' : Option (StreamingDesanitizer PyChar)} (hmove : BlockMove mapping i k b e out b')
    (hnext : Follows front e) : Spoken mapping i k (front ++ [e]) (text ++ out) b' := by
  cases hmove with
  | start =>
    -- nothing was fed before, since the index is started once
    rcases h with ⟨hstart, -⟩ | ⟨-, hinputs, rfl⟩
    · exact absurd hstart (hnext _)
    · refine ⟨List.mem_append_right _ (List.mem_singleton.mpr rfl), ?_⟩
      rw [inputs_concat, hinputs]
      rfl
  | delta hfeed =>
    obtain ⟨hstart, hfed⟩ := h
    refine ⟨List.mem_append_left _ hstart, ?_⟩
    rw [inputs_concat, BlockEvent.input, if_pos rfl]
    exact feedAll_concat hfed hfeed
  | stop => exact h.flush.skip rfl (by simp)
  | error => exact h.flush.skip rfl (by simp)
  | elsewhere hinput hne =>
    rw [List.append_nil]
    exact h.skip hinput hne

end Spoken

end CorpLlmGateway.Sanitizer
