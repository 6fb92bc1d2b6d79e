import CorpLlmGateway.Sanitizer.ChatLanes

/-!
# Events that do not raise

Which events `SseStreamDesanitizer` handles without raising. The chat branch skips what it
cannot use; the content blocks convert their index with `int(...)`, and the tail of a
choice that finishes is merged into a delta of any shape, so these can raise.

* `processEvent_ready` — an event that has nothing of the kind is handled, and leaves
  buffers that can be fed and written;
* `stream_returns` — a stream of such events returns.
-/

namespace CorpLlmGateway.Sanitizer

open Json Framing PyStr Numerals ChatChoice

variable {F : Type}

/-! ## Indices -/

/-- An integer that was read from a text can be written. -/
theorem shortInt_of_intOfText {s : PyStr} {n : ℤ} (h : intOfText s = some n) : ShortInt n := by
  unfold intOfText at h
  split at h
  · exact shortInt_of_parseInt h
  · cases h

theorem shortInt_of_coerceToolIndex {j : Json F} (hj : j.Ok) {n : ℤ}
    (h : coerceToolIndex j = some n) : ShortInt n := by
  cases hj with
  | int hn =>
    cases h
    exact hn
  | str s => exact shortInt_of_intOfText h
  | _ => cases h

/-- The value of a field, or a default. -/
theorem ok_getD {fields : Fields F} (h : Json.Ok (.obj fields)) (key : PyStr) {default : Json F}
    (hdefault : default.Ok) : (getD fields key default).Ok := by
  unfold getD
  cases hv : fields.get? key with
  | none => exact hdefault
  | some v => exact h.get? hv

theorem ok_zero : (Json.int 0 : Json F).Ok := .int (by decide)

/-- What `int(...)` converts: the field is missing, a truth value, an integer, a finite
number, or the text of an integer. -/
def Indexable [Floats F] : Option (Json F) → Prop
  | none | some (.bool _) | some (.int _) => True
  | some (.float f) =>
      ∃ q, Floats.value f = some q ∧ ShortInt (if q < 0 then -⌊-q⌋ else ⌊q⌋)
  | some (.str s) => (intOfText s).isSome = true
  | _ => False

theorem blockIndex_ready [Host F] {fields : Fields F} (hfields : Json.Ok (.obj fields))
    (h : Indexable (fields.get? "index".py)) :
    ∃ n, SseEvents.blockIndex fields = .ok n ∧ ShortInt n := by
  unfold SseEvents.blockIndex getD
  cases hv : fields.get? "index".py with
  | none => exact ⟨0, rfl, by decide⟩
  | some v =>
    rw [hv] at h
    cases v with
    | bool b =>
      refine ⟨_, rfl, ?_⟩
      cases b <;> decide
    | int n =>
      cases hfields.get? hv with
      | int hn => exact ⟨n, rfl, hn⟩
    | float f =>
      obtain ⟨q, hq, hshort⟩ := h
      exact ⟨_, by simp only [Option.getD_some, intOfValue, hq], hshort⟩
    | str s =>
      obtain ⟨n, hn⟩ := Option.isSome_iff_exists.mp h
      exact ⟨n, by simp only [Option.getD_some, intOfValue, hn], shortInt_of_intOfText hn⟩
    | _ => exact h.elim

/-! ## Choices that can be fed -/

/-- A stream that has not been flushed can be fed. -/
theorem feed_of_live {d : StreamingDesanitizer PyChar} (h : d.flushed = false) (s : PyStr) :
    ∃ out d', d.feed s = .ok (out, d') ∧ d'.flushed = false := by
  unfold StreamingDesanitizer.feed
  rw [if_neg (by simp [h])]
  simp only
  split_ifs
  all_goals exact ⟨_, _, rfl, h⟩

theorem feedText_of_live {d : StreamingDesanitizer PyChar} (h : d.flushed = false) (s : PyStr) :
    ∃ out d', d.feedText s = .ok (out, d') ∧ d'.flushed = false := by
  obtain ⟨out, d', hfeed, hlive⟩ := feed_of_live h s
  refine ⟨out, d', ?_, hlive⟩
  rw [StreamingDesanitizer.feedText, hfeed]
  rfl

namespace ChatChoice

/-- The streams of a choice can be fed, and the indices of its calls can be written. -/
structure Ready (c : ChatChoice) : Prop where
  live : ∀ p d, c.stream p = some d → d.flushed = false
  short : ∀ t d, c.stream (.call t) = some d → ShortInt t

variable {c c' : ChatChoice}

theorem ready_new (mapping : List (Pair PyChar)) : (ChatChoice.new mapping).Ready where
  live p d h := by simp [stream_new] at h
  short t d h := by simp [stream_new] at h

/-- A choice with fewer streams. -/
theorem Ready.sub (h : c.Ready) (hsub : ∀ {p d}, c'.stream p = some d → c.stream p = some d) :
    c'.Ready where
  live p d hp := h.live p d (hsub hp)
  short t d ht := h.short t d (hsub ht)

/-- A part gets another stream. -/
theorem Ready.put (h : c.Ready) {p : Part} {d : StreamingDesanitizer PyChar}
    (hstream : ∀ q, c'.stream q = if q = p then some d else c.stream q)
    (hd : d.flushed = false) (hshort : ∀ t, p = .call t → ShortInt t) : c'.Ready where
  live q e hq := by
    rw [hstream] at hq
    split at hq
    · cases hq
      exact hd
    · exact h.live q e hq
  short t e ht := by
    rw [hstream] at ht
    split at ht
    · next hp => exact hshort t hp.symm
    · exact h.short t e ht

/-- The stream of a part, or a new one, is fed. -/
theorem Ready.feedText (h : c.Ready) (p : Part) (mapping : List (Pair PyChar))
    (escape : Option (PyStr → PyStr)) (s : PyStr) :
    ∃ out d, ((c.stream p).getD (.new mapping escape)).feedText s = .ok (out, d) ∧
      d.flushed = false := by
  refine feedText_of_live ?_ s
  cases hp : c.stream p with
  | none => rfl
  | some d => exact h.live p d hp

/-- One tool call of a delta. -/
theorem feedToolCall_ready (h : c.Ready) {tc : Json F} (htc : tc.Ok) :
    ∃ tc' c', c.feedToolCall tc = .ok (tc', c') ∧ tc'.Ok ∧ c'.Ready := by
  unfold feedToolCall
  split
  · next call =>
    split
    · next fn hfn =>
      split
      · next arguments index hargs hindex =>
        have hshort := shortInt_of_coerceToolIndex (ok_getD htc _ ok_zero) hindex
        obtain ⟨out, d, hfeed, hd⟩ := h.feedText (.call index) c.tools.mapping
          (some jsonStringEscape) arguments
        have hfed : c.tools.feed index arguments =
            .ok (out, { c.tools with byIndex := c.tools.byIndex.insert index d }) := by
          have hstream : c.tools.byIndex.get? index = c.stream (.call index) := rfl
          simp only [OpenAiToolCallDesanitizer.feed, hstream, hfeed, bind, Except.bind]
        simp only [hfed, bind, Except.bind]
        refine ⟨_, _, rfl, htc.set _ ((htc.get? hfn).set _ (.str out)), ?_⟩
        refine h.put (p := .call index) (d := d) (fun q => ?_) hd fun t ht => by
          cases ht
          exact hshort
        cases q with
        | call t => simp [stream, Dict.get?_insert]
        | _ => simp [stream]
      · exact ⟨_, c, rfl, htc, h⟩
    · exact ⟨_, c, rfl, htc, h⟩
  · exact ⟨_, c, rfl, htc, h⟩

/-- The tool calls of a delta. -/
theorem feedToolCalls_ready (h : c.Ready) {tcs : List (Json F)} (htcs : ∀ tc ∈ tcs, tc.Ok) :
    ∃ tcs' c', c.feedToolCalls tcs = .ok (tcs', c') ∧ (∀ tc ∈ tcs', tc.Ok) ∧ c'.Ready := by
  induction tcs generalizing c with
  | nil => exact ⟨[], c, rfl, by simp, h⟩
  | cons tc tcs ih =>
    obtain ⟨htc, htcs⟩ := List.forall_mem_cons.mp htcs
    obtain ⟨tc', c₁, hfeed, hok, hready⟩ := feedToolCall_ready h htc
    obtain ⟨tcs', c₂, hfeeds, hoks, hready⟩ := ih hready htcs
    refine ⟨tc' :: tcs', c₂, ?_, List.forall_mem_cons.mpr ⟨hok, hoks⟩, hready⟩
    simp only [feedToolCalls, hfeed, hfeeds, bind, Except.bind]

end ChatChoice

/-! ## Deltas that take a tail -/

/-- A delta that takes a tail: its content is a text or counts as none, and its tool calls
can be listed. -/
structure Mergeable [Floats F] (delta : Fields F) : Prop where
  content : ∀ j, delta.get? "content".py = some j → (∃ s, j = .str s) ∨ j.truthy = false
  calls : ∀ j, delta.get? "tool_calls".py = some j →
    (∃ items, j = .arr items) ∨ (∃ s, j = .str s) ∨ (∃ fs, j = .obj fs) ∨ j.truthy = false

theorem ok_calls {delta : Fields F} (hdelta : Json.Ok (.obj delta)) :
    ∀ tcs, (DeltaParts.of delta).calls = some tcs → ∀ tc ∈ tcs, tc.Ok := by
  intro tcs htcs
  simp only [DeltaParts.of] at htcs
  split at htcs
  · next calls hcalls =>
    cases htcs
    exact (hdelta.get? hcalls).items
  · cases htcs

theorem ok_function {delta : Fields F} (hdelta : Json.Ok (.obj delta)) :
    ∀ fn s, (DeltaParts.of delta).functionCall = some (fn, s) → Json.Ok (.obj fn) := by
  intro fn s hfn
  simp only [DeltaParts.of] at hfn
  split at hfn
  · next fields hfields =>
    split at hfn
    · cases hfn
      exact hdelta.get? hfields
    · cases hfn
  · cases hfn

section Deltas

variable [Host F] {delta delta' : Fields F} {c : ChatChoice}

/-- A text as the content, or a list of tool calls, or any other field. -/
theorem Mergeable.set (h : Mergeable delta) {key : PyStr} {v : Json F}
    (hcontent : key = "content".py → ∃ s, v = .str s)
    (hcalls : key = "tool_calls".py → ∃ items, v = .arr items) : Mergeable (delta.set key v) where
  content j hj := by
    rw [Fields.get?_set] at hj
    split at hj
    · next hkey =>
      cases hj
      exact .inl (hcontent hkey.symm)
    · exact h.content j hj
  calls j hj := by
    rw [Fields.get?_set] at hj
    split at hj
    · next hkey =>
      cases hj
      exact .inl (hcalls hkey.symm)
    · exact h.calls j hj

/-- What feeding a delta leaves: a delta and a choice that can be written and fed. -/
structure Fed (delta delta' : Fields F) (c' : ChatChoice) : Prop where
  ok : Json.Ok (.obj delta')
  ready : c'.Ready
  mergeable : Mergeable delta → Mergeable delta'

theorem feedContent_ready (mapping : List (Pair PyChar)) (h : c.Ready) (hdelta : Json.Ok (.obj delta))
    (content : Option PyStr) :
    ∃ delta' c', feedContent mapping content delta c = .ok (delta', c') ∧ Fed delta delta' c' := by
  cases content with
  | none => exact ⟨delta, c, rfl, hdelta, h, id⟩
  | some s =>
    obtain ⟨out, d, hfeed, hd⟩ := h.feedText .content mapping none s
    refine ⟨delta.set "content".py (.str out), { c with content := some d }, ?_,
      hdelta.set _ (.str out), ?_, fun hm => hm.set (fun _ => ⟨out, rfl⟩) fun hkey => ?_⟩
    · rw [show c.stream .content = c.content from rfl] at hfeed
      simp only [feedContent, hfeed, bind, Except.bind]
    · refine h.put (p := .content) (d := d) (fun q => ?_) hd (by simp)
      cases q <;> simp [stream]
    · exact absurd hkey (by decide)

theorem feedCalls_ready (h : c.Ready) (hdelta : Json.Ok (.obj delta)) {calls : Option (List (Json F))}
    (hcalls : ∀ tcs, calls = some tcs → ∀ tc ∈ tcs, tc.Ok) :
    ∃ delta' c', feedCalls calls delta c = .ok (delta', c') ∧ Fed delta delta' c' := by
  cases calls with
  | none => exact ⟨delta, c, rfl, hdelta, h, id⟩
  | some tcs =>
    obtain ⟨tcs', c', hfeed, hoks, hready⟩ := feedToolCalls_ready h (hcalls tcs rfl)
    refine ⟨delta.set "tool_calls".py (.arr tcs'), c', ?_, hdelta.set _ (.arr hoks), hready,
      fun hm => hm.set (fun hkey => ?_) fun _ => ⟨tcs', rfl⟩⟩
    · simp only [feedCalls, hfeed, bind, Except.bind]
    · exact absurd hkey (by decide)

theorem feedFunction_ready (mapping : List (Pair PyChar)) (h : c.Ready) (hdelta : Json.Ok (.obj delta))
    {fc : Option (Fields F × PyStr)} (hfc : ∀ fn s, fc = some (fn, s) → Json.Ok (.obj fn)) :
    ∃ delta' c', feedFunction mapping fc delta c = .ok (delta', c') ∧ Fed delta delta' c' := by
  cases fc with
  | none => exact ⟨delta, c, rfl, hdelta, h, id⟩
  | some p =>
    obtain ⟨fn, s⟩ := p
    obtain ⟨out, d, hfeed, hd⟩ := h.feedText .functionCall mapping (some jsonStringEscape) s
    refine ⟨delta.set "function_call".py (.obj (fn.set "arguments".py (.str out))),
      { c with functionCall := some d }, ?_, hdelta.set _ ((hfc fn s rfl).set _ (.str out)), ?_,
      fun hm => hm.set (fun hkey => ?_) fun hkey => ?_⟩
    · rw [show c.stream .functionCall = c.functionCall from rfl] at hfeed
      simp only [feedFunction, hfeed, bind, Except.bind]
    · refine h.put (p := .functionCall) (d := d) (fun q => ?_) hd (by simp)
      cases q <;> simp [stream]
    all_goals exact absurd hkey (by decide)

/-- A delta that is fed, part by part. -/
theorem feedDelta_ready (mapping : List (Pair PyChar)) (h : c.Ready) (hdelta : Json.Ok (.obj delta)) :
    ∃ delta₁ c₁ delta₂ c₂ delta₃ c₃,
      feedContent mapping (DeltaParts.of delta).content delta c = .ok (delta₁, c₁) ∧
      feedCalls (DeltaParts.of delta).calls delta₁ c₁ = .ok (delta₂, c₂) ∧
      feedFunction mapping (DeltaParts.of delta).functionCall delta₂ c₂ = .ok (delta₃, c₃) ∧
      Fed delta delta₃ c₃ := by
  obtain ⟨delta₁, c₁, hfeed₁, hfed₁⟩ :=
    feedContent_ready mapping h hdelta (DeltaParts.of delta).content
  obtain ⟨delta₂, c₂, hfeed₂, hfed₂⟩ := feedCalls_ready hfed₁.ready hfed₁.ok (ok_calls hdelta)
  obtain ⟨delta₃, c₃, hfeed₃, hfed₃⟩ :=
    feedFunction_ready mapping hfed₂.ready hfed₂.ok (ok_function hdelta)
  exact ⟨delta₁, c₁, delta₂, c₂, delta₃, c₃, hfeed₁, hfeed₂, hfeed₃, hfed₃.ok, hfed₃.ready,
    fun hm => hfed₃.mergeable (hfed₂.mergeable (hfed₁.mergeable hm))⟩

/-! ## Merging a tail -/

omit [Host F] in
/-- A tail behind the calls of a delta. -/
theorem ok_mergeCallRev {e : ℤ × PyStr} {xs xs' : List (Json F)} (hxs : ∀ x ∈ xs, x.Ok)
    (h : mergeCallRev e xs = some xs') : ∀ x ∈ xs', x.Ok := by
  induction xs generalizing xs' with
  | nil => cases h
  | cons x xs ih =>
    obtain ⟨hx, hxs⟩ := List.forall_mem_cons.mp hxs
    rw [mergeCallRev] at h
    split at h
    · next call fn arguments htakes =>
      cases h
      obtain ⟨hcall, ⟨hfn, -⟩, -⟩ := takesTail_some htakes
      rw [hcall] at hx
      exact List.forall_mem_cons.mpr ⟨hx.set _ ((hx.get? hfn).set _ (.str _)), hxs⟩
    · obtain ⟨ys, hys, rfl⟩ := Option.map_eq_some_iff.mp h
      exact List.forall_mem_cons.mpr ⟨hx, ih hxs hys⟩

omit [Host F] in
theorem ok_mergeCalls {es : List (ℤ × PyStr)} (hes : ∀ e ∈ es, ShortInt e.1)
    {calls : List (Json F)} (hcalls : ∀ x ∈ calls, x.Ok) :
    ∀ x ∈ es.foldl mergeCall calls, x.Ok := by
  induction es generalizing calls with
  | nil => exact hcalls
  | cons e es ih =>
    obtain ⟨he, hes⟩ := List.forall_mem_cons.mp hes
    refine ih hes ?_
    unfold mergeCall
    split
    · next xs hxs =>
      intro x hx
      exact ok_mergeCallRev (fun y hy => hcalls y (List.mem_reverse.mp hy)) hxs x
        (List.mem_reverse.mp hx)
    · exact List.forall_mem_append.mpr ⟨hcalls, by simpa using ok_callJson he⟩

theorem orEmptyAppend_ready (h : Mergeable delta) (s : PyStr) :
    ∃ t, orEmptyAppend (delta.get? "content".py) s = .ok t := by
  cases hj : delta.get? "content".py with
  | none => exact ⟨s, rfl⟩
  | some j =>
    rcases h.content j hj with ⟨t, rfl⟩ | hfalse
    · exact ⟨t ++ s, rfl⟩
    · cases j with
      | str t => exact ⟨t ++ s, rfl⟩
      | _ => exact ⟨s, by simp only [orEmptyAppend, hfalse, Bool.false_eq_true, if_false]⟩

theorem listOf_ready (h : Mergeable delta) (hdelta : Json.Ok (.obj delta)) :
    ∃ calls, listOf (delta.get? "tool_calls".py) = .ok calls ∧ ∀ x ∈ calls, x.Ok := by
  cases hj : delta.get? "tool_calls".py with
  | none => exact ⟨[], rfl, by simp⟩
  | some j =>
    have hok := hdelta.get? hj
    cases j with
    | arr items => exact ⟨items, rfl, hok.items⟩
    | str s =>
      refine ⟨_, rfl, fun x hx => ?_⟩
      obtain ⟨c, -, rfl⟩ := List.mem_map.mp hx
      exact .str _
    | obj fs =>
      refine ⟨_, rfl, fun x hx => ?_⟩
      obtain ⟨e, -, rfl⟩ := List.mem_map.mp hx
      exact .str _
    | _ =>
      rcases h.calls _ hj with ⟨_, h⟩ | ⟨_, h⟩ | ⟨_, h⟩ | hfalse
      · cases h
      · cases h
      · cases h
      · exact ⟨[], by simp only [listOf, hfalse, Bool.false_eq_true, if_false], by simp⟩

/-- The function call of a delta with a tail. -/
theorem mergeFunctionCall_ready (h : Mergeable delta) (hdelta : Json.Ok (.obj delta)) (s : PyStr) :
    Mergeable (mergeFunctionCall delta s) ∧ Json.Ok (.obj (mergeFunctionCall delta s)) := by
  unfold mergeFunctionCall
  refine ⟨h.set (fun hkey => absurd hkey (by decide)) fun hkey => absurd hkey (by decide),
    hdelta.set _ (Json.Ok.set ?_ _ (.str _))⟩
  split
  · next fields hfields => exact hdelta.get? hfields
  · exact .empty

/-- What `_merge_tail` does behind the content. -/
def mergeRest (delta : Fields F) (tail : Tail) : Except Raised (Fields F) :=
  let delta :=
    match tail.functionCall with
    | some s => mergeFunctionCall delta s
    | none => delta
  (listOf (delta.get? "tool_calls".py)).bind fun calls =>
    let calls := tail.calls.foldl mergeCall calls
    .ok (if calls.isEmpty then delta else delta.set "tool_calls".py (.arr calls))

theorem mergeTail_eq_rest (delta : Fields F) (tail : Tail) :
    mergeTail delta tail =
      match tail.content with
      | some s => (orEmptyAppend (delta.get? "content".py) s).bind fun t =>
          mergeRest (delta.set "content".py (.str t)) tail
      | none => mergeRest delta tail := by
  unfold mergeTail
  cases tail.content <;> rfl

theorem mergeRest_ready (h : Mergeable delta) (hdelta : Json.Ok (.obj delta)) {tail : Tail}
    (htail : ∀ e ∈ tail.calls, ShortInt e.1) :
    ∃ delta', mergeRest delta tail = .ok delta' ∧ Json.Ok (.obj delta') := by
  have hcalls : ∀ {delta₁ : Fields F}, Mergeable delta₁ → Json.Ok (.obj delta₁) →
      ∃ delta', ((listOf (delta₁.get? "tool_calls".py)).bind fun calls =>
        Except.ok (if (tail.calls.foldl mergeCall calls).isEmpty then delta₁
          else delta₁.set "tool_calls".py (.arr (tail.calls.foldl mergeCall calls)))) =
            .ok delta' ∧ Json.Ok (.obj delta') := by
    intro delta₁ hm₁ hok₁
    obtain ⟨calls, hlist, hcalls⟩ := listOf_ready hm₁ hok₁
    refine ⟨_, by rw [hlist]; rfl, ?_⟩
    split
    · exact hok₁
    · exact hok₁.set _ (.arr (ok_mergeCalls htail hcalls))
  unfold mergeRest
  cases tail.functionCall with
  | none => exact hcalls h hdelta
  | some s =>
    obtain ⟨hm, hok⟩ := mergeFunctionCall_ready h hdelta s
    exact hcalls hm hok

/-- **A tail that rides along**: it is merged, and the delta can be written. -/
theorem mergeTail_ready (h : Mergeable delta) (hdelta : Json.Ok (.obj delta)) {tail : Tail}
    (htail : ∀ e ∈ tail.calls, ShortInt e.1) :
    ∃ delta', mergeTail delta tail = .ok delta' ∧ Json.Ok (.obj delta') := by
  rw [mergeTail_eq_rest]
  cases tail.content with
  | none => exact mergeRest_ready h hdelta htail
  | some s =>
    obtain ⟨t, ht⟩ := orEmptyAppend_ready h s
    have hm : Mergeable (delta.set "content".py (.str t)) :=
      h.set (fun _ => ⟨t, rfl⟩) fun hkey => absurd hkey (by decide)
    obtain ⟨delta', hmerge, hok⟩ := mergeRest_ready hm (hdelta.set _ (.str t)) htail
    exact ⟨delta', by simp only [ht, Except.bind]; exact hmerge, hok⟩

end Deltas

/-! ## Choices of an event -/

/-- A choice whose delta takes a tail if it finishes. -/
def Finishable [Floats F] (choice : Json F) : Prop :=
  ∀ fields delta, choice = .obj fields → Fields.get? fields "delta".py = some (.obj delta) →
    isNone (Fields.get? fields "finish_reason".py) = false → Mergeable delta

namespace SseEvents

variable [Host F] {st : SseEvents F}

/-- Buffers that can be fed and written. -/
structure Ready (st : SseEvents F) : Prop where
  blocks : ∀ n d, st.blockDesanitizers.get? n = some d → ShortInt n ∧ d.flushed = false
  info : Json.Ok (.obj st.chatMeta)
  choice : ∀ n c, st.chat.get? n = some c → ShortInt n ∧ c.Ready

omit [Host F] in
theorem ready_new (mapping : List (Pair PyChar)) : (SseEvents.new mapping : SseEvents F).Ready where
  blocks n d h := by simp [new] at h
  info := .empty
  choice n c h := by simp [new] at h

omit [Host F] in
/-- The choice of an index, or a new one. -/
theorem Ready.choice_getD (h : st.Ready) (n : ℤ) :
    ((st.chat.get? n).getD (.new st.mapping)).Ready := by
  cases hc : st.chat.get? n with
  | none => exact ChatChoice.ready_new _
  | some c => exact (h.choice n c hc).2

omit [Host F] in
theorem Ready.insertChoice (h : st.Ready) {n : ℤ} (hn : ShortInt n) {c : ChatChoice} (hc : c.Ready) :
    ({ st with chat := st.chat.insert n c } : SseEvents F).Ready where
  blocks := h.blocks
  info := h.info
  choice m c' hm := by
    simp only [Dict.get?_insert, beq_iff_eq] at hm
    split at hm
    · next hmn =>
      cases hm
      exact ⟨hmn ▸ hn, hc⟩
    · exact h.choice m c' hm

omit [Host F] in
theorem Ready.eraseChoice (h : st.Ready) (n : ℤ) :
    ({ st with chat := st.chat.erase n } : SseEvents F).Ready where
  blocks := h.blocks
  info := h.info
  choice m c' hm := by
    simp only [Dict.get?_erase, beq_iff_eq] at hm
    split at hm
    · cases hm
    · exact h.choice m c' hm

omit [Host F] in
/-- A tail that is due before the calls of a delta. -/
theorem tailBeforeCalls_ready {c : ChatChoice} (hc : c.Ready) (calls : Option (List (Json F))) :
    (tailBeforeCalls calls c).2.Ready ∧
      ∀ tail, (tailBeforeCalls calls c).1 = some tail → ∀ e ∈ tail.calls, ShortInt e.1 := by
  unfold tailBeforeCalls
  cases calls.bind firstIndex with
  | none => exact ⟨hc, nofun⟩
  | some first =>
    simp only
    split
    · exact ⟨hc, nofun⟩
    · refine ⟨hc.sub fun hq => stream_flushBeforeToolCall c hq, ?_⟩
      rintro tail ⟨⟩
      exact short_flushBeforeToolCall hc.short

theorem pendingEvents_ready (h : st.Ready) {n : ℤ} (hn : ShortInt n) {pending : Option Tail}
    (hpending : ∀ tail, pending = some tail → ∀ e ∈ tail.calls, ShortInt e.1) :
    ∃ before, st.pendingEvents n pending = .ok before := by
  cases pending with
  | none => exact ⟨[], rfl⟩
  | some tail =>
    obtain ⟨s, hs, -⟩ := chatTail_spec h.info hn (hpending tail rfl)
    simp only [pendingEvents, hs]
    split
    · exact ⟨[], rfl⟩
    · exact ⟨[s], rfl⟩

theorem finishDelta_ready (h : st.Ready) {fields delta newDelta : Fields F}
    (hfields : Json.Ok (.obj fields)) {n : ℤ} (hn : ShortInt n) {finishing : Bool}
    {c : ChatChoice} (hfed : Fed delta newDelta c) (hfinish : finishing = true → Mergeable delta)
    (before : List PyStr) :
    ∃ r st', st.finishDelta fields delta newDelta n finishing before c = .ok (r, before, st') ∧
      st'.Ready ∧ ∀ choice, r = .new choice → choice.Ok := by
  unfold finishDelta
  cases finishing with
  | true =>
    obtain ⟨delta', hmerge, hok⟩ :=
      mergeTail_ready (hfed.mergeable (hfinish rfl)) hfed.ok (short_flush hfed.ready.short)
    rw [if_pos rfl, hmerge]
    refine ⟨_, _, rfl, h.eraseChoice n, ?_⟩
    rintro choice ⟨⟩
    exact hfields.set _ hok
  | false =>
    rw [if_neg (by simp)]
    refine ⟨_, _, rfl, h.insertChoice hn hfed.ready, ?_⟩
    intro choice hchoice
    split at hchoice
    · cases hchoice
    · cases hchoice
      exact hfields.set _ hfed.ok

theorem rewriteDelta_ready (h : st.Ready) {fields delta : Fields F} (hfields : Json.Ok (.obj fields))
    (hdelta : Json.Ok (.obj delta)) {n : ℤ} (hn : ShortInt n) {finishing : Bool}
    (hfinish : finishing = true → Mergeable delta) :
    ∃ r before st', st.rewriteDelta fields delta n finishing = .ok (r, before, st') ∧ st'.Ready ∧
      ∀ choice, r = .new choice → choice.Ok := by
  obtain ⟨hc, htail⟩ := tailBeforeCalls_ready (h.choice_getD n) (DeltaParts.of delta).calls
  obtain ⟨before, hbefore⟩ := pendingEvents_ready h hn htail
  obtain ⟨delta₁, c₁, delta₂, c₂, delta₃, c₃, hfeed₁, hfeed₂, hfeed₃, hfed⟩ :=
    feedDelta_ready st.mapping hc hdelta
  obtain ⟨r, st', hfinished, hready, hr⟩ := finishDelta_ready h hfields hn hfed hfinish before
  refine ⟨r, before, st', ?_, hready, hr⟩
  rw [rewriteDelta_eq]
  simp only [hbefore, hfeed₁, hfeed₂, hfeed₃, Except.bind]
  exact hfinished

theorem rewriteChoice_ready (h : st.Ready) {choice : Json F} (hchoice : choice.Ok)
    (hfinish : Finishable choice) :
    ∃ r before st', st.rewriteChoice choice = .ok (r, before, st') ∧ st'.Ready ∧
      ∀ choice', r = .new choice' → choice'.Ok := by
  have hsame : ∃ (r : Rewritten F) (before : List PyStr) (st' : SseEvents F),
      (Except.ok (.same, [], st) : Except Raised _) = .ok (r, before, st') ∧ st'.Ready ∧
        ∀ choice' : Json F, r = .new choice' → choice'.Ok := by
    refine ⟨_, _, st, rfl, h, ?_⟩
    rintro choice' ⟨⟩
  unfold rewriteChoice
  split
  · next fields =>
    split
    · next delta index hdelta hindex =>
      simp only
      split
      · exact hsame
      · have hshort := shortInt_of_coerceToolIndex (ok_getD hchoice _ ok_zero) hindex
        refine rewriteDelta_ready h hchoice (hchoice.get? hdelta) hshort fun hfin => ?_
        exact hfinish fields delta rfl hdelta (by simpa using hfin)
    · exact hsame
  · exact hsame

theorem rewriteChoices_ready (h : st.Ready) {choices : List (Json F)}
    (hchoices : ∀ c ∈ choices, c.Ok ∧ Finishable c) :
    ∃ rs before st', st.rewriteChoices choices = .ok (rs, before, st') ∧ st'.Ready ∧
      ∀ c ∈ newChoices choices rs, c.Ok := by
  induction choices generalizing st with
  | nil => exact ⟨[], [], st, rfl, h, by simp [newChoices]⟩
  | cons c choices ih =>
    obtain ⟨hc, hchoices⟩ := List.forall_mem_cons.mp hchoices
    obtain ⟨r, before, st₁, hrewrite, hready, hr⟩ := rewriteChoice_ready h hc.1 hc.2
    obtain ⟨rs, befores, st₂, hrewrites, hready, hrs⟩ := ih hready hchoices
    refine ⟨r :: rs, before ++ befores, st₂, ?_, hready, ?_⟩
    · simp only [rewriteChoices, hrewrite, hrewrites, bind, Except.bind]
    · intro x hx
      simp only [newChoices, List.zip_cons_cons, List.mem_filterMap, List.mem_cons,
        exists_eq_or_imp] at hx
      rcases hx with hx | hx
      · -- the choice itself, or its rewritten copy
        cases r with
        | same =>
          cases hx
          exact hc.1
        | dropped => cases hx
        | new choice =>
          cases hx
          exact hr x rfl
      · exact hrs x (by simpa only [newChoices, List.mem_filterMap] using hx)

theorem dumpsText_ready {j : Json F} (h : j.Ok) : ∃ s, dumpsText j = .ok s := by
  refine ⟨render plainStyle j, ?_⟩
  simp only [dumpsText, dumps_eq plainStyle h, Except.mapError]

omit [Host F] in
theorem Ready.withInfo (h : st.Ready) {found : Fields F} (hfound : ∀ e ∈ found, e.2.Ok) :
    ({ st with chatMeta := st.chatMeta.update found } : SseEvents F).Ready where
  blocks := h.blocks
  info := h.info.update hfound
  choice := h.choice

theorem processChat_ready (h : st.Ready) (event : PyStr) {fields : Fields F}
    (hfields : Json.Ok (.obj fields)) {choices : List (Json F)}
    (hchoices : ∀ c ∈ choices, c.Ok ∧ Finishable c) :
    ∃ out st', st.processChat event fields choices = .ok (out, st') ∧ st'.Ready := by
  have hfound : ∀ e ∈ chatMetaKeys.filterMap fun k => (fields.get? k).map fun v => (k, v),
      e.2.Ok := by
    intro e he
    obtain ⟨k, -, hk⟩ := List.mem_filterMap.mp he
    obtain ⟨v, hv, rfl⟩ := Option.map_eq_some_iff.mp hk
    exact hfields.get? hv
  obtain ⟨rs, before, st', hrewrite, hready, hrs⟩ :=
    rewriteChoices_ready (h.withInfo hfound) hchoices
  obtain ⟨data, hdata⟩ := dumpsText_ready (hfields.set "choices".py (.arr hrs))
  simp only [processChat, hrewrite, hdata, bind, Except.bind]
  split_ifs
  all_goals exact ⟨_, st', rfl, hready⟩

/-! ## Content blocks -/

omit [Host F] in
theorem Ready.insertBlock (h : st.Ready) {n : ℤ} (hn : ShortInt n) {d : StreamingDesanitizer PyChar}
    (hd : d.flushed = false) (types : Dict ℤ BlockType) :
    ({ st with
      blockDesanitizers := st.blockDesanitizers.insert n d
      blockTypes := types } : SseEvents F).Ready where
  blocks m d' hm := by
    simp only [Dict.get?_insert, beq_iff_eq] at hm
    split at hm
    · next hmn =>
      cases hm
      exact ⟨hmn ▸ hn, hd⟩
    · exact h.blocks m d' hm
  info := h.info
  choice := h.choice

omit [Host F] in
theorem Ready.eraseBlock (h : st.Ready) (n : ℤ) (types : Dict ℤ BlockType) :
    ({ st with
      blockDesanitizers := st.blockDesanitizers.erase n
      blockTypes := types } : SseEvents F).Ready where
  blocks m d' hm := by
    simp only [Dict.get?_erase, beq_iff_eq] at hm
    split at hm
    · cases hm
    · exact h.blocks m d' hm
  info := h.info
  choice := h.choice

omit [Host F] in
theorem ok_blockDelta (kind : BlockType) {n : ℤ} (hn : ShortInt n) (tail : PyStr) :
    Json.Ok (blockDelta kind n tail : Json F) := by
  have hdelta : ∀ {key : PyStr} {t : PyStr}, "type".py ≠ key →
      Json.Ok (.obj [("type".py, .str t), (key, .str tail)] : Json F) := by
    intro key t hkey
    refine .obj (by simpa using hkey) ?_
    simp only [List.forall_mem_cons, List.not_mem_nil, false_imp_iff, implies_true, and_true]
    exact ⟨.str _, .str _⟩
  refine .obj (by simp) ?_
  simp only [List.forall_mem_cons, List.not_mem_nil, false_imp_iff, implies_true, and_true]
  refine ⟨.str _, .int hn, ?_⟩
  cases kind with
  | text => exact hdelta (by decide)
  | toolUse => exact hdelta (by decide)

theorem makeDeltaEvent_ready (kind : BlockType) {n : ℤ} (hn : ShortInt n) (tail : PyStr) :
    ∃ s, makeDeltaEvent F kind n tail = .ok s := by
  obtain ⟨data, hdata⟩ := dumpsText_ready (ok_blockDelta (F := F) kind hn tail)
  simp only [makeDeltaEvent, hdata, bind, Except.bind]
  exact ⟨_, rfl⟩

section Blocks

variable (h : st.Ready) (event : PyStr) {fields : Fields F} (hfields : Json.Ok (.obj fields))

include h hfields

theorem processBlockStart_ready (hindex : (objectOr (fields.get? "content_block".py)).isSome = true →
      Indexable (fields.get? "index".py)) :
    ∃ out st', st.processBlockStart event fields = .ok (out, st') ∧ st'.Ready := by
  unfold processBlockStart
  split
  · exact ⟨_, st, rfl, h⟩
  · next block hblock =>
    obtain ⟨n, hn, hshort⟩ := blockIndex_ready hfields (hindex (by rw [hblock]; rfl))
    simp only [hn, bind, Except.bind]
    split
    · split_ifs
      · exact ⟨_, _, rfl, h.insertBlock hshort rfl _⟩
      · exact ⟨_, _, rfl, h.insertBlock hshort rfl _⟩
      · exact ⟨_, st, rfl, h⟩
    · exact ⟨_, st, rfl, h⟩

variable (hindex : Indexable (fields.get? "index".py))

include hindex

theorem processBlockDelta_ready {delta : Fields F} (hdelta : Json.Ok (.obj delta)) (key : PyStr) :
    ∃ out st', st.processBlockDelta event fields delta key = .ok (out, st') ∧ st'.Ready := by
  obtain ⟨n, hn, hshort⟩ := blockIndex_ready hfields hindex
  unfold processBlockDelta
  simp only [hn, bind, Except.bind]
  split
  · next text d htext hd =>
    obtain ⟨out, d', hfeed, hlive⟩ := feedText_of_live (h.blocks n d hd).2 text
    have hready := h.insertBlock hshort hlive st.blockTypes
    obtain ⟨data, hdata⟩ :=
      dumpsText_ready (hfields.set "delta".py (hdelta.set key (.str out)))
    simp only [hfeed, hdata]
    split
    · exact ⟨_, _, rfl, hready⟩
    · exact ⟨_, _, rfl, hready⟩
  · exact ⟨_, st, rfl, h⟩

theorem processBlockStop_ready :
    ∃ out st', st.processBlockStop event fields = .ok (out, st') ∧ st'.Ready := by
  obtain ⟨n, hn, hshort⟩ := blockIndex_ready hfields hindex
  have hready := h.eraseBlock n (st.blockTypes.erase n)
  unfold processBlockStop
  simp only [hn, bind, Except.bind]
  split
  · exact ⟨_, _, rfl, hready⟩
  · next d hd =>
    split
    · exact ⟨_, _, rfl, hready⟩
    · obtain ⟨tail, htail⟩ := makeDeltaEvent_ready (F := F) ((st.blockTypes.get? n).getD .text)
        hshort d.flush.1
      simp only [htail]
      exact ⟨_, _, rfl, hready⟩

end Blocks

/-! ## Tails -/

theorem blockTails_ready (st : SseEvents F) {blocks : List (ℤ × StreamingDesanitizer PyChar)}
    (hblocks : ∀ e ∈ blocks, ShortInt e.1) : ∃ tails, st.blockTails blocks = .ok tails := by
  induction blocks with
  | nil => exact ⟨[], rfl⟩
  | cons e blocks ih =>
    obtain ⟨he, hblocks⟩ := List.forall_mem_cons.mp hblocks
    obtain ⟨tails, htails⟩ := ih hblocks
    obtain ⟨event, hevent⟩ := makeDeltaEvent_ready (F := F) ((st.blockTypes.get? e.1).getD .text) he
      e.2.flush.1
    simp only [blockTails, htails, hevent, bind, Except.bind]
    split
    · exact ⟨_, rfl⟩
    · exact ⟨_, rfl⟩

theorem chatTails_ready (h : st.Ready) (indices : List ℤ) :
    ∃ tails, st.chatTails indices = .ok tails := by
  induction indices with
  | nil => exact ⟨[], rfl⟩
  | cons n indices ih =>
    obtain ⟨tails, htails⟩ := ih
    simp only [chatTails, htails, bind, Except.bind]
    split
    · exact ⟨_, rfl⟩
    · next c hc =>
      obtain ⟨hn, hready⟩ := h.choice n c hc
      obtain ⟨s, hs, -⟩ := chatTail_spec h.info hn (short_flush hready.short)
      simp only [hs]
      split
      · exact ⟨_, rfl⟩
      · exact ⟨_, rfl⟩

theorem heldTails_ready (h : st.Ready) :
    ∃ tails st', st.heldTails = .ok (tails, st') ∧ st'.Ready := by
  have hblocks : ∀ e ∈ st.blockDesanitizers.entries, ShortInt e.1 := by
    intro e he
    have hkey : e.1 ∈ st.blockDesanitizers.keys := List.mem_map_of_mem he
    obtain ⟨d, hd⟩ := Option.isSome_iff_exists.mp (Dict.mem_keys.mp hkey)
    exact (h.blocks e.1 d hd).1
  obtain ⟨blocks, hblocks⟩ := blockTails_ready st hblocks
  obtain ⟨choices, hchoices⟩ := chatTails_ready h (st.chat.keys.insertionSort (· ≤ ·))
  simp only [heldTails, hblocks, hchoices, bind, Except.bind]
  exact ⟨_, _, rfl, by simp, h.info, by simp⟩

theorem endStream_ready (h : st.Ready) (event : PyStr) :
    ∃ out st', st.endStream event = .ok (out, st') ∧ st'.Ready := by
  obtain ⟨tails, st', htails, hready⟩ := heldTails_ready h
  simp only [endStream, htails, bind, Except.bind]
  exact ⟨_, st', rfl, hready⟩

/-! ## Events -/

/-- The events whose index is converted: the start of a block that is an object, a delta
with a text, and the end of a block. -/
inductive ReadsIndex (fields : Fields F) : Prop where
  | start (htype : fields.get? "type".py = some (.str "content_block_start".py))
      (hblock : (objectOr (fields.get? "content_block".py)).isSome = true)
  | delta {delta : Fields F} {kind : PyStr}
      (htype : fields.get? "type".py = some (.str "content_block_delta".py))
      (hdelta : objectOr (fields.get? "delta".py) = some delta)
      (hkind : delta.get? "type".py = some (.str kind))
      (htext : kind = "text_delta".py ∨ kind = "input_json_delta".py)
  | stop (htype : fields.get? "type".py = some (.str "content_block_stop".py))

/-- A value that the handlers can convert: an index that is read is one for `int(...)`, and
the choices that finish take a tail. -/
structure Convertible (fields : Fields F) : Prop where
  index : ReadsIndex fields → Indexable (fields.get? "index".py)
  choices : ∀ choices, fields.get? "choices".py = some (.arr choices) →
    ∀ c ∈ choices, Finishable c

theorem processOther_ready (h : st.Ready) (event : PyStr) {fields : Fields F}
    (hfields : Json.Ok (.obj fields)) (hconv : Convertible fields) :
    ∃ out st', st.processOther event fields = .ok (out, st') ∧ st'.Ready := by
  unfold processOther
  split
  · next choices hchoices =>
    exact processChat_ready h event hfields fun c hc =>
      ⟨(hfields.get? hchoices).items c hc, hconv.choices choices hchoices c hc⟩
  · exact ⟨_, st, rfl, h⟩

omit [Host F] in
theorem ok_objectOr [Host F] {fields delta : Fields F} (hfields : Json.Ok (.obj fields)) {key : PyStr}
    (h : objectOr (fields.get? key) = some delta) : Json.Ok (.obj delta) := by
  unfold objectOr at h
  split at h
  · next hv =>
    cases h
    exact hfields.get? hv
  · split at h
    · cases h
    · cases h
      exact .empty
  · cases h
    exact .empty

theorem processFields_ready (h : st.Ready) (event : PyStr) {fields : Fields F}
    (hfields : Json.Ok (.obj fields)) (hconv : Convertible fields) :
    ∃ out st', st.processFields event fields = .ok (out, st') ∧ st'.Ready := by
  have hother := processOther_ready h event hfields hconv
  unfold processFields
  split
  · next t ht =>
    split_ifs with hstart hdelta hstop
    · exact processBlockStart_ready h event hfields fun hblock =>
        hconv.index (.start (hstart ▸ ht) hblock)
    · split
      · next delta hobject =>
        have hok := ok_objectOr hfields hobject
        split
        · next kind hkind =>
          have hindex := fun htext => hconv.index (.delta (hdelta ▸ ht) hobject hkind htext)
          split_ifs with htext hjson
          · exact processBlockDelta_ready h event hfields (hindex (.inl htext)) hok _
          · exact processBlockDelta_ready h event hfields (hindex (.inr hjson)) hok _
          · exact hother
        · exact hother
      · exact hother
    · exact processBlockStop_ready h event hfields (hconv.index (.stop (hstop ▸ ht)))
    · exact hother
  · exact hother

/-- The data of the event is read, and nested deeper than the stack has room for. -/
def tooDeep (F : Type) [Floats F] (room : ℕ) (event : PyStr) : Bool :=
  match extractDataLine event with
  | none => false
  | some data => data ≠ "[DONE]".py && room < nesting F data

/-- An event whose data can be read and converted: it is not nested too deep, no integer has
too many digits, and an object is convertible. -/
structure Handled (F : Type) [Host F] (room : ℕ) (event : PyStr) : Prop where
  shallow : tooDeep F room event = false
  digits : ∀ data, extractDataLine event = some data →
    (loads data : Except Json.Error (Json F)) ≠ .error .valueError
  convertible : ∀ data (fields : Fields F), extractDataLine event = some data →
    loads data = .ok (.obj fields) → Convertible fields

/-- **An event that is handled** returns, and leaves buffers that can be fed and written. -/
theorem processEvent_ready (h : st.Ready) {room : ℕ} {event : PyStr}
    (hevent : Handled F room event) :
    ∃ out st', st.processEvent event = .ok (out, st') ∧ st'.Ready := by
  unfold processEvent
  split
  · exact ⟨_, st, rfl, h⟩
  · next data hdata =>
    split
    · exact endStream_ready h event
    · split
      · exact ⟨_, st, rfl, h⟩
      · next e he hne =>
        cases e with
        | jsonDecodeError => exact absurd rfl he
        | valueError => exact absurd hne (hevent.digits data hdata)
      · next value hvalue =>
        split
        · exact endStream_ready h event
        · split
          · next fields hne =>
            exact processFields_ready h event (loads_ok hvalue)
              (hevent.convertible data fields hdata hvalue)
          · exact ⟨_, st, rfl, h⟩

/-- The events of a stream, one by one. -/
theorem feedList_ready (h : st.Ready) {room : ℕ} {events : List PyStr}
    (hevents : ∀ e ∈ events, Handled F room e) :
    ∃ out st', feedList processEvent st events = .ok (out, st') ∧ st'.Ready := by
  induction events generalizing st with
  | nil => exact ⟨[], st, rfl, h⟩
  | cons e events ih =>
    obtain ⟨he, hevents⟩ := List.forall_mem_cons.mp hevents
    obtain ⟨out, st₁, hevent, hready⟩ := processEvent_ready h he
    obtain ⟨outs, st₂, hrest, hready⟩ := ih hready hevents
    refine ⟨out ++ outs, st₂, ?_, hready⟩
    simp only [feedList, hevent, hrest, bind, Except.bind]

end SseEvents

/-! ## Streams -/

/-- A stream of complete events in an interpreter whose stack has room for `room` lists and
objects inside one another: `json.loads` raises a `RecursionError` at the first event that
is nested deeper, and nothing catches it. -/
def SseStreamDesanitizer.streamWithin (F : Type) [Host F] (room : ℕ) (mapping : List (Pair PyChar))
    (events : List PyStr) : Except Raised (List (UInt8 ⊕ PyChar)) :=
  match events.findIdx? (SseEvents.tooDeep F room) with
  | none => stream F mapping (events.map .str)
  | some i => do
      let _ ← feedList feed (new mapping : SseStreamDesanitizer F) ((events.take i).map .str)
      .error .recursion

/-- **A stream returns**: complete events are fed one by one, then the stream is flushed;
none of these calls raises when every event is handled. -/
theorem stream_returns [Host F] (room : ℕ) (mapping : List (Pair PyChar)) {events : List PyStr}
    (hcomplete : ∀ e ∈ events, SseStreamDesanitizer.CompleteEvent e)
    (hevents : ∀ e ∈ events, SseEvents.Handled F room e) :
    ∃ out, SseStreamDesanitizer.streamWithin F room mapping events = .ok out := by
  have hshallow : events.findIdx? (SseEvents.tooDeep F room) = none :=
    List.findIdx?_eq_none_iff.mpr fun e he => (hevents e he).shallow
  obtain ⟨out, st, hfeed, hready⟩ :=
    SseEvents.feedList_ready (SseEvents.ready_new (F := F) mapping) hevents
  obtain ⟨tails, st', htails, -⟩ := SseEvents.heldTails_ready hready
  simp only [SseStreamDesanitizer.streamWithin, hshallow]
  rw [SseStreamDesanitizer.stream_texts mapping hcomplete, hfeed]
  simp only [Except.bind, htails]
  exact ⟨_, rfl⟩

/-- The end of a content block. -/
def blockStop (index : Json Literal) : Fields Literal :=
  [("type".py, .str "content_block_stop".py), ("index".py, index)]

theorem stream_returns_blockStop :
    let event := "data: \x7b\"type\": \"content_block_stop\", \"index\": 0\x7d\n\n".py
    let mapping := [("Ann".py, "[NAME_001]".py)]
    (∀ e ∈ [event], SseStreamDesanitizer.CompleteEvent e) ∧
      (∀ e ∈ [event], SseEvents.Handled Literal 900 e) ∧
      ∃ out, SseStreamDesanitizer.streamWithin Literal 900 mapping [event] = .ok out := by
  intro event mapping
  have hcomplete : ∀ e ∈ [event], SseStreamDesanitizer.CompleteEvent e := by
    simp only [List.forall_mem_singleton]
    exact ⟨⟨(48, 2), by decide, by decide⟩, by decide⟩
  have hevents : ∀ e ∈ [event], SseEvents.Handled Literal 900 e := by
    simp only [List.forall_mem_singleton]
    have hok : (Json.obj (blockStop (.int 0))).Ok := by
      refine .obj (by decide) ?_
      simp only [blockStop, List.forall_mem_cons, List.not_mem_nil, false_imp_iff, implies_true,
        and_true]
      exact ⟨.str _, .int (by decide)⟩
    have hrender : extractDataLine event = some (render plainStyle (.obj (blockStop (.int 0)))) := by
      decide
    have hloads := loads_render plainStyle hok (by simp [plainStyle])
    refine ⟨?_, ?_, ?_⟩
    · simp only [SseEvents.tooDeep, hrender, nesting_render plainStyle (j := .obj (blockStop (.int 0)))
        (by simp [plainStyle])]
      decide
    · intro data hdata
      cases hdata.symm.trans hrender
      simp [hloads]
    · intro data fields hdata hfields
      cases hdata.symm.trans hrender
      cases hloads.symm.trans hfields
      refine ⟨fun _ => trivial, fun choices hchoices => ?_⟩
      cases hchoices
  exact ⟨hcomplete, hevents, stream_returns 900 mapping hcomplete hevents⟩

/-- An index that is `null` ends the stream, where a chat choice with such an index passes. -/
theorem null_index_raises :
    let event := "data: \x7b\"type\": \"content_block_stop\", \"index\": null\x7d\n\n".py
    SseStreamDesanitizer.CompleteEvent event ∧
      ∀ mapping, SseStreamDesanitizer.stream Literal mapping [.str event] = .error .int := by
  intro event
  have hcomplete : SseStreamDesanitizer.CompleteEvent event :=
    ⟨⟨(51, 2), by decide, by decide⟩, by decide⟩
  refine ⟨hcomplete, fun mapping => ?_⟩
  have hok : (Json.obj (blockStop .null)).Ok := by
    refine .obj (by decide) ?_
    simp only [blockStop, List.forall_mem_cons, List.not_mem_nil, false_imp_iff, implies_true,
      and_true]
    exact ⟨.str _, .null⟩
  have hrender : extractDataLine event = some (render plainStyle (.obj (blockStop .null))) := by
    decide
  have hevent : (SseEvents.new mapping : SseEvents Literal).processEvent event = .error .int := by
    have hdone : render plainStyle (.obj (blockStop .null)) ≠ "[DONE]".py := by decide
    simp only [SseEvents.processEvent, hrender, if_neg hdone,
      loads_render plainStyle hok (by simp [plainStyle])]
    rfl
  have hstream : SseStreamDesanitizer.stream Literal mapping ([event].map .str) = _ :=
    SseStreamDesanitizer.stream_texts mapping (by simpa using hcomplete)
  rw [List.map_singleton] at hstream
  rw [hstream]
  simp only [feedList, hevent, bind, Except.bind]

end CorpLlmGateway.Sanitizer
