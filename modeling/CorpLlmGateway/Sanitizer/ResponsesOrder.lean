import CorpLlmGateway.Sanitizer.ResponsesStream
import CorpLlmGateway.Sanitizer.SseTotal

/-!
# The order of a restored Responses stream

A run of `ResponsesStreamDesanitizer` over events that arrive as dictionaries. Text that is
held back goes out in a delta event of its own stream, in front of the event that ends the
stream, its item or the response; every event that is sent is renumbered.

* `desanitizeResponsesFields_ok` — restoring a payload never fails;
* `flushEntries_spec` — what one flush sends and what it leaves;
* `feedEvent_spec` — what one event sends, in front of what it ends;
* `renumber_spec` — the numbers are consecutive and nothing else changes;
* `responses_order` — the whole run.
-/

namespace CorpLlmGateway.Sanitizer

open Json Numerals

/-! ## Restoring a payload never fails -/

section Restoring

variable {F : Type} (reverse : PyStr → PyStr)

theorem desanitizeItems_eq_map (depth : ℕ) (items : List (Json F)) :
    desanitizeItems reverse depth items = items.map (desanitizeJson reverse depth) := by
  induction items with
  | nil => rfl
  | cons x xs ih => rw [desanitizeItems, ih, List.map_cons]

theorem desanitizeFields_eq_map (depth : ℕ) (fields : Fields F) :
    desanitizeFields reverse depth fields = fields.map fun e =>
      (e.1, if e.1 ∈ jsonOpaqueKeys then e.2 else desanitizeJson reverse depth e.2) := by
  induction fields with
  | nil => rfl
  | cons e fields ih => rw [desanitizeFields, ih, List.map_cons]

theorem ok_desanitizeJson {j : Json F} (h : j.Ok) (depth : ℕ) :
    (desanitizeJson reverse depth j).Ok := by
  induction h generalizing depth with
  | null => exact .null
  | bool b => exact .bool b
  | int hn => exact .int hn
  | float f => exact .float f
  | str s =>
    rw [desanitizeJson]
    split
    · exact .str _
    · exact .str _
  | arr h ih =>
    rw [desanitizeJson]
    split
    · exact .arr h
    · rw [desanitizeItems_eq_map]
      refine .arr fun x hx => ?_
      obtain ⟨y, hy, rfl⟩ := List.mem_map.mp hx
      exact ih y hy _
  | obj hkeys h ih =>
    rw [desanitizeJson]
    split
    · exact .obj hkeys h
    · rw [desanitizeFields_eq_map]
      refine .obj (by simpa [List.map_map, Function.comp_def] using hkeys) fun e he => ?_
      obtain ⟨e', he', rfl⟩ := List.mem_map.mp he
      simp only
      split
      · exact h e' he'
      · exact ih e' he' _

variable [Floats F]

theorem desanitizeArguments_ok (arguments : PyStr) :
    ∃ s, desanitizeArguments reverse F arguments = .ok s := by
  unfold desanitizeArguments
  cases hloads : (loads arguments : Except Json.Error (Json F)) with
  | error e => exact ⟨_, rfl⟩
  | ok parsed =>
    exact ⟨_, dumps_eq plainStyle (ok_desanitizeJson reverse (loads_ok hloads) 0)⟩

theorem desanitizeResponsesItems_ok {items : List (Json F)}
    (h : ∀ x ∈ items, ∀ field depth, ∃ x',
      desanitizeResponsesPayload reverse field depth x = .ok x') (field : Option PyStr) (depth : ℕ) :
    ∃ items', desanitizeResponsesItems reverse field depth items = .ok items' := by
  induction items with
  | nil => exact ⟨[], rfl⟩
  | cons x xs ih =>
    obtain ⟨hx, hxs⟩ := List.forall_mem_cons.mp h
    obtain ⟨x', hx'⟩ := hx field depth
    obtain ⟨xs', hxs'⟩ := ih hxs
    exact ⟨x' :: xs', by rw [desanitizeResponsesItems, hx', hxs']; rfl⟩

/-- The fields of a payload that is restored: each one restored under its own name. -/
theorem desanitizeResponsesFields_of {fields : Fields F} {depth : ℕ}
    (h : ∀ e ∈ fields, ∃ v, desanitizeResponsesPayload reverse (some e.1) depth e.2 = .ok v) :
    ∃ fields', desanitizeResponsesFields reverse depth fields = .ok fields' ∧
      ∀ k v, fields.get? k = some v → ∃ v',
        desanitizeResponsesPayload reverse (some k) depth v = .ok v' ∧
          Fields.get? fields' k = some v' := by
  induction fields with
  | nil => exact ⟨[], rfl, fun k v hv => absurd hv (by simp)⟩
  | cons e fields ih =>
    obtain ⟨k, v⟩ := e
    obtain ⟨⟨v', hv⟩, hrest⟩ := List.forall_mem_cons.mp h
    obtain ⟨fields', hfields, hget⟩ := ih hrest
    refine ⟨(k, v') :: fields', by rw [desanitizeResponsesFields, hv, hfields]; rfl, ?_⟩
    intro k' w hw
    rw [Fields.get?_cons] at hw
    rw [Fields.get?_cons]
    split at hw
    · next hk =>
      cases hw
      rw [if_pos hk, hk]
      exact ⟨v', hv, rfl⟩
    · next hk =>
      rw [if_neg hk]
      exact hget k' w hw

theorem desanitizeResponsesPayload_ok (j : Json F) (field : Option PyStr) (depth : ℕ) :
    ∃ j', desanitizeResponsesPayload reverse field depth j = .ok j' := by
  induction j using Json.induct generalizing field depth with
  | null | bool _ | int _ | float _ => exact ⟨_, rfl⟩
  | str s =>
    rw [desanitizeResponsesPayload]
    split
    · exact ⟨_, rfl⟩
    · split
      · obtain ⟨s', hs⟩ := desanitizeArguments_ok (F := F) reverse s
        exact ⟨.str s', by rw [hs]; rfl⟩
      · split
        · exact ⟨_, rfl⟩
        · exact ⟨_, rfl⟩
  | arr items ih =>
    rw [desanitizeResponsesPayload]
    split
    · exact ⟨_, rfl⟩
    · obtain ⟨items', hitems⟩ := desanitizeResponsesItems_ok reverse ih field (depth + 1)
      exact ⟨.arr items', by rw [hitems]; rfl⟩
  | obj fields ih =>
    rw [desanitizeResponsesPayload]
    split
    · exact ⟨_, rfl⟩
    · obtain ⟨fields', hfields, -⟩ :=
        desanitizeResponsesFields_of reverse fun e he => ih e he (some e.1) (depth + 1)
      exact ⟨.obj fields', by rw [hfields]; rfl⟩

/-- A payload is restored; its type and its number stay. -/
theorem desanitizeResponsesFields_ok (payload : Fields F) :
    ∃ restored, desanitizeResponsesFields reverse 1 payload = .ok restored ∧
      (∀ k n, payload.get? k = some (.int n) → Fields.get? restored k = some (.int n)) ∧
      ∀ t, payload.get? "type".py = some (.str t) →
        Fields.get? restored "type".py = some (.str t) := by
  have hall : ∀ e ∈ payload, ∃ v, desanitizeResponsesPayload reverse (some e.1) 1 e.2 = .ok v :=
    fun e _ => desanitizeResponsesPayload_ok reverse e.2 (some e.1) 1
  obtain ⟨restored, hrestored, hget⟩ := desanitizeResponsesFields_of reverse hall
  refine ⟨restored, hrestored, ?_, ?_⟩
  · intro k n hk
    obtain ⟨v, hv, hval⟩ := hget k _ hk
    cases hv
    exact hval
  · intro t ht
    -- a type is no text field
    have hsame : desanitizeResponsesPayload reverse (some "type".py) 1 (.str t : Json F) =
        .ok (.str t) := by
      rw [desanitizeResponsesPayload, if_neg (by decide), if_neg (by decide), if_neg (by decide)]
    obtain ⟨v, hv, hval⟩ := hget _ _ ht
    rw [hsame] at hv
    cases hv
    exact hval

end Restoring

namespace ResponsesStreamDesanitizer

/-! ## The specification -/

section Spec

variable {F : Type} [Host F]

/-- The output of each event of a sequence. -/
def feedAll (r : ResponsesStreamDesanitizer F) : List (Fields F) →
    Except Raised (List (List (ResponsesItem F)) × ResponsesStreamDesanitizer F)
  | [] => .ok ([], r)
  | e :: events => do
      let (out, r) ← r.feed e
      let (outs, r) ← r.feedAll events
      .ok (out :: outs, r)

/-- The text that a delta stream holds. -/
def held (r : ResponsesStreamDesanitizer F) (key : StreamKey) : PyStr :=
  match r.streams.get? key with
  | some d => d.flush.1
  | none => []

/-- An event as the API sends it: numbered, and its ids are texts or numbers. -/
structure ResponsesEvent (e : Fields F) : Prop where
  number : ∃ n, e.get? "sequence_number".py = some (.int n)
  ids : ∀ name ∈ responsesEventIdFields, ∀ v, e.get? name = some v →
    v.Ok ∧ (Key.of? v).isSome = true

/-- The id of the item that an event carries whole. -/
def wholeItemId (e : Fields F) : Option (Json F) :=
  match e.get? "item".py with
  | some (.obj item) => Fields.get? item "id".py
  | _ => none

/-- A value that is there names this key. -/
def Names (value : Option (Json F)) (key : Key) : Prop :=
  ∃ v, value = some v ∧ Key.of? v = some key ∧ key ≠ .none

/-- The events that end a delta stream: the done event of the stream, that of its item (which
carries no content index), and the events that end the response. -/
inductive Ends (e : Fields F) (key : StreamKey) : Prop where
  | done {t deltaType : PyStr} : e.get? "type".py = some (.str t) →
      responsesDoneEvents.lookup t = some deltaType → streamKey deltaType e = .ok key → Ends e key
  | item : e.get? "type".py = some (.str "response.output_item.done".py) →
      Names (wholeItemId e) key.itemId → Names (e.get? "output_index".py) key.outputIndex →
      isNone (e.get? "content_index".py) = true → Ends e key
  | terminal {t : PyStr} : e.get? "type".py = some (.str t) → t ∈ responsesTerminalEvents →
      Ends e key

/-- A delta event of a stream with this text. -/
def IsDelta (item : ResponsesItem F) (key : StreamKey) (text : PyStr) : Prop :=
  ∃ fields n, sequenceOf item = some (fields, n) ∧
    fields.get? "type".py = some (.str key.eventType) ∧
    fields.get? "delta".py = some (.str text) ∧ streamKey key.eventType fields = .ok key

/-- The output for an event: the event itself comes last, and a text that is not empty goes out
before it in a delta event of its stream. -/
def SendsBefore (out : List (ResponsesItem F)) (e : Fields F) (key : StreamKey) (text : PyStr) :
    Prop :=
  ∃ tails fields, out = tails ++ [.dict fields] ∧ fields.get? "type".py = e.get? "type".py ∧
    (text ≠ [] → ∃ item ∈ tails, IsDelta item key text)

/-- Numbers that count up by one. -/
def Consecutive : ℤ → List (ResponsesItem F) → Prop
  | _, [] => True
  | n, item :: items => (∃ fields, sequenceOf item = some (fields, n)) ∧ Consecutive (n + 1) items

end Spec

/-! ## Tails -/

section Tails

variable {F : Type}

theorem get?_filterMap (payload : Fields F) (names : List PyStr) (k : PyStr) :
    Fields.get? (names.filterMap fun name => (payload.get? name).map fun v => (name, v)) k =
      if k ∈ names then payload.get? k else none := by
  induction names with
  | nil => rfl
  | cons name names ih =>
    cases hget : payload.get? name with
    | none =>
      rw [List.filterMap_cons_none (by simp [hget]), ih]
      by_cases hk : k = name
      · simp [hk, hget]
      · simp [hk]
    | some v =>
      rw [List.filterMap_cons_some (b := (name, v)) (by simp [hget]), Fields.get?_cons, ih]
      by_cases hk : k = name
      · simp [hk, hget]
      · simp [hk]

theorem get?_eventMetadata (payload : Fields F) (k : PyStr) :
    (eventMetadata payload).get? k =
      if k ∈ responsesEventIdFields then payload.get? k else none :=
  get?_filterMap payload responsesEventIdFields k

theorem nodup_eventMetadata (payload : Fields F) :
    ((eventMetadata payload).map Prod.fst).Nodup := by
  have hsub : ((eventMetadata payload).map Prod.fst).Sublist responsesEventIdFields := by
    unfold eventMetadata
    induction responsesEventIdFields with
    | nil => simp
    | cons name names ih =>
      cases hget : payload.get? name with
      | none =>
        rw [List.filterMap_cons_none (by simp [hget])]
        exact ih.cons name
      | some v =>
        rw [List.filterMap_cons_some (b := (name, v)) (by simp [hget]), List.map_cons]
        exact ih.cons_cons name
  exact hsub.nodup (by decide)

theorem mem_eventMetadata {payload : Fields F} {entry : PyStr × Json F}
    (h : entry ∈ eventMetadata payload) :
    entry.1 ∈ responsesEventIdFields ∧ payload.get? entry.1 = some entry.2 := by
  obtain ⟨name, hname, hentry⟩ := List.mem_filterMap.mp h
  obtain ⟨v, hv, rfl⟩ := Option.map_eq_some_iff.mp hentry
  exact ⟨hname, hv⟩

/-- The object of a tail. -/
def tailFields (eventType : PyStr) (metadata : Fields F) (tail : PyStr) : Fields F :=
  (Fields.update [("type".py, .str eventType)] metadata).set "delta".py (.str tail)

theorem tailFields_eq (eventType : PyStr) (e : Fields F) (tail : PyStr) :
    tailFields eventType (eventMetadata e) tail =
      Fields.set (("type".py, .str eventType) :: eventMetadata e) "delta".py (.str tail) := by
  rw [tailFields, Fields.update_eq_append]
  · rfl
  · rw [List.map_append, List.nodup_append]
    refine ⟨by simp, nodup_eventMetadata e, ?_⟩
    rintro a ha b hb rfl
    obtain ⟨entry, hentry, rfl⟩ := List.mem_map.mp hb
    have hname := (mem_eventMetadata hentry).1
    have hnot : "type".py ∉ responsesEventIdFields := by decide
    rw [List.mem_singleton.mp ha] at hname
    exact hnot hname

theorem get?_tailFields (eventType : PyStr) (e : Fields F) (tail : PyStr) :
    (tailFields eventType (eventMetadata e) tail).get? "type".py = some (.str eventType) ∧
      (tailFields eventType (eventMetadata e) tail).get? "delta".py = some (.str tail) ∧
      ∀ name ∈ responsesEventIdFields,
        (tailFields eventType (eventMetadata e) tail).get? name = e.get? name := by
  rw [tailFields_eq]
  refine ⟨?_, Fields.get?_set_self _ _ _, fun name hname => ?_⟩
  · rw [Fields.get?_set_of_ne (by decide), Fields.get?_cons, if_pos rfl]
  · have hnames : ∀ name ∈ responsesEventIdFields, name ≠ "delta".py ∧ name ≠ "type".py := by
      decide
    obtain ⟨hdelta, htype⟩ := hnames name hname
    rw [Fields.get?_set_of_ne hdelta, Fields.get?_cons, if_neg htype, get?_eventMetadata,
      if_pos hname]

variable [Host F]

/-- The key of an event depends on its ids only. -/
theorem streamKey_congr {e e' : Fields F} (h : ∀ name ∈ responsesEventIdFields,
    e.get? name = e'.get? name) (eventType : PyStr) : streamKey eventType e = streamKey eventType e' := by
  have hkey : ∀ name ∈ responsesEventIdFields, keyOf e name = keyOf e' name := fun name hname => by
    rw [keyOf, keyOf, h name hname]
  simp only [streamKey, hkey "item_id".py (by decide), hkey "output_index".py (by decide),
    hkey "content_index".py (by decide), hkey "summary_index".py (by decide)]

theorem ok_tailFields {e : Fields F} (h : ResponsesEvent e) (eventType tail : PyStr) :
    Json.Ok (.obj (tailFields eventType (eventMetadata e) tail)) := by
  have hmeta : ∀ entry ∈ eventMetadata e, entry.2.Ok := fun entry hentry =>
    (h.ids _ (mem_eventMetadata hentry).1 _ (mem_eventMetadata hentry).2).1
  refine Ok.set (Ok.update (.obj (by simp) ?_) hmeta) _ (.str tail)
  intro entry hentry
  rw [List.mem_singleton.mp hentry]
  exact .str eventType

/-- A tail is a delta event of its stream. -/
theorem tailEvent_spec {e : Fields F} (h : ResponsesEvent e) {key : StreamKey}
    (hkey : streamKey key.eventType e = .ok key) (tail : PyStr) :
    ∃ item, tailEvent key.eventType (eventMetadata e) tail = .ok item ∧ IsDelta item key tail := by
  have hok := ok_tailFields h key.eventType tail
  obtain ⟨htype, hdelta, hids⟩ := get?_tailFields key.eventType e tail
  obtain ⟨n, hn⟩ := h.number
  refine ⟨.text (render plainStyle (.obj (tailFields key.eventType (eventMetadata e) tail))), ?_,
    tailFields key.eventType (eventMetadata e) tail, n, ?_, htype, hdelta, ?_⟩
  · change (dumpsText (.obj (tailFields key.eventType (eventMetadata e) tail)) >>= _) = _
    rw [dumpsText, dumps_eq plainStyle hok]
    rfl
  · simp only [sequenceOf, loads_render plainStyle hok (by simp [plainStyle]),
      hids "sequence_number".py (by decide), hn]
  · rw [streamKey_congr hids, hkey]

theorem streamKey_ok {e : Fields F} (h : ResponsesEvent e) (eventType : PyStr) :
    ∃ key, streamKey eventType e = .ok key ∧ key.eventType = eventType := by
  have hkeyOf : ∀ name ∈ responsesEventIdFields, ∃ k, keyOf e name = .ok k := by
    intro name hname
    unfold keyOf
    cases hv : e.get? name with
    | none => exact ⟨_, rfl⟩
    | some v =>
      obtain ⟨k, hk⟩ := Option.isSome_iff_exists.mp (h.ids name hname v hv).2
      exact ⟨k, by simp only [hk]⟩
  obtain ⟨itemId, hitem⟩ := hkeyOf "item_id".py (by decide)
  obtain ⟨outputIndex, houtput⟩ := hkeyOf "output_index".py (by decide)
  obtain ⟨contentIndex, hcontent⟩ := hkeyOf "content_index".py (by decide)
  obtain ⟨summaryIndex, hsummary⟩ := hkeyOf "summary_index".py (by decide)
  refine ⟨⟨eventType, itemId, outputIndex, contentIndex, summaryIndex⟩, ?_, rfl⟩
  rw [streamKey, hitem, houtput, hcontent, hsummary]
  rfl

end Tails

/-! ## One flush -/

section Flush

variable {F : Type} [Host F] {r : ResponsesStreamDesanitizer F}

/-- The streams can be fed, and each one knows the last event that fed it. -/
structure Ready (r : ResponsesStreamDesanitizer F) : Prop where
  live : ∀ {key d}, r.streams.get? key = some d → d.flushed = false
  info : ∀ {key d}, r.streams.get? key = some d → ∃ e, ResponsesEvent e ∧
    streamKey key.eventType e = .ok key ∧ r.metadata.get? key = some (eventMetadata e)

/-- An item that is renumbered. -/
def Numbered (item : ResponsesItem F) : Prop := ∃ fields n, sequenceOf item = some (fields, n)

theorem IsDelta.numbered {item : ResponsesItem F} {key : StreamKey} {text : PyStr}
    (h : IsDelta item key text) : Numbered item := by
  obtain ⟨fields, n, hseq, -⟩ := h
  exact ⟨fields, n, hseq⟩

theorem numbered_dict {fields : Fields F} {n : ℤ}
    (h : fields.get? "sequence_number".py = some (.int n)) : Numbered (.dict fields) :=
  ⟨fields, n, by simp only [sequenceOf, h]⟩

theorem ready_new (mapping : List (Pair PyChar)) : (new mapping : ResponsesStreamDesanitizer F).Ready where
  live h := by cases h
  info h := by cases h

/-- Without the stream of a key. -/
theorem Ready.erase (h : r.Ready) (key : StreamKey) :
    Ready { r with streams := r.streams.erase key, metadata := r.metadata.erase key } where
  live {k d} hk := by
    rw [Dict.get?_erase] at hk
    split at hk
    · cases hk
    · exact h.live hk
  info {k d} hk := by
    rw [Dict.get?_erase] at hk
    split at hk
    · cases hk
    · next hne =>
      obtain ⟨e, he, hkey, hmeta⟩ := h.info hk
      exact ⟨e, he, hkey, by rw [Dict.get?_erase, if_neg hne, hmeta]⟩

/-- What every step keeps: the streams can still be fed, the numbers are left to the end, and
each item that is sent carries one. -/
structure Keeps (r r' : ResponsesStreamDesanitizer F) (items : List (ResponsesItem F)) : Prop where
  ready : r'.Ready
  last : r'.lastSequence = r.lastSequence
  numbered : ∀ item ∈ items, Numbered item

/-- What one flush of streams sends and what it leaves. -/
theorem flushEntries_spec (selected : StreamKey → Bool)
    {entries : List (StreamKey × StreamingDesanitizer PyChar)} (h : r.Ready)
    (hnodup : (entries.map Prod.fst).Nodup)
    (hmem : ∀ entry ∈ entries, r.streams.get? entry.1 = some entry.2) :
    ∃ items r', r.flushEntries selected entries = .ok (items, r') ∧ Keeps r r' items ∧
      (∀ entry ∈ entries, selected entry.1 = true → entry.2.flush.1 ≠ [] →
        ∃ item ∈ items, IsDelta item entry.1 entry.2.flush.1) ∧
      ∀ key, r'.streams.get? key =
        if selected key = true ∧ key ∈ entries.map Prod.fst then none else r.streams.get? key := by
  -- induction on the streams that are still to be looked at
  induction entries generalizing r with
  | nil => exact ⟨[], r, rfl, ⟨h, rfl, by simp⟩, by simp, by simp⟩
  | cons entry entries ih =>
    obtain ⟨key, d⟩ := entry
    obtain ⟨hkey, hentries⟩ := List.forall_mem_cons.mp hmem
    rw [List.map_cons, List.nodup_cons] at hnodup
    obtain ⟨hfresh, hnodup⟩ := hnodup
    have hne : ∀ entry ∈ entries, entry.1 ≠ key := by
      rintro entry he rfl
      exact hfresh (List.mem_map.mpr ⟨entry, he, rfl⟩)
    by_cases hsel : selected key = true
    · have hkeep : ∀ entry ∈ entries, (r.streams.erase key).get? entry.1 = some entry.2 := by
        intro entry he
        rw [Dict.get?_erase, if_neg (by simpa using hne entry he), hentries entry he]
      obtain ⟨items, r', hflush, hkeeps, hsent, hleft⟩ :=
        ih (h.erase key) hnodup hkeep
      obtain ⟨e, he, hstream, hmeta⟩ := h.info hkey
      have hleft' : ∀ k, r'.streams.get? k =
          if selected k = true ∧ k ∈ ((key, d) :: entries).map Prod.fst then none
          else r.streams.get? k := by
        intro k
        have hcons : k ∈ ((key, d) :: entries).map Prod.fst ↔ k = key ∨ k ∈ entries.map Prod.fst := by
          rw [List.map_cons, List.mem_cons]
        rw [hleft k, Dict.get?_erase]
        by_cases hk : k = key
        · simp [hk, hsel]
        · simp only [hcons, hk, false_or, beq_iff_eq, if_false]
      by_cases htail : d.flush.1 = []
      · refine ⟨items, r', ?_, ⟨hkeeps.ready, hkeeps.last, hkeeps.numbered⟩, ?_, hleft'⟩
        · rw [flushEntries, if_pos hsel]
          simp [bind, Except.bind, hflush, htail]
        · intro entry hentry hs hne
          rcases List.mem_cons.mp hentry with rfl | hentry
          · exact absurd htail hne
          · exact hsent entry hentry hs hne
      · obtain ⟨item, htailEvent, hdelta⟩ := tailEvent_spec he hstream d.flush.1
        refine ⟨item :: items, r', ?_, ⟨hkeeps.ready, hkeeps.last, ?_⟩, ?_, hleft'⟩
        · rw [flushEntries, if_pos hsel]
          simp [bind, Except.bind, hflush, htail, hmeta, htailEvent]
        · exact List.forall_mem_cons.mpr ⟨hdelta.numbered, hkeeps.numbered⟩
        · intro entry hentry hs hne
          rcases List.mem_cons.mp hentry with rfl | hentry
          · exact ⟨item, List.mem_cons_self, hdelta⟩
          · obtain ⟨item', hitem', hdelta'⟩ := hsent entry hentry hs hne
            exact ⟨item', List.mem_cons_of_mem _ hitem', hdelta'⟩
    · obtain ⟨items, r', hflush, hkeeps, hsent, hleft⟩ :=
        ih h hnodup hentries
      refine ⟨items, r', by rw [flushEntries, if_neg hsel, hflush], hkeeps, ?_, ?_⟩
      · intro entry hentry hs hne
        rcases List.mem_cons.mp hentry with rfl | hentry
        · exact absurd hs hsel
        · exact hsent entry hentry hs hne
      · intro k
        have hcons : k ∈ ((key, d) :: entries).map Prod.fst ↔ k = key ∨ k ∈ entries.map Prod.fst := by
          rw [List.map_cons, List.mem_cons]
        rw [hleft k]
        by_cases hk : k = key
        · simp [hk, hsel]
        · simp only [hcons, hk, false_or]

/-- What `_flush_where` sends and what it leaves. -/
theorem flushWhere_spec (selected : StreamKey → Bool) (h : r.Ready) :
    ∃ items r', r.flushWhere selected = .ok (items, r') ∧ Keeps r r' items ∧
      (∀ key, selected key = true → r.held key ≠ [] →
        ∃ item ∈ items, IsDelta item key (r.held key)) ∧
      ∀ key, r'.streams.get? key = if selected key then none else r.streams.get? key := by
  obtain ⟨items, r', hflush, hkeeps, hsent, hleft⟩ :=
    flushEntries_spec selected h r.streams.keys_nodup fun entry hentry => Dict.mem_entries.mp hentry
  refine ⟨items, r', hflush, hkeeps, ?_, ?_⟩
  · intro key hsel hheld
    cases hkey : r.streams.get? key with
    | none => simp [held, hkey] at hheld
    | some d =>
      have hd : r.held key = d.flush.1 := by simp only [held, hkey]
      rw [hd] at hheld ⊢
      exact hsent (key, d) (Dict.mem_entries.mpr hkey) hsel hheld
  · intro key
    rw [hleft key]
    by_cases hsel : selected key = true
    · rw [if_pos hsel]
      split
      · rfl
      · next hnot =>
        have hkeys : key ∉ r.streams.keys := fun hin => hnot ⟨hsel, hin⟩
        exact Dict.get?_eq_none.mpr hkeys
    · simp [hsel]

end Flush

/-! ## One event -/

section Event

variable {F : Type} [Host F] {r : ResponsesStreamDesanitizer F} {e : Fields F}

/-- A stream that has been fed. -/
theorem Ready.insert (h : r.Ready) (he : ResponsesEvent e) {key : StreamKey}
    (hkey : streamKey key.eventType e = .ok key) {d : StreamingDesanitizer PyChar}
    (hd : d.flushed = false) :
    Ready { r with
      streams := r.streams.insert key d, metadata := r.metadata.insert key (eventMetadata e) } where
  live {k d'} hk := by
    rw [Dict.get?_insert] at hk
    split at hk
    · cases hk
      exact hd
    · exact h.live hk
  info {k d'} hk := by
    rw [Dict.get?_insert] at hk
    split at hk
    · next heq =>
      obtain rfl : k = key := by simpa using heq
      exact ⟨e, he, hkey, by rw [Dict.get?_insert, if_pos heq]⟩
    · next hne =>
      obtain ⟨e', he', hkey', hmeta⟩ := h.info hk
      exact ⟨e', he', hkey', by rw [Dict.get?_insert, if_neg hne, hmeta]⟩

theorem feedDelta_keeps (h : r.Ready) (he : ResponsesEvent e) (eventType : PyStr)
    (jsonEscape : Bool) :
    ∃ items r', r.feedDelta e eventType jsonEscape = .ok (items, r') ∧ Keeps r r' items := by
  obtain ⟨n, hn⟩ := he.number
  unfold feedDelta
  split
  · next value hvalue =>
    obtain ⟨key, hkey, htype⟩ := streamKey_ok he eventType
    have hlive : ((r.streams.get? key).getD
        (.new r.mapping (if jsonEscape then some jsonStringEscape else none))).flushed = false := by
      cases hd : r.streams.get? key with
      | none => rfl
      | some d => exact h.live hd
    obtain ⟨out, d, hfeed, hd⟩ := feedText_of_live hlive value
    rw [← htype] at hkey
    simp only [htype ▸ hkey, hfeed, bind, Except.bind]
    refine ⟨_, _, rfl, h.insert he hkey hd, rfl, ?_⟩
    intro item hitem
    split at hitem
    · cases hitem
    · rw [List.mem_singleton.mp hitem]
      exact numbered_dict (n := n) (by rw [Fields.get?_set_of_ne (by decide), hn])
  · refine ⟨_, _, rfl, h, rfl, ?_⟩
    intro item hitem
    rw [List.mem_singleton.mp hitem]
    exact numbered_dict hn

/-- The restored payload of an event. -/
theorem restorePayload_spec (he : ResponsesEvent e) {t : PyStr}
    (ht : e.get? "type".py = some (.str t)) :
    ∃ restored, r.restorePayload e = .ok restored ∧ Numbered (.dict restored) ∧
      Fields.get? restored "type".py = e.get? "type".py := by
  obtain ⟨n, hn⟩ := he.number
  obtain ⟨restored, hrestored, hint, htype⟩ :=
    desanitizeResponsesFields_ok (buildReverseSubstituter r.mapping) e
  refine ⟨restored, by rw [restorePayload, hrestored]; rfl, numbered_dict (hint _ n hn), ?_⟩
  rw [htype t ht, ht]

theorem feedDone_spec (h : r.Ready) (he : ResponsesEvent e) {t deltaType : PyStr}
    (ht : e.get? "type".py = some (.str t)) {key : StreamKey}
    (hkey : streamKey deltaType e = .ok key) :
    ∃ items r', r.feedDone e deltaType = .ok (items, r') ∧ Keeps r r' items ∧
      SendsBefore items e key (r.held key) ∧ r'.held key = [] := by
  obtain ⟨restored, hrestored, hnumbered, htype⟩ := restorePayload_spec (r := r) he ht
  have hdeltaType : key.eventType = deltaType := by
    obtain ⟨key', hkey', heq⟩ := streamKey_ok he deltaType
    rw [hkey] at hkey'
    cases hkey'
    exact heq
  -- whatever the tails are, the event comes behind them and the stream is gone
  have hfinish : ∀ tails, r.feedDone e deltaType = .ok (tails ++ [.dict restored],
        { r with streams := r.streams.erase key, metadata := r.metadata.erase key }) →
      (∀ item ∈ tails, Numbered item) →
      (r.held key ≠ [] → ∃ item ∈ tails, IsDelta item key (r.held key)) →
      ∃ items r', r.feedDone e deltaType = .ok (items, r') ∧ Keeps r r' items ∧
        SendsBefore items e key (r.held key) ∧ r'.held key = [] := by
    intro tails hfeed hall hsent
    refine ⟨_, _, hfeed, ⟨h.erase key, rfl, ?_⟩, ⟨tails, restored, rfl, htype, hsent⟩, ?_⟩
    · exact List.forall_mem_append.mpr ⟨hall, by simpa using hnumbered⟩
    · simp only [held, Dict.get?_erase, beq_self_eq_true, if_true]
  cases hd : r.streams.get? key with
  | none =>
    refine hfinish [] ?_ (by simp) (by simp [held, hd])
    simp only [feedDone, hkey, hd, hrestored, bind, Except.bind]
  | some d =>
    have hheld : r.held key = d.flush.1 := by simp only [held, hd]
    by_cases htail : d.flush.1 = []
    · refine hfinish [] ?_ (by simp) fun hne => absurd htail (hheld ▸ hne)
      simp only [feedDone, hkey, hd, htail, hrestored, bind, Except.bind, List.isEmpty_nil, if_true]
    · obtain ⟨e', he', hkey', hmeta⟩ := h.info hd
      obtain ⟨item, hitem, hdelta⟩ := tailEvent_spec he' hkey' d.flush.1
      rw [hdeltaType] at hitem
      refine hfinish [item] ?_ ?_ fun _ => ⟨item, List.mem_singleton_self item, hheld ▸ hdelta⟩
      · simp [feedDone, hkey, hd, htail, hmeta, hitem, hrestored, bind, Except.bind, Except.map]
      · intro item' hitem'
        rw [List.mem_singleton.mp hitem']
        exact hdelta.numbered

/-- The streams whose tails go out before an event that is neither a delta nor a done event. -/
def closedBy (eventType : PyStr) (e : Fields F) (key : StreamKey) : Bool :=
  eventType ∈ responsesTerminalEvents ||
    (eventType ∈ responsesItemDoneEvents && itemMatcher e key)

theorem flushWhere_none (r : ResponsesStreamDesanitizer F) :
    r.flushWhere (fun _ => false) = .ok ([], r) := by
  unfold flushWhere
  induction r.streams.entries with
  | nil => rfl
  | cons entry entries ih => simpa [flushEntries] using ih

/-- Every other event is one flush, and the event behind it. -/
theorem feedOther_eq (r : ResponsesStreamDesanitizer F) (e : Fields F) (eventType : PyStr) :
    r.feedOther e eventType = (r.flushWhere (closedBy eventType e)).bind fun flushed =>
      if eventType ∈ responsesDuplicateEvents then
        (flushed.2.restorePayload e).map fun restored =>
          (flushed.1 ++ [.dict restored], flushed.2)
      else .ok (flushed.1 ++ [.dict e], flushed.2) := by
  have hselect : closedBy eventType e =
      if eventType ∈ responsesTerminalEvents then fun _ => true
      else if eventType ∈ responsesItemDoneEvents then itemMatcher e else fun _ => false := by
    funext key
    unfold closedBy
    split
    · next hterminal => simp [hterminal]
    · next hterminal =>
      split
      · next hitem => simp [hterminal, hitem]
      · next hitem => simp [hterminal, hitem]
  -- the event itself, behind the tails of any flush
  have hlast : ∀ flushed : List (ResponsesItem F) × ResponsesStreamDesanitizer F,
      (if eventType ∈ responsesDuplicateEvents then
        (flushed.2.restorePayload e).bind fun restored =>
          (.ok (flushed.1 ++ [.dict restored], flushed.2) : Except Raised _)
      else .ok (flushed.1 ++ [.dict e], flushed.2)) =
      if eventType ∈ responsesDuplicateEvents then
        (flushed.2.restorePayload e).map fun restored =>
          (flushed.1 ++ [.dict restored], flushed.2)
      else .ok (flushed.1 ++ [.dict e], flushed.2) := by
    intro flushed
    cases flushed.2.restorePayload e <;> rfl
  rw [hselect]
  by_cases hterminal : eventType ∈ responsesTerminalEvents
  · simp only [feedOther, hterminal, if_true, ← hlast, bind]
  · by_cases hitem : eventType ∈ responsesItemDoneEvents
    · simp only [feedOther, hterminal, hitem, if_true, if_false, ← hlast, bind]
    · simp only [feedOther, hterminal, hitem, if_false, ← hlast, bind, flushWhere_none]

theorem feedOther_spec (h : r.Ready) (he : ResponsesEvent e) {t : PyStr}
    (ht : e.get? "type".py = some (.str t)) :
    ∃ items r', r.feedOther e t = .ok (items, r') ∧ Keeps r r' items ∧
      (∀ key, closedBy t e key = true → SendsBefore items e key (r.held key)) ∧
      ∀ key, r'.streams.get? key = if closedBy t e key then none else r.streams.get? key := by
  obtain ⟨n, hn⟩ := he.number
  obtain ⟨tails, r', hflush, hkeeps, hsent, hleft⟩ := flushWhere_spec (closedBy t e) h
  obtain ⟨restored, hrestored, hnumbered, htype⟩ := restorePayload_spec (r := r') he ht
  rw [feedOther_eq, hflush]
  simp only [Except.bind, hrestored, Except.map]
  split
  · refine ⟨_, _, rfl, ⟨hkeeps.ready, hkeeps.last, ?_⟩, ?_, hleft⟩
    · exact List.forall_mem_append.mpr ⟨hkeeps.numbered, by simpa using hnumbered⟩
    · exact fun key hsel => ⟨tails, restored, rfl, htype, hsent key hsel⟩
  · refine ⟨_, _, rfl, ⟨hkeeps.ready, hkeeps.last, ?_⟩, ?_, hleft⟩
    · exact List.forall_mem_append.mpr ⟨hkeeps.numbered, by simpa using numbered_dict hn⟩
    · exact fun key hsel => ⟨tails, e, rfl, rfl, hsent key hsel⟩

/-! The tables do not overlap. -/

theorem delta_ends_nothing {t : PyStr} {jsonEscape : Bool}
    (h : responsesDeltaEvents.lookup t = some jsonEscape) :
    responsesDoneEvents.lookup t = none ∧ t ∉ responsesTerminalEvents ∧
      t ∉ responsesItemDoneEvents := by
  obtain ⟨front, back, heq, -⟩ := List.lookup_eq_some_iff.mp h
  have hall : ∀ p ∈ responsesDeltaEvents, responsesDoneEvents.lookup p.1 = none ∧
      p.1 ∉ responsesTerminalEvents ∧ p.1 ∉ responsesItemDoneEvents := by
    simp [-String.py_eq, String.py_inj, List.lookup_eq_none_iff, responsesDeltaEvents,
      responsesDoneEvents, responsesTerminalEvents, responsesItemDoneEvents]
  exact hall (t, jsonEscape) (by simp [heq])

theorem done_ends_stream {t deltaType : PyStr} (h : responsesDoneEvents.lookup t = some deltaType) :
    t ∉ responsesTerminalEvents ∧ t ∉ responsesItemDoneEvents := by
  obtain ⟨front, back, heq, -⟩ := List.lookup_eq_some_iff.mp h
  have hall : ∀ p ∈ responsesDoneEvents,
      p.1 ∉ responsesTerminalEvents ∧ p.1 ∉ responsesItemDoneEvents := by
    simp [-String.py_eq, String.py_inj, responsesDoneEvents, responsesTerminalEvents,
      responsesItemDoneEvents]
  exact hall (t, deltaType) (by simp [heq])

theorem Names.matches {value : Option (Json F)} {key : Key} (h : Names value key) :
    key.matches value = true := by
  obtain ⟨v, rfl, hv, hne⟩ := h
  unfold Key.matches
  cases v with
  | null =>
    cases hv
    exact absurd rfl hne
  | bool _ | int _ | float _ | str _ | arr _ | obj _ => simp [isNone, hv]

/-- What the end of an item selects. -/
theorem itemMatcher_of_names {key : StreamKey} (hitem : Names (wholeItemId e) key.itemId)
    (hcontent : isNone (e.get? "content_index".py) = true) : itemMatcher e key = true := by
  unfold itemMatcher
  simp only [hcontent, if_true]
  rw [Bool.or_eq_true]
  exact .inl hitem.matches

theorem entries_nil_of_get? {d : Dict StreamKey (StreamingDesanitizer PyChar)}
    (h : ∀ key, d.get? key = none) : d.entries = [] := by
  rw [List.eq_nil_iff_forall_not_mem]
  rintro ⟨key, stream⟩ hmem
  rw [Dict.mem_entries, h key] at hmem
  cases hmem

/-- What one event does: what it ends is sent before it and no longer held, and behind the
end of the response nothing is held. -/
structure Handles (r : ResponsesStreamDesanitizer F) (e : Fields F) (items : List (ResponsesItem F))
    (r' : ResponsesStreamDesanitizer F) : Prop where
  keeps : Keeps r r' items
  ends : ∀ key, Ends e key → SendsBefore items e key (r.held key) ∧ r'.held key = []
  terminal : ∀ t, e.get? "type".py = some (.str t) → t ∈ responsesTerminalEvents →
    r'.streams.entries = []

section Kinds

variable {t : PyStr} (ht : e.get? "type".py = some (.str t))

include ht

/-- What an event ends, by the tables that its type is in. -/
theorem handles_of_type {items : List (ResponsesItem F)} {r' : ResponsesStreamDesanitizer F}
    (hkeeps : Keeps r r' items)
    (hdone : ∀ deltaType key, responsesDoneEvents.lookup t = some deltaType →
      streamKey deltaType e = .ok key → SendsBefore items e key (r.held key) ∧ r'.held key = [])
    (hclosed : ∀ key, closedBy t e key = true →
      SendsBefore items e key (r.held key) ∧ r'.held key = [])
    (hterminal : t ∈ responsesTerminalEvents → r'.streams.entries = []) :
    Handles r e items r' where
  keeps := hkeeps
  ends key hend := by
    cases hend with
    | done ht' hlookup hkey =>
      cases ht.symm.trans ht'
      exact hdone _ key hlookup hkey
    | item ht' hitem _ hcontent =>
      cases ht.symm.trans ht'
      apply hclosed
      simp [closedBy, itemMatcher_of_names hitem hcontent, responsesItemDoneEvents]
    | terminal ht' hmem =>
      cases ht.symm.trans ht'
      apply hclosed
      simp [closedBy, hmem]
  terminal t' ht' hmem := by
    cases ht.symm.trans ht'
    exact hterminal hmem

theorem feedDelta_handles (h : r.Ready) (he : ResponsesEvent e) {jsonEscape : Bool}
    (hdelta : responsesDeltaEvents.lookup t = some jsonEscape) :
    ∃ items r', r.feedDelta e t jsonEscape = .ok (items, r') ∧ Handles r e items r' := by
  obtain ⟨hdone, hterminal, hitem⟩ := delta_ends_nothing hdelta
  obtain ⟨items, r', hfeed, hkeeps⟩ := feedDelta_keeps h he t jsonEscape
  refine ⟨items, r', hfeed, handles_of_type ht hkeeps ?_ ?_ fun hmem => absurd hmem hterminal⟩
  · intro deltaType key hlookup
    simp [hdone] at hlookup
  · intro key hsel
    simp [closedBy, hterminal, hitem] at hsel

theorem feedDone_handles (h : r.Ready) (he : ResponsesEvent e) {deltaType : PyStr}
    (hdone : responsesDoneEvents.lookup t = some deltaType) :
    ∃ items r', r.feedDone e deltaType = .ok (items, r') ∧ Handles r e items r' := by
  obtain ⟨hterminal, hitem⟩ := done_ends_stream hdone
  obtain ⟨key, hkey, -⟩ := streamKey_ok he deltaType
  obtain ⟨items, r', hfeed, hkeeps, hsent⟩ := feedDone_spec h he ht hkey
  refine ⟨items, r', hfeed, handles_of_type ht hkeeps ?_ ?_ fun hmem => absurd hmem hterminal⟩
  · intro deltaType' key' hlookup hkey'
    cases hdone.symm.trans hlookup
    cases hkey.symm.trans hkey'
    exact hsent
  · intro key' hsel
    simp [closedBy, hterminal, hitem] at hsel

theorem feedOther_handles (h : r.Ready) (he : ResponsesEvent e)
    (hdone : responsesDoneEvents.lookup t = none) :
    ∃ items r', r.feedOther e t = .ok (items, r') ∧ Handles r e items r' := by
  obtain ⟨items, r', hfeed, hkeeps, hsends, hleft⟩ := feedOther_spec h he ht
  refine ⟨items, r', hfeed, handles_of_type ht hkeeps ?_ ?_ ?_⟩
  · intro deltaType key hlookup
    simp [hdone] at hlookup
  · intro key hsel
    refine ⟨hsends key hsel, ?_⟩
    simp only [held, hleft key, hsel, if_true]
  · intro hmem
    refine entries_nil_of_get? fun key => ?_
    rw [hleft key, if_pos (by simp [closedBy, hmem])]

end Kinds

/-- An event without a type passes, and ends nothing. -/
theorem handles_untyped (h : r.Ready) (he : ResponsesEvent e)
    (hno : ∀ t, e.get? "type".py ≠ some (.str t)) : Handles r e [.dict e] r where
  keeps := by
    obtain ⟨n, hn⟩ := he.number
    exact ⟨h, rfl, by simpa using numbered_dict hn⟩
  ends key hend := by
    cases hend with
    | done ht _ _ => exact absurd ht (hno _)
    | item ht _ _ _ => exact absurd ht (hno _)
    | terminal ht _ => exact absurd ht (hno _)
  terminal t ht := absurd ht (hno t)

/-- **One event.** It is handled, whichever table its type is in. -/
theorem feedEvent_spec (h : r.Ready) (he : ResponsesEvent e) :
    ∃ items r', r.feedEvent e = .ok (items, r') ∧ Handles r e items r' := by
  unfold feedEvent
  split
  · next t ht =>
    cases hdelta : responsesDeltaEvents.lookup t with
    | some jsonEscape => exact feedDelta_handles ht h he hdelta
    | none =>
      cases hdone : responsesDoneEvents.lookup t with
      | some deltaType => exact feedDone_handles ht h he hdone
      | none => exact feedOther_handles ht h he hdone
  · next hno => exact ⟨[.dict e], r, rfl, handles_untyped h he hno⟩

end Event

/-! ## Numbers -/

section Numbers

variable {F : Type} [Host F] {r : ResponsesStreamDesanitizer F}

/-- Numbers that count up from the last one, or from any number if there was none. -/
inductive Counts : Option ℤ → List (ResponsesItem F) → Option ℤ → Prop where
  | nil (last : Option ℤ) : Counts last [] last
  | cons {last last' : Option ℤ} {item : ResponsesItem F} {items : List (ResponsesItem F)}
      {fields : Fields F} {n : ℤ} : sequenceOf item = some (fields, n) →
      (∀ m, last = some m → n = m + 1) → Counts (some n) items last' →
      Counts last (item :: items) last'

theorem Counts.append {a b c : Option ℤ} {xs ys : List (ResponsesItem F)} (h : Counts a xs b)
    (h' : Counts b ys c) : Counts a (xs ++ ys) c := by
  induction h with
  | nil last => exact h'
  | cons hseq hnext _ ih => exact .cons hseq hnext (ih h')

theorem Counts.consecutive {n : ℤ} {last : Option ℤ} {items : List (ResponsesItem F)}
    (h : Counts (some n) items last) : Consecutive (n + 1) items := by
  induction items generalizing n with
  | nil => trivial
  | cons item items ih =>
    cases h with
    | @cons _ _ _ _ fields m hseq hnext hrest =>
      obtain rfl := hnext n rfl
      exact ⟨⟨fields, hseq⟩, ih hrest⟩

theorem Counts.exists_consecutive {last last' : Option ℤ} {items : List (ResponsesItem F)}
    (h : Counts last items last') : ∃ first, Consecutive first items := by
  cases h with
  | nil => exact ⟨0, trivial⟩
  | @cons _ _ _ _ fields n hseq _ hrest => exact ⟨n, ⟨fields, hseq⟩, hrest.consecutive⟩

/-- The same event with another number. -/
def SameEvent (item item' : ResponsesItem F) : Prop :=
  ∃ fields fields' n n', sequenceOf item = some (fields, n) ∧ sequenceOf item' = some (fields', n') ∧
    (∀ k, k ≠ "sequence_number".py → fields'.get? k = fields.get? k) ∧
    ∀ g, item = .dict g → item' = .dict fields' ∧ g = fields

theorem short_of_short_moreFields {style : Style} {fields : Fields F} {n : ℤ} {k : PyStr}
    (hmem : (k, .int n) ∈ fields) (h : (moreFields style fields).all Tok.short = true) :
    ShortInt n := by
  induction fields with
  | nil => cases hmem
  | cons entry fields ih =>
    obtain ⟨k', v⟩ := entry
    simp only [moreFields, List.all_cons, List.all_append, Bool.and_eq_true] at h
    rcases List.mem_cons.mp hmem with heq | hmem
    · cases heq
      have hint : (tokens style (.int n : Json F)).all Tok.short = true := h.2.2.2.2.2.1
      simpa [tokens, Tok.short, parseInt_intText] using hint
    · exact ih hmem h.2.2.2.2.2.2

/-- An object that is written has no integer that cannot be. -/
theorem short_of_dumps {style : Style} {fields : Fields F} {n : ℤ} {k s : PyStr}
    (hmem : (k, .int n) ∈ fields) (h : dumps style (.obj fields) = .ok s) : ShortInt n := by
  unfold dumps at h
  split at h
  · next hall =>
    have hmore : (moreFields style fields).all Tok.short = true := by
      cases fields with
      | nil => cases hmem
      | cons entry fields =>
        obtain ⟨k', v⟩ := entry
        simp only [tokens, moreFields, List.all_cons, List.all_append, Bool.and_eq_true] at hall ⊢
        exact ⟨rfl, short_gap, hall.2.1, hall.2.2.1, hall.2.2.2.1, hall.2.2.2.2⟩
    exact short_of_short_moreFields hmem hmore
  · cases h

theorem sequenceOf_dict {g fields : Fields F} {n : ℤ} :
    sequenceOf (.dict g) = some (fields, n) ↔
      g = fields ∧ g.get? "sequence_number".py = some (.int n) := by
  simp only [sequenceOf]
  split
  · next m hm =>
    rw [hm]
    simp
  · next hno =>
    constructor
    · intro h
      cases h
    · rintro ⟨-, hn⟩
      exact absurd hn (hno n)

theorem sequenceOf_text {s : PyStr} {fields : Fields F} {n : ℤ} :
    sequenceOf (.text s) = some (fields, n) ↔
      loads s = .ok (.obj fields) ∧ fields.get? "sequence_number".py = some (.int n) := by
  cases hloads : (loads s : Except Json.Error (Json F)) with
  | error err => simp [sequenceOf, hloads]
  | ok j =>
    cases j with
    | obj g =>
      have hdict : sequenceOf (.text s) = sequenceOf (.dict g) := by simp only [sequenceOf, hloads]
      rw [hdict, sequenceOf_dict, Except.ok.injEq, Json.obj.injEq]
      exact and_congr_right fun heq => by rw [heq]
    | null | bool _ | int _ | float _ | str _ | arr _ => simp [sequenceOf, hloads]

theorem numbered_spec {item item' : ResponsesItem F} {r' : ResponsesStreamDesanitizer F}
    (h : Numbered item) (hnum : r.numbered item = .ok (item', r')) :
    SameEvent item item' ∧ ∃ fields n, sequenceOf item' = some (fields, n) ∧
      (∀ m, r.lastSequence = some m → n = m + 1) ∧ r' = { r with lastSequence := some n } := by
  obtain ⟨fields, current, hseq⟩ := h
  have hdict : ∀ g, item = .dict g → g = fields := by
    rintro g rfl
    exact (sequenceOf_dict.mp hseq).1
  simp only [numbered, hseq] at hnum
  set number := (r.lastSequence.map (· + 1)).getD current with hnumber
  have hlast : ∀ m, r.lastSequence = some m → number = m + 1 := by
    intro m hm
    simp [hnumber, hm]
  split at hnum
  · next heq =>
    cases hnum
    refine ⟨⟨fields, fields, current, current, hseq, hseq, fun k _ => rfl, ?_⟩, fields, number,
      heq ▸ hseq, hlast, rfl⟩
    intro g hg
    exact ⟨hdict g hg ▸ hg, hdict g hg⟩
  · have hother : ∀ k, k ≠ "sequence_number".py →
        (fields.set "sequence_number".py (.int number)).get? k = fields.get? k := fun k hk =>
      Fields.get?_set_of_ne hk _
    have hself := Fields.get?_set_self fields "sequence_number".py (.int number)
    cases item with
    | dict g =>
      cases hnum
      have hseq' := sequenceOf_dict.mpr ⟨rfl, hself⟩
      refine ⟨⟨fields, _, current, number, hseq, hseq', hother, ?_⟩, _, number, hseq', hlast, rfl⟩
      intro g' hg'
      exact ⟨rfl, hdict g' hg'⟩
    | text s =>
      obtain ⟨hloads, -⟩ := sequenceOf_text.mp hseq
      cases hdumps : dumpsText (.obj (fields.set "sequence_number".py (.int number))) with
      | error err =>
        rw [hdumps] at hnum
        cases hnum
      | ok s' =>
        rw [hdumps] at hnum
        cases hnum
        -- the number was written, so it is read back
        unfold dumpsText at hdumps
        cases hwritten : dumps plainStyle (.obj (fields.set "sequence_number".py (.int number))) with
        | error err =>
          rw [hwritten] at hdumps
          cases hdumps
        | ok text =>
          have hshort := short_of_dumps (Fields.mem_of_get? hself) hwritten
          have hok := (loads_ok hloads).set "sequence_number".py (.int hshort)
          rw [dumps_eq plainStyle hok] at hdumps
          cases hdumps
          have hseq' : sequenceOf (.text (render plainStyle
              (.obj (fields.set "sequence_number".py (.int number))))) =
              some (fields.set "sequence_number".py (.int number), number) :=
            sequenceOf_text.mpr ⟨loads_render plainStyle hok (by simp [plainStyle]), hself⟩
          refine ⟨⟨fields, _, current, number, hseq, hseq', hother, ?_⟩, _, number, hseq', hlast, rfl⟩
          intro g hg
          cases hg

/-- The numbers are consecutive, and nothing else changes. -/
theorem renumber_spec {items items' : List (ResponsesItem F)} {r' : ResponsesStreamDesanitizer F}
    (h : ∀ item ∈ items, Numbered item) (hnum : r.renumber items = .ok (items', r')) :
    List.Forall₂ SameEvent items items' ∧ Counts r.lastSequence items' r'.lastSequence ∧
      r' = { r with lastSequence := r'.lastSequence } := by
  induction items generalizing r items' with
  | nil =>
    cases hnum
    exact ⟨.nil, .nil _, rfl⟩
  | cons item items ih =>
    obtain ⟨hitem, hitems⟩ := List.forall_mem_cons.mp h
    cases hone : r.numbered item with
    | error err =>
      rw [renumber, hone] at hnum
      cases hnum
    | ok p =>
      obtain ⟨first, next⟩ := p
      cases hrest : next.renumber items with
      | error err =>
        simp [renumber, hone, hrest, bind, Except.bind] at hnum
      | ok q =>
        obtain ⟨rest, last⟩ := q
        simp only [renumber, hone, hrest, bind, Except.bind, Except.ok.injEq, Prod.mk.injEq] at hnum
        obtain ⟨rfl, rfl⟩ := hnum
        obtain ⟨hsame, fields, n, hseq, hnext, rfl⟩ := numbered_spec hitem hone
        obtain ⟨hsames, hcounts, hkept⟩ := ih hitems hrest
        exact ⟨.cons hsame hsames, .cons hseq hnext hcounts, hkept⟩

theorem SameEvent.isDelta {item item' : ResponsesItem F} {key : StreamKey} {text : PyStr}
    (h : SameEvent item item') (hdelta : IsDelta item key text) : IsDelta item' key text := by
  obtain ⟨fields, fields', n, n', hseq, hseq', hother, -⟩ := h
  obtain ⟨g, m, hg, htype, htext, hkey⟩ := hdelta
  rw [hseq] at hg
  cases hg
  refine ⟨fields', n', hseq', ?_, ?_, ?_⟩
  · rw [hother _ (by decide), htype]
  · rw [hother _ (by decide), htext]
  · have hkeyOf : ∀ name, name ≠ "sequence_number".py → keyOf fields' name = keyOf fields name :=
      fun name hname => by rw [keyOf, keyOf, hother name hname]
    rw [← hkey]
    simp only [streamKey, hkeyOf "item_id".py (by decide), hkeyOf "output_index".py (by decide),
      hkeyOf "content_index".py (by decide), hkeyOf "summary_index".py (by decide)]

omit [Host F] in
theorem forall₂_concat {R : ResponsesItem F → ResponsesItem F → Prop}
    {xs ys : List (ResponsesItem F)} {x : ResponsesItem F} (h : List.Forall₂ R (xs ++ [x]) ys) :
    ∃ ys' y, ys = ys' ++ [y] ∧ List.Forall₂ R xs ys' ∧ R x y := by
  induction xs generalizing ys with
  | nil =>
    cases h with
    | cons hx hnil =>
      cases hnil
      exact ⟨[], _, rfl, .nil, hx⟩
  | cons x' xs ih =>
    cases h with
    | cons hx hrest =>
      obtain ⟨ys', y, rfl, hxs, hy⟩ := ih hrest
      exact ⟨_ :: ys', y, rfl, .cons hx hxs, hy⟩

/-- What is sent before an event is still sent before it under other numbers. -/
theorem SendsBefore.renumber {items items' : List (ResponsesItem F)} {e : Fields F}
    {key : StreamKey} {text : PyStr} (h : SendsBefore items e key text)
    (hsame : List.Forall₂ SameEvent items items') : SendsBefore items' e key text := by
  obtain ⟨tails, fields, rfl, htype, hsent⟩ := h
  obtain ⟨tails', last', rfl, htails, hlast⟩ := forall₂_concat hsame
  obtain ⟨g, g', n, n', -, -, hother, hdict⟩ := hlast
  obtain ⟨rfl, rfl⟩ := hdict fields rfl
  refine ⟨tails', g', rfl, by rw [hother _ (by decide), htype], fun hne => ?_⟩
  obtain ⟨item, hitem, hdelta⟩ := hsent hne
  -- the delta event has a counterpart at the same place
  obtain ⟨i, hi, rfl⟩ := List.getElem_of_mem hitem
  have hi' : i < tails'.length := htails.length_eq ▸ hi
  exact ⟨tails'[i], List.getElem_mem hi', (htails.get hi hi').isDelta hdelta⟩

end Numbers

/-! ## The run -/

section Run

variable {F : Type} [Host F] {r : ResponsesStreamDesanitizer F}

theorem Ready.withNumber (h : r.Ready) (last : Option ℤ) : Ready { r with lastSequence := last } :=
  ⟨h.live, h.info⟩

/-- **One event of a run**, with its numbers. -/
theorem feed_spec (h : r.Ready) {e : Fields F} (he : ResponsesEvent e)
    {out : List (ResponsesItem F)} {r' : ResponsesStreamDesanitizer F}
    (hfeed : r.feed e = .ok (out, r')) :
    r'.Ready ∧ Counts r.lastSequence out r'.lastSequence ∧
      (∀ key, Ends e key → SendsBefore out e key (r.held key) ∧ r'.held key = []) ∧
      ∀ t, e.get? "type".py = some (.str t) → t ∈ responsesTerminalEvents →
        r'.streams.entries = [] := by
  obtain ⟨items, r₁, hevent, hkeeps, hends, hterminal⟩ := feedEvent_spec h he
  have hnum : r₁.renumber items = .ok (out, r') := by
    rw [feed, hevent] at hfeed
    exact hfeed
  obtain ⟨hsame, hcounts, hkept⟩ := renumber_spec hkeeps.numbered hnum
  rw [hkeeps.last] at hcounts
  have hstreams : r'.streams = r₁.streams := by rw [hkept]
  refine ⟨hkept ▸ hkeeps.ready.withNumber _, hcounts, ?_, ?_⟩
  · intro key hend
    obtain ⟨hsends, hheld⟩ := hends key hend
    refine ⟨hsends.renumber hsame, ?_⟩
    rw [← hheld, held, held, hstreams]
  · intro t ht hmem
    rw [hstreams]
    exact hterminal t ht hmem

theorem feedAll_cons {e : Fields F} {events : List (Fields F)}
    {outs : List (List (ResponsesItem F))} {r' : ResponsesStreamDesanitizer F}
    (h : r.feedAll (e :: events) = .ok (outs, r')) :
    ∃ out next rest, r.feed e = .ok (out, next) ∧ next.feedAll events = .ok (rest, r') ∧
      outs = out :: rest := by
  cases hfeed : r.feed e with
  | error err =>
    rw [feedAll, hfeed] at h
    cases h
  | ok p =>
    cases hrest : p.2.feedAll events with
    | error err => simp [feedAll, hfeed, hrest, bind, Except.bind] at h
    | ok q =>
      simp only [feedAll, hfeed, hrest, bind, Except.bind, Except.ok.injEq, Prod.mk.injEq] at h
      obtain ⟨rfl, rfl⟩ := h
      exact ⟨p.1, p.2, q.1, rfl, hrest, rfl⟩

/-- A whole run. -/
theorem feedAll_spec (h : r.Ready) {events : List (Fields F)}
    (hevents : ∀ e ∈ events, ResponsesEvent e) {outs : List (List (ResponsesItem F))}
    {r' : ResponsesStreamDesanitizer F} (hrun : r.feedAll events = .ok (outs, r')) :
    r'.Ready ∧ Counts r.lastSequence outs.flatten r'.lastSequence := by
  induction events generalizing r outs with
  | nil =>
    cases hrun
    exact ⟨h, .nil _⟩
  | cons e events ih =>
    obtain ⟨he, hevents⟩ := List.forall_mem_cons.mp hevents
    obtain ⟨out, next, rest, hfeed, hrest, rfl⟩ := feedAll_cons hrun
    obtain ⟨hready, hcounts, -⟩ := feed_spec h he hfeed
    obtain ⟨hready', hcounts'⟩ := ih hready hevents hrest
    exact ⟨hready', hcounts.append hcounts'⟩

/-- **The order of a restored Responses stream.** In every run over numbered events: each event
is handled (only a number with too many digits cannot be written); before the event that ends a
delta stream, all text that the stream holds has gone out in a delta event of the stream, and
behind it nothing is held; a terminal event leaves no stream; and all events that are sent, the
final flush included, are numbered consecutively. -/
theorem responses_order (mapping : List (Pair PyChar)) {events : List (Fields F)}
    (hevents : ∀ e ∈ events, ResponsesEvent e) :
    (∀ front e back, events = front ++ e :: back → ∀ outs r,
      (new mapping : ResponsesStreamDesanitizer F).feedAll front = .ok (outs, r) →
      (∃ items r', r.feedEvent e = .ok (items, r')) ∧
      ∀ out r', r.feed e = .ok (out, r') →
        (∀ key, Ends e key → SendsBefore out e key (r.held key) ∧ r'.held key = []) ∧
        ∀ t, e.get? "type".py = some (.str t) → t ∈ responsesTerminalEvents →
          r'.streams.entries = []) ∧
    ∀ outs r tails r',
      (new mapping : ResponsesStreamDesanitizer F).feedAll events = .ok (outs, r) →
      r.flush = .ok (tails, r') → ∃ first, Consecutive first (outs.flatten ++ tails) := by
  constructor
  · rintro front e back rfl outs r hrun
    have hfront : ∀ e' ∈ front, ResponsesEvent e' := fun e' he' =>
      hevents e' (List.mem_append_left _ he')
    have he : ResponsesEvent e := hevents e (by simp)
    obtain ⟨hready, -⟩ := feedAll_spec (ready_new mapping) hfront hrun
    constructor
    · obtain ⟨items, r', hevent, -⟩ := feedEvent_spec hready he
      exact ⟨items, r', hevent⟩
    · intro out r' hfeed
      exact (feed_spec hready he hfeed).2.2
  · intro outs r tails r' hrun hflush
    obtain ⟨hready, hcounts⟩ := feedAll_spec (ready_new mapping) hevents hrun
    obtain ⟨items, r₁, hwhere, hkeeps, -⟩ := flushWhere_spec (fun _ => true) hready
    have hnum : r₁.renumber items = .ok (tails, r') := by
      rw [flush, hwhere] at hflush
      exact hflush
    obtain ⟨-, hcounts', -⟩ := renumber_spec hkeeps.numbered hnum
    rw [hkeeps.last] at hcounts'
    exact (hcounts.append hcounts').exists_consecutive

/-- A placeholder that is cut off by the end of its text. -/
theorem responses_order_done :
    let ids : Fields Literal :=
      [("item_id".py, .str "m".py), ("output_index".py, .int 0), ("content_index".py, .int 0)]
    let delta : Fields Literal := ids ++ [("type".py, .str "response.output_text.delta".py),
      ("delta".py, .str "PERS".py), ("sequence_number".py, .int 7)]
    let done : Fields Literal := ids ++ [("type".py, .str "response.output_text.done".py),
      ("text".py, .str "PERS".py), ("sequence_number".py, .int 8)]
    let key : StreamKey := ⟨"response.output_text.delta".py, .str "m".py, .num 0, .num 0, .none⟩
    (∀ e ∈ [delta, done], ResponsesEvent e) ∧ Ends done key ∧
      ∃ outs r out r', (new [("Anna".py, "PERSON_1".py)]).feedAll [delta] = .ok (outs, r) ∧
        r.held key = "PERS".py ∧ r.feed done = .ok (out, r') ∧
        SendsBefore out done key (r.held key) ∧ r'.held key = [] := by
  intro ids delta done key
  -- the ids are a text and small numbers
  have hids : ∀ e ∈ [delta, done], ∀ name ∈ responsesEventIdFields, ∀ v, e.get? name = some v →
      v = .str "m".py ∨ v = .int 0 ∨ v = .int 7 ∨ v = .int 8 := by
    intro e he name hname v hv
    simp only [responsesEventIdFields, List.mem_cons, List.not_mem_nil, or_false] at he hname
    rcases he with rfl | rfl <;> rcases hname with rfl | rfl | rfl | rfl | rfl <;>
      first
        | (cases hv; simp)
        | cases hv
  have hevents : ∀ e ∈ [delta, done], ResponsesEvent e := by
    intro e he
    refine ⟨?_, fun name hname v hv => ?_⟩
    · simp only [List.mem_cons, List.not_mem_nil, or_false] at he
      rcases he with rfl | rfl
      · exact ⟨7, rfl⟩
      · exact ⟨8, rfl⟩
    · rcases hids e he name hname v hv with rfl | rfl | rfl | rfl
      · exact ⟨.str _, rfl⟩
      · exact ⟨.int (by decide), rfl⟩
      · exact ⟨.int (by decide), rfl⟩
      · exact ⟨.int (by decide), rfl⟩
  have hends : Ends done key :=
    .done (t := "response.output_text.done".py) rfl (by decide +kernel) rfl
  have hcheck : (match (new [("Anna".py, "PERSON_1".py)]).feedAll [delta] with
      | .ok (_, r) => decide (r.held key = "PERS".py) && (r.feed done).toBool
      | .error _ => false) = true := by decide +kernel
  cases hrun : (new [("Anna".py, "PERSON_1".py)]).feedAll [delta] with
  | error err =>
    rw [hrun] at hcheck
    cases hcheck
  | ok p =>
    obtain ⟨outs, r⟩ := p
    rw [hrun] at hcheck
    obtain ⟨hheld, hfeed⟩ := Bool.and_eq_true_iff.mp hcheck
    cases hout : r.feed done with
    | error err =>
      rw [hout] at hfeed
      cases hfeed
    | ok q =>
      obtain ⟨hsends, hafter⟩ := (((responses_order _ hevents).1 [delta] done [] rfl outs r hrun).2
        q.1 q.2 hout).1 key hends
      exact ⟨hevents, hends, outs, r, q.1, q.2, rfl, of_decide_eq_true hheld, hout, hsends, hafter⟩

end Run

end ResponsesStreamDesanitizer

end CorpLlmGateway.Sanitizer
