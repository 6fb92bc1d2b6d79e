import CorpLlmGateway.Sanitizer.SseEvents
import CorpLlmGateway.Text.Utf8

/-!
# The framing of a stream

`SseStreamDesanitizer` as a whole: bytes or texts come in, complete events are cut off a
byte buffer that is decoded and encoded again at every cut, and what the events become
goes out in the type of the source.

* `feed_ofPipe` — the byte buffer is a detour: feeding is decoding in front of a consumer
  of events;
* `feedList_cut` — complete events are handled one by one, wherever their text is cut.
-/

namespace CorpLlmGateway.Sanitizer

open Json Framing PyStr

variable {F : Type} [Host F]

/-- A piece of a stream, in or out. -/
inductive Chunk where
  | bytes (b : Utf8.Bytes)
  | str (s : PyStr)

/-- `text.encode("utf-8")`. -/
def encodeText (text : PyStr) : Except Raised Utf8.Bytes :=
  match PyStr.encode text with
  | some b => .ok b
  | none => .error .encode

namespace Chunk

def isBytes : Chunk → Bool
  | .bytes _ => true
  | .str _ => false

/-- The bytes of a piece. -/
def raw : Chunk → Except Raised Utf8.Bytes
  | .bytes b => .ok b
  | .str s => encodeText s

/-- What a piece consists of: bytes, or characters. -/
def units : Chunk → List (UInt8 ⊕ PyChar)
  | .bytes b => b.map .inl
  | .str s => s.map .inr

end Chunk

/-- `SseStreamDesanitizer`. -/
structure SseStreamDesanitizer (F : Type) where
  sourceIsBytes : Option Bool
  utf8 : Utf8.Bytes
  buf : Utf8.Bytes
  events : SseEvents F

namespace SseStreamDesanitizer

def new (mapping : List (Pair PyChar)) : SseStreamDesanitizer F := ⟨none, [], [], .new mapping⟩

/-- `_encode(text)`, for a source of bytes or of texts. -/
def encode (isBytes : Bool) (text : PyStr) : Except Raised Chunk :=
  if isBytes then (encodeText text).map .bytes else .ok (.str text)

/-- One event: what goes out for it. -/
def handle (isBytes : Bool) (events : SseEvents F) (event : PyStr) :
    Except Raised (List Chunk × SseEvents F) := do
  let (out, events) ← events.processEvent event
  let out ← out.mapM (encode isBytes)
  .ok (out, events)

/-- The loop of `_drain`, at most `fuel` times. -/
def drainLoop (isBytes : Bool) : ℕ → Utf8.Bytes → SseEvents F →
    Except Raised (List Chunk × Utf8.Bytes × SseEvents F)
  | 0, buf, events => .ok ([], buf, events)
  | fuel + 1, buf, events =>
      match readEvent (Utf8.decode buf) with
      | none => .ok ([], buf, events)
      | some (event, n) => do
          let (out, events) ← handle isBytes events event
          let (outs, buf, events) ←
            drainLoop isBytes fuel (Unicode.utf8 ((Utf8.decode buf).drop n)) events
          .ok (out ++ outs, buf, events)

/-- Is the source one of bytes? -/
def isBytes (d : SseStreamDesanitizer F) : Bool := d.sourceIsBytes.getD false

/-- `_drain()`: every event takes at least two characters, so there are not more of them
than characters. -/
def drainEvents (d : SseStreamDesanitizer F) :
    Except Raised (List Chunk × SseStreamDesanitizer F) := do
  let (outs, buf, events) ← drainLoop d.isBytes (Utf8.decode d.buf).length d.buf d.events
  .ok (outs, { d with buf := buf, events := events })

/-- `feed(chunk)`. -/
def feed (d : SseStreamDesanitizer F) (chunk : Chunk) :
    Except Raised (List Chunk × SseStreamDesanitizer F) := do
  let raw ← chunk.raw
  let decoded := drain Utf8.decodeOne (d.utf8 ++ raw)
  drainEvents { d with
    sourceIsBytes := some (d.sourceIsBytes.getD chunk.isBytes)
    utf8 := decoded.2
    buf := d.buf ++ Unicode.utf8 decoded.1 }

/-- `flush()`. -/
def flush (d : SseStreamDesanitizer F) :
    Except Raised (List Chunk × SseStreamDesanitizer F) := do
  let d := { d with utf8 := [], buf := d.buf ++ Unicode.utf8 (Utf8.decode d.utf8) }
  let (outs, d) ← d.drainEvents
  let (tails, events) ← d.events.heldTails
  let rest := if d.buf.isEmpty then [] else [ofText (Utf8.decode d.buf)]
  let tails ← (tails ++ rest).mapM (encode d.isBytes)
  .ok (outs ++ tails, { d with buf := [], events := events })

/-- All pieces, then the flush: what goes out, as one. -/
def stream (F : Type) [Host F] (mapping : List (Pair PyChar)) (chunks : List Chunk) :
    Except Raised (List (UInt8 ⊕ PyChar)) := do
  let (outs, d) ← feedList feed (new mapping : SseStreamDesanitizer F) chunks
  let (tails, _) ← d.flush
  .ok ((outs ++ tails).flatMap Chunk.units)

/-! ## The stream as a pipe -/

/-- Decoding in front of the events. -/
abbrev EventPipe (F : Type) := Pipe UInt8 Char (SseEvents F)

/-- The desanitizer whose buffer holds the bytes of the text that waits for its event. -/
def ofPipe (source : Option Bool) (p : EventPipe F) : SseStreamDesanitizer F :=
  ⟨source, p.held, Unicode.utf8 p.buffer, p.state⟩

theorem drainLoop_utf8 (isBytes : Bool) (fuel : ℕ) (text : Text) (events : SseEvents F) :
    drainLoop isBytes fuel (Unicode.utf8 text) events =
      (consumeFuel readEvent (handle isBytes) fuel text events).map fun q =>
        (q.1, Unicode.utf8 q.2.1, q.2.2) := by
  induction fuel generalizing text events with
  | zero => rfl
  | succ fuel ih =>
    simp only [drainLoop, consumeFuel, Utf8.decode_utf8]
    cases readEvent text with
    | none => rfl
    | some x =>
      simp only [bind, Except.bind, ih]
      cases handle isBytes events x.1 with
      | error e => rfl
      | ok q =>
        simp only
        cases consumeFuel readEvent (handle isBytes) fuel (text.drop x.2) q.2 <;> rfl

theorem drainEvents_ofPipe (source : Option Bool) (p : EventPipe F) :
    (ofPipe source p).drainEvents =
      (consume readEvent (handle (source.getD false)) p.buffer p.state).map fun q =>
        (q.1, ofPipe source ⟨p.held, q.2.1, q.2.2⟩) := by
  simp only [drainEvents, ofPipe, isBytes, Utf8.decode_utf8, drainLoop_utf8, consume, bind,
    Except.bind]
  cases consumeFuel readEvent (handle (source.getD false)) p.buffer.length p.buffer p.state <;> rfl

/-- **Feeding is piping**: decode, then hand over complete events. -/
theorem feed_ofPipe (source : Option Bool) (p : EventPipe F) {chunk : Chunk} {raw : Utf8.Bytes}
    (hraw : chunk.raw = .ok raw) :
    (ofPipe source p).feed chunk =
      (pipeFeed Utf8.decodeOne readEvent (handle (source.getD chunk.isBytes)) p raw).map
        fun q => (q.1, ofPipe (some (source.getD chunk.isBytes)) q.2) := by
  rcases hdecoded : drain Utf8.decodeOne (p.held ++ raw) with ⟨items, held⟩
  have hfeed : (ofPipe source p).feed chunk =
      (ofPipe (some (source.getD chunk.isBytes))
        ⟨held, p.buffer ++ items, p.state⟩).drainEvents := by
    simp only [feed, hraw, ofPipe, bind, Except.bind, hdecoded, Unicode.utf8_append]
  rw [hfeed, drainEvents_ofPipe, pipeFeed, hdecoded]
  simp only [bind, Except.bind, Option.getD_some]
  cases consume readEvent (handle (source.getD chunk.isBytes)) (p.buffer ++ items) p.state <;> rfl

/-- A desanitizer of bytes and the pipe that it is; until the first piece arrives the
source is not known. -/
def Piped (mapping : List (Pair PyChar)) (d : SseStreamDesanitizer F) (p : EventPipe F) : Prop :=
  ∃ source, source.getD true = true ∧ d = ofPipe source p ∧
    (source = none → p = ⟨[], [], .new mapping⟩)

variable {mapping : List (Pair PyChar)}

theorem feed_alike {d : SseStreamDesanitizer F} {p : EventPipe F} (h : Piped mapping d p)
    (chunk : Utf8.Bytes) :
    Alike (Piped mapping) Chunk.units Chunk.units (d.feed (.bytes chunk))
      (pipeFeed Utf8.decodeOne readEvent (handle true) p chunk) := by
  obtain ⟨source, hsource, rfl, -⟩ := h
  have hraw : (Chunk.bytes chunk).raw = .ok chunk := rfl
  have hbytes : source.getD (Chunk.bytes chunk).isBytes = true := hsource
  rw [feed_ofPipe source p hraw, hbytes]
  cases pipeFeed Utf8.decodeOne readEvent (handle true) p chunk with
  | error e => exact .error e e
  | ok q => exact .ok rfl ⟨_, rfl, rfl, nofun⟩

/-- What a flush makes of the pipe. -/
def flushPipe (p : EventPipe F) : Except Raised (List Chunk × EventPipe F) := do
  let (outs, buffer, events) ←
    consume readEvent (handle true) (p.buffer ++ Utf8.decode p.held) p.state
  let (tails, events) ← events.heldTails
  let tails ← (tails ++ if buffer.isEmpty then [] else [ofText buffer]).mapM (encode true)
  .ok (outs ++ tails, ⟨[], [], events⟩)

theorem utf8_isEmpty (s : Text) : (Unicode.utf8 s).isEmpty = s.isEmpty := by
  cases s with
  | nil => rfl
  | cons c s => simp [Unicode.utf8_cons]

theorem flush_bytes (p : EventPipe F) :
    Alike (Piped mapping) Chunk.units Chunk.units (ofPipe (some true) p).flush (flushPipe p) := by
  have hdrain := drainEvents_ofPipe (some true) ⟨[], p.buffer ++ Utf8.decode p.held, p.state⟩
  simp only [flush, flushPipe, ofPipe, Unicode.utf8_append, bind, Except.bind] at hdrain ⊢
  rw [hdrain]
  simp only [Option.getD_some]
  cases consume readEvent (handle true) (p.buffer ++ Utf8.decode p.held) p.state with
  | error e => exact .error e e
  | ok q =>
    simp only [Except.map]
    cases q.2.2.heldTails with
    | error e => exact .error e e
    | ok r =>
      simp only [utf8_isEmpty, Utf8.decode_utf8, isBytes, Option.getD_some]
      cases (r.1 ++ if q.2.1.isEmpty then [] else [ofText q.2.1]).mapM (encode true) with
      | error e => exact .error e e
      | ok tails => exact .ok rfl ⟨some true, rfl, rfl, nofun⟩

theorem flush_alike {d : SseStreamDesanitizer F} {p : EventPipe F} (h : Piped mapping d p) :
    Alike (Piped mapping) Chunk.units Chunk.units d.flush (flushPipe p) := by
  obtain ⟨source, hsource, rfl, hnew⟩ := h
  cases source with
  | none =>
    -- nothing was fed, so nothing is held
    rw [hnew rfl]
    exact .ok (a := []) (b := []) rfl ⟨none, rfl, rfl, fun _ => rfl⟩
  | some isBytes =>
    rw [show isBytes = true from hsource]
    exact flush_bytes p

/-- **What a stream sends** is what the pipe sends that is fed with everything at once; or
both raise. -/
theorem stream_eq (mapping : List (Pair PyChar)) (chunks : List Utf8.Bytes) :
    (stream F mapping (chunks.map .bytes)).toOption =
      (((pipeFeed Utf8.decodeOne readEvent (handle true)
        (⟨[], [], .new mapping⟩ : EventPipe F) chunks.flatten).bind fun p =>
          (flushPipe p.2).map fun q => (p.1 ++ q.1, q.2)).map
            fun p => p.1.flatMap Chunk.units).toOption := by
  have hnew : Piped mapping (new mapping : SseStreamDesanitizer F) ⟨[], [], .new mapping⟩ :=
    ⟨none, rfl, rfl, fun _ => rfl⟩
  have hstep : ∀ (d : SseStreamDesanitizer F) (p : EventPipe F) (chunk : Utf8.Bytes),
      Piped mapping d p → Alike (Piped mapping) Chunk.units Chunk.units (d.feed (.bytes chunk))
        (pipeFeed Utf8.decodeOne readEvent (handle true) p chunk) :=
    fun d p chunk h => feed_alike h chunk
  have hfeed := feedList_alike hstep hnew chunks
  have hwait : Pipe.Waiting Utf8.decodeOne readEvent (⟨[], [], .new mapping⟩ : EventPipe F) :=
    ⟨Utf8.decodeOne_nil, readEvent_nil⟩
  have hall := pipeAll_eq (f := handle true) Utf8.decodeOne_stable readEvent_stable hwait chunks
  rw [← hall, pipeAll, ← (hfeed.bind fun d p h => flush_alike h).map, stream]
  simp only [bind, Except.bind]
  cases feedList feed (new mapping : SseStreamDesanitizer F) (chunks.map .bytes) with
  | error e => rfl
  | ok p =>
    simp only
    cases p.2.flush <;> rfl

/-! ## Complete events as texts -/

/-- A text that is one complete event: it ends with its first boundary. -/
structure CompleteEvent (event : PyStr) : Prop where
  ends : ∃ p, firstBoundary event = some p ∧ p.1 + p.2 = event.length
  scalar : Scalar event

theorem CompleteEvent.readEvent_eq {event : PyStr} (h : CompleteEvent event) :
    readEvent (chars event) = some (event, (chars event).length) := by
  obtain ⟨p, hp, hlen⟩ := h.ends
  have hchars : (chars event).length = event.length := by
    rw [← length_ofText, h.scalar.ofText_chars]
  rw [readEvent, searchBoundary_eq, h.scalar.ofText_chars, hp]
  simp only [Option.map_some, hlen, ← hchars, List.take_length, h.scalar.ofText_chars]

theorem CompleteEvent.drain_eq {event : PyStr} (h : CompleteEvent event) :
    drain readEvent (chars event) = ([event], []) := by
  rw [drain_of_some readEvent_stable.toProper h.readEvent_eq, List.drop_length,
    drain_of_none readEvent_stable.toProper readEvent_nil]

/-- A source of texts encodes nothing. -/
theorem mapM_encode_false (out : List PyStr) : out.mapM (encode false) = .ok (out.map .str) := by
  induction out with
  | nil => rfl
  | cons s out ih =>
    rw [List.mapM_cons, ih]
    rfl

theorem handle_false (st : SseEvents F) (event : PyStr) :
    handle false st event = (st.processEvent event).map fun p => (p.1.map .str, p.2) := by
  simp only [handle, bind, Except.bind, mapM_encode_false]
  cases st.processEvent event <;> rfl

/-- A stream of texts between two events. -/
def atRest (source : Option Bool) (st : SseEvents F) : SseStreamDesanitizer F :=
  ofPipe source ⟨[], [], st⟩

/-- The flush of a stream of texts between two events: what is still held. -/
theorem flush_atRest {source : Option Bool} (hsource : source.getD false = false)
    (st : SseEvents F) :
    (atRest source st).flush =
      st.heldTails.map fun p => (p.1.map .str, atRest source p.2) := by
  have hdrain := drainEvents_ofPipe source (⟨[], [], st⟩ : EventPipe F)
  rw [consume_of_none readEvent_stable.toProper readEvent_nil] at hdrain
  have hbuf : ({ atRest source st with
      utf8 := []
      buf := (atRest source st).buf ++ Unicode.utf8 (Utf8.decode (atRest source st).utf8) } :
        SseStreamDesanitizer F) = atRest source st := rfl
  unfold flush
  rw [hbuf, atRest]
  simp only [hdrain, Except.map, bind, Except.bind]
  simp only [ofPipe, isBytes, hsource]
  cases st.heldTails with
  | error e => rfl
  | ok p => simp [mapM_encode_false, Unicode.utf8, atRest, ofPipe]

/-! ## Texts that are cut anywhere -/

theorem chars_append {s : PyStr} (h : Scalar s) (t : PyStr) : chars (s ++ t) = chars s ++ chars t := by
  conv_lhs => rw [← h.ofText_chars]
  rw [chars_ofText_append]

/-- A text that was encoded is decoded again. -/
theorem drain_utf8 (s : Text) : drain Utf8.decodeOne (Unicode.utf8 s) = (s, []) := by
  have hdrain := Utf8.drain_utf8 s []
  have hend : drain Utf8.decodeOne [] = ([], []) :=
    drain_of_none Utf8.decodeOne_stable.toProper Utf8.decodeOne_nil
  rwa [List.append_nil, hend, List.append_nil] at hdrain

theorem drain_events {events : List PyStr} (h : ∀ e ∈ events, CompleteEvent e) :
    drain readEvent (chars events.flatten) = (events, []) := by
  induction events with
  | nil => exact drain_of_none readEvent_stable.toProper readEvent_nil
  | cons e events ih =>
    obtain ⟨he, h⟩ := List.forall_mem_cons.mp h
    rw [List.flatten_cons, chars_append he.scalar, drain_append readEvent_stable, he.drain_eq]
    simp only [List.nil_append, ih h, List.singleton_append]

theorem feedList_handle_false (st : SseEvents F) (events : List PyStr) :
    feedList (handle false) st events =
      (feedList SseEvents.processEvent st events).map fun p => (p.1.map .str, p.2) := by
  induction events generalizing st with
  | nil => rfl
  | cons e events ih =>
    simp only [feedList, bind, Except.bind, handle_false]
    cases st.processEvent e with
    | error err => rfl
    | ok p =>
      simp only [Except.map, ih]
      cases feedList SseEvents.processEvent p.2 events with
      | error err => rfl
      | ok q => simp

/-- Texts that are fed are encoded in front of the pipe. -/
theorem feedList_ofPipe {source : Option Bool} (hsource : source.getD false = false)
    (p : EventPipe F) {chunks : List PyStr} (h : ∀ c ∈ chunks, Scalar c) :
    ∃ source' : Option Bool, source'.getD false = false ∧
      feedList feed (ofPipe source p) (chunks.map .str) =
        (pipeAll Utf8.decodeOne readEvent (handle false) p
          (chunks.map fun c => Unicode.utf8 (chars c))).map fun q => (q.1, ofPipe source' q.2) := by
  induction chunks generalizing source p with
  | nil => exact ⟨source, hsource, rfl⟩
  | cons c chunks ih =>
    obtain ⟨hc, h⟩ := List.forall_mem_cons.mp h
    have hraw : (Chunk.str c).raw = .ok (Unicode.utf8 (chars c)) := by
      simp only [Chunk.raw, encodeText, PyStr.encode, if_pos hc]
    have hfeed := feed_ofPipe source p hraw
    rw [show source.getD (Chunk.str c).isBytes = false from hsource] at hfeed
    simp only [List.map_cons, pipeAll, feedList, bind, Except.bind, hfeed]
    cases pipeFeed Utf8.decodeOne readEvent (handle false) p (Unicode.utf8 (chars c)) with
    | error err => exact ⟨source, hsource, rfl⟩
    | ok q =>
      have hstr : (some false).getD false = false := rfl
      obtain ⟨source', hsource', hrest⟩ := ih hstr q.2 h
      refine ⟨source', hsource', ?_⟩
      simp only [Except.map, hrest, pipeAll]
      cases feedList (pipeFeed Utf8.decodeOne readEvent (handle false)) q.2
        (chunks.map fun c => Unicode.utf8 (chars c)) <;> rfl

/-- **Cuts between texts do not matter**: complete events are handled one by one, wherever
the pieces they arrive in begin and end. -/
theorem feedList_cut (mapping : List (Pair PyChar)) {events chunks : List PyStr}
    (h : ∀ e ∈ events, CompleteEvent e) (hcut : chunks.flatten = events.flatten) :
    ∃ source : Option Bool, source.getD false = false ∧
      feedList feed (new mapping : SseStreamDesanitizer F) (chunks.map .str) =
        (feedList SseEvents.processEvent (SseEvents.new mapping : SseEvents F) events).map fun p =>
          (p.1.map .str, atRest source p.2) := by
  have hscalar : ∀ c ∈ chunks, Scalar c := by
    intro c hc
    have hall : Scalar chunks.flatten := by
      rw [hcut]
      intro x hx
      obtain ⟨e, he, hx⟩ := List.mem_flatten.mp hx
      exact (h e he).scalar x hx
    intro x hx
    exact hall x (List.mem_flatten.mpr ⟨c, hc, hx⟩)
  have hnone : none.getD false = false := rfl
  obtain ⟨source, hsource, hfeed⟩ :=
    feedList_ofPipe hnone (⟨[], [], .new mapping⟩ : EventPipe F) hscalar
  have hwait : Pipe.Waiting Utf8.decodeOne readEvent (⟨[], [], .new mapping⟩ : EventPipe F) :=
    ⟨Utf8.decodeOne_nil, readEvent_nil⟩
  have hbytes : (chunks.map fun c => Unicode.utf8 (chars c)).flatten =
      Unicode.utf8 (chars events.flatten) := by
    rw [← hcut]
    clear hfeed hwait hcut
    induction chunks with
    | nil => rfl
    | cons c chunks ih =>
      obtain ⟨hc, hscalar⟩ := List.forall_mem_cons.mp hscalar
      rw [List.map_cons, List.flatten_cons, List.flatten_cons, chars_append hc, Unicode.utf8_append,
        ih hscalar]
  refine ⟨source, hsource, ?_⟩
  rw [show (new mapping : SseStreamDesanitizer F) = ofPipe none ⟨[], [], .new mapping⟩ from rfl,
    hfeed, pipeAll_eq Utf8.decodeOne_stable readEvent_stable hwait, hbytes]
  simp only [pipeFeed, List.nil_append, drain_utf8, consume_eq, drain_events h,
    feedList_handle_false, bind, Except.bind]
  cases feedList SseEvents.processEvent (SseEvents.new mapping : SseEvents F) events with
  | error err => rfl
  | ok p => rfl

/-- **A stream of complete events** is the events one by one, and then what is held. -/
theorem stream_texts (mapping : List (Pair PyChar)) {events : List PyStr}
    (h : ∀ e ∈ events, CompleteEvent e) :
    stream F mapping (events.map .str) =
      (feedList SseEvents.processEvent (SseEvents.new mapping : SseEvents F) events).bind fun p =>
        p.2.heldTails.map fun q => ((p.1 ++ q.1).map Chunk.str).flatMap Chunk.units := by
  obtain ⟨source, hsource, hfeed⟩ := feedList_cut (F := F) mapping h rfl
  rw [stream, hfeed]
  cases feedList SseEvents.processEvent (SseEvents.new mapping : SseEvents F) events with
  | error e => rfl
  | ok p =>
    simp only [Except.map, bind, Except.bind, flush_atRest hsource]
    cases p.2.heldTails with
    | error e => rfl
    | ok q => simp

end SseStreamDesanitizer

end CorpLlmGateway.Sanitizer
