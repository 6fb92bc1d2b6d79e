import CorpLlmGateway.RouteGate.SseRestorer

/-!
# The usage tap

What `_UsageTap` lets through of a response that is not restored. It reads the usage of each
event; for a client that did not ask for it, the usage chunk and every other chunk of empty
choices is held back. An event still open past the cap ends the reading, and from there on
every byte goes out as it came.

* `readEventBytes_stable`, `readEventBytes_local` — an event ends at its own boundary, whatever
  follows;
* `feedSse_open`, `feedSse_final` — what one chunk does to a tap that still reads;
* `outputs_conserved` — over a whole stream, only whole events of empty choices are missing,
  and which ones depends on the cut only past the cap.
-/

namespace CorpLlmGateway.RouteGate

open Json Framing Sanitizer PyStr

/-! ## Events of a byte stream -/

/-- The text with one character for each byte. -/
def latin1 (s : Utf8.Bytes) : PyStr := s.map fun b => .scalar (Char.ofNat b.toNat)

/-- `_SSE_BOUNDARY_BYTES.search(buffer)`: the bytes of `_SSE_BOUNDARY`, so the search is that
of the text. -/
def searchBoundaryBytes (buffer : Utf8.Bytes) : Option (TextScan.Hit (List (ℕ × ℕ × ℕ))) :=
  searchBoundary (latin1 buffer)

/-- The next complete event of a buffer. -/
def readEventBytes : Reader UInt8 Utf8.Bytes := fun buffer =>
  (searchBoundaryBytes buffer).map fun h => (buffer.take h.stop, h.stop)

/-! ## The tap -/

/-- `_USAGE_BODY_CAP`. -/
def usageBodyCap : ℕ := 1024 * 1024

/-- `_USAGE_EVENT_CAP`. -/
def usageEventCap : ℕ := 8 * 1024 * 1024

structure UsageTap where
  sse : Bool
  drops : Bool
  buffer : Utf8.Bytes
  isOver : Bool

namespace UsageTap

/-- `_UsageTap(sse, drop_usage_chunk=…)`. -/
def new (sse dropUsageChunk : Bool) : UsageTap := ⟨sse, sse && dropUsageChunk, [], false⟩

/-- `_UsageTap.for_content_type(content_type, drop_usage_chunk=…)`. -/
def forContentType (contentType : PyStr) (dropUsageChunk : Bool) : Option UsageTap :=
  if "text/event-stream".py.isPrefixOf contentType then some (new true dropUsageChunk)
  else if "json".py <:+: contentType then some (new false false)
  else none

section

variable (F : Type) [Host F]

/-- `_json_or_none(_data_field(event.decode("utf-8", "replace")))`. -/
def eventPayload (event : Utf8.Bytes) : Json F :=
  jsonOrNone (dataField (ofText (Utf8.decode event)))

/-- `_read(event, usage)`: whether to drop the event, and the usage with what it says. An
exception means neither, as does a payload that is not read. -/
def read (drops : Bool) (event : Utf8.Bytes) (usage : Usage) : Bool × Usage :=
  if !drops ∧ ¬ Unicode.utf8 "\"usage\"".toList <:+: event then (false, usage)
  else
    (drops && injectedUsageArtifact (eventPayload F event), usage.observe (eventPayload F event))

/-- The loop of `_feed_sse`: what goes out of the complete events of a buffer, and the rest. -/
def feedLoop (drops : Bool) :
    ℕ → Utf8.Bytes → Utf8.Bytes → Usage → Utf8.Bytes × Utf8.Bytes × Usage
  | 0, buffer, out, usage => (out, buffer, usage)
  | fuel + 1, buffer, out, usage =>
      match readEventBytes buffer with
      | none => (out, buffer, usage)
      | some (event, stop) =>
          let (drop, usage) := read F drops event usage
          feedLoop drops fuel (buffer.drop stop) (if drop then out else out ++ event) usage

/-- The end of the body in `_feed_sse`: what is left is read as an event. -/
def feedRest (drops final : Bool) (out buffer : Utf8.Bytes) (usage : Usage) :
    Utf8.Bytes × Utf8.Bytes × Usage :=
  if final ∧ buffer ≠ [] then
    let (drop, usage) := read F drops buffer usage
    (if drop then out else out ++ buffer, [], usage)
  else (out, buffer, usage)

/-- The cap in `_feed_sse`: an open event that is too long goes out. -/
def feedOver (out buffer : Utf8.Bytes) : Utf8.Bytes × Utf8.Bytes × Bool :=
  if usageEventCap < buffer.length then (out ++ buffer, [], true) else (out, buffer, false)

/-- `_feed_sse(chunk, final, usage)`. -/
def feedSse (tap : UsageTap) (chunk : Utf8.Bytes) (final : Bool) (usage : Usage) :
    Utf8.Bytes × UsageTap × Usage :=
  if tap.isOver then (chunk, tap, usage)
  else
    let buffer := tap.buffer ++ chunk
    let (out, buffer, usage) := feedLoop F tap.drops buffer.length buffer [] usage
    let (out, buffer, usage) := feedRest F tap.drops final out buffer usage
    let (out, buffer, isOver) := feedOver out buffer
    (if tap.drops then out else chunk, { tap with buffer := buffer, isOver := isOver }, usage)

/-- `_feed_json(chunk, final, usage)`. -/
def feedJson (tap : UsageTap) (chunk : Utf8.Bytes) (final : Bool) (usage : Usage) :
    UsageTap × Usage :=
  if tap.isOver then (tap, usage)
  else if usageBodyCap < tap.buffer.length + chunk.length then
    ({ tap with buffer := [], isOver := true }, usage)
  else if final then
    ({ tap with buffer := [] },
      usage.observe (jsonOrNone (F := F) (some (ofText (Utf8.decode (tap.buffer ++ chunk))))))
  else ({ tap with buffer := tap.buffer ++ chunk }, usage)

/-- `feed(chunk, final=…, usage=…)`. -/
def feed (tap : UsageTap) (chunk : Utf8.Bytes) (final : Bool) (usage : Usage) :
    Utf8.Bytes × UsageTap × Usage :=
  if tap.sse then feedSse F tap chunk final usage
  else (chunk, feedJson F tap chunk final usage)

/-- What goes out for the chunks of a body, the last one final. -/
def outputs : UsageTap → List Utf8.Bytes → Usage → List Utf8.Bytes
  | _, [], _ => []
  | tap, [chunk], usage => [(feed F tap chunk true usage).1]
  | tap, chunk :: chunks, usage =>
      (feed F tap chunk false usage).1 ::
        outputs (feed F tap chunk false usage).2.1 chunks (feed F tap chunk false usage).2.2

/-! ## What is held back -/

/-- The events of a stream; what stands behind the last boundary is one as well. -/
def streamEvents (stream : Utf8.Bytes) : List Utf8.Bytes :=
  (drain readEventBytes stream).1 ++
    if (drain readEventBytes stream).2 = [] then [] else [(drain readEventBytes stream).2]

/-- The events that a tap holds back. -/
def removes (drops : Bool) (event : Utf8.Bytes) : Bool :=
  drops && injectedUsageArtifact (eventPayload F event)

/-- A chat event all of whose choices are empty. -/
def EmptyChat (event : Utf8.Bytes) : Prop :=
  ∃ payload choices, eventPayload F event = .obj payload ∧
    Fields.get? payload "choices".py = some (.arr choices) ∧
    ∀ choice ∈ choices, emptyChoice choice = true

/-- The bytes of the events that are not held back. -/
def passed (drops : Bool) (events : List Utf8.Bytes) : Utf8.Bytes :=
  (events.filter fun event => !removes F drops event).flatten

end

/-! ## Boundaries of bytes -/

@[simp] theorem latin1_append (s t : Utf8.Bytes) : latin1 (s ++ t) = latin1 s ++ latin1 t :=
  List.map_append

@[simp] theorem length_latin1 (s : Utf8.Bytes) : (latin1 s).length = s.length := List.length_map _

theorem readEventBytes_eq (s : Utf8.Bytes) :
    readEventBytes s =
      (firstBoundary (latin1 s)).map fun p => (s.take (p.1 + p.2), p.1 + p.2) := by
  rw [readEventBytes, searchBoundaryBytes, searchBoundary_eq, Option.map_map]
  rfl

theorem readEventBytes_some {s event : Utf8.Bytes} {n : ℕ}
    (h : readEventBytes s = some (event, n)) :
    ∃ p, firstBoundary (latin1 s) = some p ∧ event = s.take n ∧ n = p.1 + p.2 := by
  rw [readEventBytes_eq] at h
  obtain ⟨p, hp, heq⟩ := Option.map_eq_some_iff.mp h
  simp only [Prod.mk.injEq] at heq
  obtain ⟨rfl, rfl⟩ := heq
  exact ⟨p, hp, rfl, rfl⟩

theorem readEventBytes_stable : readEventBytes.Stable := by
  have hbounds : ∀ {s : Utf8.Bytes} {p : ℕ × ℕ}, firstBoundary (latin1 s) = some p →
      2 ≤ p.2 ∧ p.1 + p.2 ≤ s.length := by
    intro s p hp
    simpa using firstBoundary_bounds hp
  refine ⟨⟨?_, ?_⟩, ?_⟩
  · intro s event n h
    obtain ⟨p, hp, -, rfl⟩ := readEventBytes_some h
    have htwo := (hbounds hp).1
    omega
  · intro s event n h
    obtain ⟨p, hp, -, rfl⟩ := readEventBytes_some h
    exact (hbounds hp).2
  · intro s event n h t
    obtain ⟨p, hp, rfl, rfl⟩ := readEventBytes_some h
    rw [readEventBytes_eq, latin1_append, firstBoundary_append hp, Option.map_some,
      List.take_append_of_le_length (hbounds hp).2]

theorem boundaryLen_of_append {text t : PyStr} {n : ℕ} (h : boundaryLen (text ++ t) = some n)
    (hn : n ≤ text.length) : boundaryLen text = some n := by
  have hback : ∀ {mark : PyStr}, mark <+: text ++ t → mark.length ≤ text.length → mark <+: text :=
    fun hpre hlen => List.prefix_of_prefix_length_le hpre (List.prefix_append text t) hlen
  unfold boundaryLen at h ⊢
  split at h
  · next hpre =>
    cases h
    rw [if_pos (hback hpre hn)]
  · next hnot =>
    split at h
    · next hpre =>
      cases h
      rw [if_neg fun hpre => hnot (hpre.trans (List.prefix_append text t)), if_pos]
      exact hpre.imp (fun hlf => hback hlf hn) fun hcr => hback hcr hn
    · cases h

/-- The boundary that ends an event is found without what follows it. -/
theorem firstBoundary_of_append {text t : PyStr} {p : ℕ × ℕ}
    (h : firstBoundary (text ++ t) = some p) (hp : p.1 + p.2 ≤ text.length) :
    firstBoundary text = some p := by
  induction text generalizing p with
  | nil =>
    have htwo := (firstBoundary_bounds h).1
    simp only [List.length_nil] at hp
    omega
  | cons c s ih =>
    rw [List.cons_append, firstBoundary] at h
    rw [firstBoundary]
    split at h
    · next n hlen =>
      cases h
      rw [boundaryLen_of_append (t := t) hlen (by simpa using hp)]
    · next hnone =>
      obtain ⟨q, hq, rfl⟩ := Option.map_eq_some_iff.mp h
      have hno : boundaryLen (c :: s) = none := by
        cases hlen : boundaryLen (c :: s) with
        | none => rfl
        | some n =>
          have happ := boundaryLen_append hlen t
          rw [List.cons_append, hnone] at happ
          cases happ
      rw [hno, ih hq]
      · rfl
      · simp only [List.length_cons] at hp
        omega

theorem readEventBytes_local {s t event : Utf8.Bytes} {n : ℕ}
    (h : readEventBytes (s ++ t) = some (event, n)) (hn : n ≤ s.length) :
    readEventBytes s = some (event, n) := by
  obtain ⟨p, hp, rfl, rfl⟩ := readEventBytes_some h
  rw [latin1_append] at hp
  rw [readEventBytes_eq, firstBoundary_of_append hp (by simpa using hn), Option.map_some,
    List.take_append_of_le_length hn]

/-! ## The events of a stream -/

theorem streamEvents_append (s t : Utf8.Bytes) :
    streamEvents (s ++ t) =
      (drain readEventBytes s).1 ++ streamEvents ((drain readEventBytes s).2 ++ t) := by
  simp only [streamEvents, drain_append readEventBytes_stable s t, List.append_assoc]

/-- A stream is its events. -/
theorem flatten_streamEvents (s : Utf8.Bytes) : (streamEvents s).flatten = s := by
  obtain ⟨pieces, hpieces, hread⟩ := drain_pieces readEventBytes_stable.toProper s
  -- an event is the piece that it was read from
  have hevents : (drain readEventBytes s).1 = pieces := by
    refine List.forall₂_eq_eq_eq ▸ hread.imp ?_
    rintro event piece ⟨t, h⟩
    obtain ⟨-, -, rfl, -⟩ := readEventBytes_some h
    exact List.take_left
  rw [streamEvents, hevents, List.flatten_append]
  conv_rhs => rw [hpieces]
  split
  · next hrest => rw [hrest, List.flatten_nil]
  · rw [List.flatten_singleton]

/-- The first event of a stream does not end inside a buffer without a boundary. -/
theorem exists_long_event {s : Utf8.Bytes} (h : readEventBytes s = none) (hs : s ≠ [])
    (t : Utf8.Bytes) : ∃ event ∈ streamEvents (s ++ t), s.length ≤ event.length := by
  cases hread : readEventBytes (s ++ t) with
  | none =>
    refine ⟨s ++ t, ?_, by simp⟩
    simp [streamEvents, drain_of_none readEventBytes_stable.toProper hread, hs]
  | some p =>
    obtain ⟨event, n⟩ := p
    refine ⟨event, ?_, ?_⟩
    · simp [streamEvents, drain_of_some readEventBytes_stable.toProper hread]
    · by_contra hshort
      obtain ⟨-, -, heq, -⟩ := readEventBytes_some hread
      have hle := readEventBytes_stable.le hread
      have hlen : event.length = n := by rw [heq, List.length_take_of_le hle]
      rw [readEventBytes_local hread (by omega)] at h
      cases h

/-! ## One chunk -/

section

variable {F : Type} [Host F]

theorem read_fst (drops : Bool) (event : Utf8.Bytes) (usage : Usage) :
    (read F drops event usage).1 = removes F drops event := by
  unfold read removes
  split
  · next hskip => simp [show drops = false by simpa using hskip.1]
  · rfl

theorem emptyChat_of_removes {drops : Bool} {event : Utf8.Bytes}
    (h : removes F drops event = true) : EmptyChat F event := by
  obtain ⟨-, h⟩ := Bool.and_eq_true_iff.mp h
  cases hpayload : eventPayload F event with
  | obj payload =>
    rw [hpayload, injectedUsageArtifact, Bool.and_eq_true] at h
    obtain ⟨-, h⟩ := h
    split at h
    · next choices hchoices =>
      exact ⟨payload, choices, hpayload, hchoices, List.all_eq_true.mp h⟩
    · cases h
  | null | bool _ | int _ | float _ | str _ | arr _ =>
    rw [hpayload] at h
    cases h

@[simp] theorem passed_nil (drops : Bool) : passed F drops [] = [] := rfl

theorem passed_append (drops : Bool) (a b : List Utf8.Bytes) :
    passed F drops (a ++ b) = passed F drops a ++ passed F drops b := by
  simp [passed]

theorem passed_singleton (drops : Bool) (event : Utf8.Bytes) :
    passed F drops [event] = if removes F drops event then [] else event := by
  cases h : removes F drops event <;> simp [passed, h]

theorem feedLoop_eq (drops : Bool) (fuel : ℕ) (buffer out : Utf8.Bytes) (usage : Usage) :
    (feedLoop F drops fuel buffer out usage).1 =
        out ++ passed F drops (drainFuel readEventBytes fuel buffer).1 ∧
      (feedLoop F drops fuel buffer out usage).2.1 = (drainFuel readEventBytes fuel buffer).2 := by
  induction fuel generalizing buffer out usage with
  | zero => simp [feedLoop, drainFuel]
  | succ fuel ih =>
    cases hread : readEventBytes buffer with
    | none => simp [feedLoop, drainFuel, hread]
    | some p =>
      obtain ⟨event, stop⟩ := p
      simp only [feedLoop, drainFuel, hread]
      obtain ⟨hout, hrest⟩ := ih (buffer.drop stop)
        (if (read F drops event usage).1 then out else out ++ event) (read F drops event usage).2
      refine ⟨?_, hrest⟩
      rw [hout, ← List.singleton_append, passed_append, passed_singleton, read_fst]
      split <;> simp

/-- A tap that lets nothing be held back gives each chunk out as it came. -/
theorem feedSse_pass {tap : UsageTap} (h : tap.drops = false) (chunk : Utf8.Bytes) (final : Bool)
    (usage : Usage) : (feedSse F tap chunk final usage).1 = chunk := by
  unfold feedSse
  split
  · rfl
  · simp [h]

theorem feedRest_final (out buffer : Utf8.Bytes) (usage : Usage) :
    (feedRest F true true out buffer usage).1 =
        out ++ passed F true (if buffer = [] then [] else [buffer]) ∧
      (feedRest F true true out buffer usage).2.1 = [] := by
  by_cases hnil : buffer = []
  · simp [feedRest, hnil]
  · simp only [feedRest, hnil, ne_eq, not_false_eq_true, and_self, if_true, if_false, and_true,
      read_fst, passed_singleton]
    split <;> simp

/-- The last chunk: what is left is an event as well. -/
theorem feedSse_final {tap : UsageTap} (hover : tap.isOver = false) (hdrops : tap.drops = true)
    (chunk : Utf8.Bytes) (usage : Usage) :
    (feedSse F tap chunk true usage).1 = passed F true (streamEvents (tap.buffer ++ chunk)) := by
  obtain ⟨hout, hrest⟩ := feedLoop_eq (F := F) true (tap.buffer ++ chunk).length
    (tap.buffer ++ chunk) [] usage
  simp only [feedSse, hover, hdrops, Bool.false_eq_true, if_false, if_true, hout, hrest,
    feedRest_final, feedOver, List.length_nil, Nat.not_lt_zero, List.nil_append]
  rw [← passed_append]
  rfl

/-- A chunk before the last one: the complete events are read, and an event that has grown past
the cap goes out as far as it has come. -/
theorem feedSse_open {tap : UsageTap} (hover : tap.isOver = false) (hdrops : tap.drops = true)
    (chunk : Utf8.Bytes) (usage : Usage) :
    let d := drain readEventBytes (tap.buffer ++ chunk)
    let capped := feedOver (passed F true d.1) d.2
    (feedSse F tap chunk false usage).1 = capped.1 ∧
      (feedSse F tap chunk false usage).2.1 =
        { tap with buffer := capped.2.1, isOver := capped.2.2 } := by
  obtain ⟨hout, hrest⟩ := feedLoop_eq (F := F) true (tap.buffer ++ chunk).length
    (tap.buffer ++ chunk) [] usage
  simp only [feedSse, hover, hdrops, Bool.false_eq_true, if_false, if_true, hout, hrest, feedRest,
    false_and, List.nil_append]
  exact ⟨rfl, rfl⟩

/-! ## A whole stream -/

/-- A property of taps that `feed` keeps, and under which each chunk goes out as it came. -/
theorem outputs_of_invariant {P : UsageTap → Prop}
    (h : ∀ tap chunk final usage, P tap →
      (feed F tap chunk final usage).1 = chunk ∧ P (feed F tap chunk final usage).2.1)
    (chunks : List Utf8.Bytes) {tap : UsageTap} (htap : P tap) (usage : Usage) :
    (outputs F tap chunks usage).flatten = chunks.flatten := by
  induction chunks generalizing tap usage with
  | nil => rfl
  | cons chunk chunks ih =>
    cases chunks with
    | nil => simp [outputs, (h tap chunk true usage htap).1]
    | cons next chunks =>
      obtain ⟨hout, hkeep⟩ := h tap chunk false usage htap
      rw [outputs, List.flatten_cons, ih hkeep, hout, ← List.flatten_cons]
      simp

theorem outputs_pass (chunks : List Utf8.Bytes) {tap : UsageTap} (hdrops : tap.drops = false)
    (usage : Usage) : (outputs F tap chunks usage).flatten = chunks.flatten := by
  refine outputs_of_invariant (P := fun tap => tap.drops = false) ?_ chunks hdrops usage
  intro tap chunk final usage hdrops
  unfold feed
  split
  · refine ⟨feedSse_pass hdrops chunk final usage, ?_⟩
    unfold feedSse
    split
    · exact hdrops
    · exact hdrops
  · refine ⟨rfl, ?_⟩
    unfold feedJson
    split
    · exact hdrops
    · split
      · exact hdrops
      · split
        · exact hdrops
        · exact hdrops

theorem outputs_over (chunks : List Utf8.Bytes) {tap : UsageTap} (hsse : tap.sse = true)
    (hover : tap.isOver = true) (usage : Usage) :
    (outputs F tap chunks usage).flatten = chunks.flatten := by
  refine outputs_of_invariant (P := fun tap => tap.sse = true ∧ tap.isOver = true) ?_ chunks
    ⟨hsse, hover⟩ usage
  rintro tap chunk final usage ⟨hsse, hover⟩
  simp [feed, feedSse, hsse, hover]

/-- What goes out of a stream of which the tap holds back events among the first `k`. -/
def passedUpTo (F : Type) [Host F] (k : ℕ) (events : List Utf8.Bytes) : Utf8.Bytes :=
  passed F true (events.take k) ++ (events.drop k).flatten

theorem passedUpTo_length (events : List Utf8.Bytes) :
    passedUpTo F events.length events = passed F true events := by
  simp [passedUpTo]

theorem passedUpTo_append (front events : List Utf8.Bytes) (k : ℕ) :
    passedUpTo F (front.length + k) (front ++ events) =
      passed F true front ++ passedUpTo F k events := by
  rw [passedUpTo, List.take_length_add_append, List.drop_length_add_append, passed_append,
    List.append_assoc]
  rfl

/-- A tap that still reads: it holds back events of empty choices until one grows past the
cap, and all of them if none does. -/
theorem outputs_reads (chunks : List Utf8.Bytes) (hne : chunks ≠ []) {tap : UsageTap}
    (hsse : tap.sse = true) (hdrops : tap.drops = true) (hover : tap.isOver = false)
    (usage : Usage) :
    let events := streamEvents (tap.buffer ++ chunks.flatten)
    let out := (outputs F tap chunks usage).flatten
    (∃ k, out = passedUpTo F k events) ∧
      ((∀ event ∈ events, event.length ≤ usageEventCap) → out = passed F true events) := by
  -- induction on the chunks; what the tap holds moves from chunk to chunk
  induction chunks generalizing tap usage with
  | nil => exact absurd rfl hne
  | cons chunk chunks ih =>
    intro events out
    cases chunks with
    | nil =>
      have hout : out = passed F true events := by
        simp only [out, outputs, feed, hsse, if_true, feedSse_final hover hdrops,
          List.flatten_singleton, events]
      exact ⟨⟨events.length, by rw [hout, passedUpTo_length]⟩, fun _ => hout⟩
    | cons next chunks =>
      obtain ⟨hstep, htap⟩ := feedSse_open (F := F) hover hdrops chunk usage
      set d := drain readEventBytes (tap.buffer ++ chunk) with hd
      have hevents : events = d.1 ++ streamEvents (d.2 ++ (next :: chunks).flatten) := by
        rw [hd, ← streamEvents_append]
        simp only [events, List.flatten_cons, List.append_assoc]
      have hout : out = (feedSse F tap chunk false usage).1 ++
          (outputs F (feedSse F tap chunk false usage).2.1 (next :: chunks)
            (feedSse F tap chunk false usage).2.2).flatten := by
        simp only [out, outputs, feed, hsse, if_true, List.flatten_cons]
      rw [hstep, htap] at hout
      by_cases hcap : usageEventCap < d.2.length
      · -- the open event goes out, and everything behind it
        simp only [feedOver, hcap, if_true] at hout
        have hsse' : ({ tap with buffer := [], isOver := true } : UsageTap).sse = true := hsse
        rw [outputs_over _ hsse' rfl] at hout
        constructor
        · refine ⟨d.1.length + 0, ?_⟩
          rw [hevents, passedUpTo_append, hout]
          simp [passedUpTo, flatten_streamEvents]
        · intro hshort
          have hnone : readEventBytes d.2 = none :=
            drain_rest readEventBytes_stable.toProper _
          have hnil : d.2 ≠ [] := by
            intro hnil
            simp [hnil] at hcap
          obtain ⟨event, hmem, hlong⟩ := exists_long_event hnone hnil (next :: chunks).flatten
          have hle := hshort event (hevents ▸ List.mem_append_right _ hmem)
          omega
      · -- the open event stays in the buffer
        simp only [feedOver, hcap, if_false] at hout
        have hsse' : ({ tap with buffer := d.2, isOver := false } : UsageTap).sse = true := hsse
        obtain ⟨⟨k, hk⟩, hall⟩ := ih (List.cons_ne_nil next chunks) hsse' hdrops rfl
          (feedSse F tap chunk false usage).2.2
        constructor
        · refine ⟨d.1.length + k, ?_⟩
          rw [hevents, passedUpTo_append, hout, hk]
        · intro hshort
          rw [hevents, passed_append, hout, hall]
          intro event hmem
          exact hshort event (hevents ▸ List.mem_append_right _ hmem)

end

/-- **Bytes are conserved.** Whatever the stream and its cut, what goes out is the stream
without some whole events, each a chat event of empty choices; while no event exceeds the
cap, those are all such events of the stream, and the cut plays no part. -/
theorem outputs_conserved (F : Type) [Host F] (drop : Bool) (chunks : List Utf8.Bytes)
    (usage : Usage) :
    let events := streamEvents chunks.flatten
    let out := (outputs F (new true drop) chunks usage).flatten
    events.flatten = chunks.flatten ∧ (drop = false → out = chunks.flatten) ∧
      (∃ k, out = passed F drop (events.take k) ++ (events.drop k).flatten) ∧
      (∀ event, removes F drop event = true → EmptyChat F event) ∧
      ((∀ event ∈ events, event.length ≤ usageEventCap) → out = passed F drop events) := by
  intro events out
  have hevents : events.flatten = chunks.flatten := flatten_streamEvents _
  refine ⟨hevents, ?_, ?_⟩
  · rintro rfl
    exact outputs_pass chunks rfl usage
  cases drop with
  | false =>
    have hout : out = chunks.flatten := outputs_pass chunks rfl usage
    have hpassed : ∀ l, passed F false l = l.flatten := fun l => by simp [passed, removes]
    refine ⟨⟨0, ?_⟩, fun event => emptyChat_of_removes, ?_⟩
    · rw [hout, ← hevents]
      rfl
    · intro _
      rw [hout, hpassed, hevents]
  | true =>
    cases chunks with
    | nil => exact ⟨⟨0, rfl⟩, fun event => emptyChat_of_removes, fun _ => rfl⟩
    | cons chunk chunks =>
      obtain ⟨hsome, hall⟩ := outputs_reads (F := F) (chunk :: chunks) (List.cons_ne_nil _ _)
        (show (new true true).sse = true from rfl) rfl rfl usage
      exact ⟨hsome, fun event => emptyChat_of_removes, hall⟩

/-- A usage chunk cut in two, and an event behind it. -/
theorem outputs_conserved_usage :
    let chunks := ["data: \x7b\"choi", "ces\":[]\x7d\n\ndata: x\n", "\n"].map fun s => Unicode.utf8 s.toList
    let usageChunk := Unicode.utf8 "data: \x7b\"choices\":[]\x7d\n\n".toList
    let kept := Unicode.utf8 "data: x\n\n".toList
    streamEvents chunks.flatten = [usageChunk, kept] ∧
      (∀ event ∈ streamEvents chunks.flatten, event.length ≤ usageEventCap) ∧
      removes Literal true usageChunk = true ∧ EmptyChat Literal usageChunk ∧
      (outputs Literal (new true true) chunks ⟨none, none⟩).flatten = kept := by
  intro chunks usageChunk kept
  have hevents : streamEvents chunks.flatten = [usageChunk, kept] := by decide +kernel
  have hremoved : removes Literal true usageChunk = true := by decide +kernel
  have hkept : removes Literal true kept = false := by decide +kernel
  have hshort : ∀ event ∈ streamEvents chunks.flatten, event.length ≤ usageEventCap := by
    rw [hevents]
    decide +kernel
  obtain ⟨-, -, -, hempty, hall⟩ := outputs_conserved Literal true chunks ⟨none, none⟩
  refine ⟨hevents, hshort, hremoved, hempty _ hremoved, ?_⟩
  rw [hall hshort, hevents]
  simp [passed, hremoved, hkept]

end UsageTap

end CorpLlmGateway.RouteGate
