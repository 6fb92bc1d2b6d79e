import CorpLlmGateway.Sanitizer.BlockEvents

/-!
# Restoring the blocks of an Anthropic stream

The desanitizer keeps one `StreamingDesanitizer` for each open block of text or of tool
input. Blocks are interleaved, so that each of them is created, fed, flushed and dropped
by different events; seen from one block the stream is still a run of its own
desanitizer.

* `processEvent_stepped` — what one event does to the blocks and to what was sent;
* `feedList_tracks` — the same for a whole run;
* `blocks_restored` — the stream as the client sees it.
-/

namespace CorpLlmGateway.Sanitizer

open Json Framing PyStr Numerals StreamingDesanitizer

variable {F : Type}

/-! ## The blocks that are open -/

/-- The buffers after a stream: the open blocks that are restored have a desanitizer. -/
structure Shaped (mapping : List (Pair PyChar)) (front : List BlockEvent) (st : SseEvents F) : Prop where
  known : st.mapping = mapping
  chat : st.chat = .empty
  ready : st.Ready
  types : ∀ i, st.blockTypes.get? i = (openBlock front i).join
  live : ∀ i, (st.blockDesanitizers.get? i).isSome = (st.blockTypes.get? i).isSome

/-- A block is started; one of another kind leaves no trace. -/
def SseEvents.startBlock (st : SseEvents F) (j : ℤ) : Option BlockType → SseEvents F
  | none => st
  | some k =>
      { st with
        blockDesanitizers := st.blockDesanitizers.insert j (.new st.mapping k.escape)
        blockTypes := st.blockTypes.insert j k }

/-- A block is stopped. -/
def SseEvents.stopBlock (st : SseEvents F) (j : ℤ) : SseEvents F :=
  { st with
    blockDesanitizers := st.blockDesanitizers.erase j
    blockTypes := st.blockTypes.erase j }

/-- All blocks are cut off. -/
def SseEvents.cutOff (st : SseEvents F) : SseEvents F :=
  { st with blockDesanitizers := .empty, blockTypes := .empty, chat := .empty }

section Shaped

variable {mapping : List (Pair PyChar)} {front : List BlockEvent} {st : SseEvents F} {i j : ℤ}

theorem shaped_new (mapping : List (Pair PyChar)) : Shaped mapping [] (.new mapping : SseEvents F) where
  known := rfl
  chat := rfl
  ready := SseEvents.ready_new mapping
  types _ := rfl
  live _ := rfl

theorem Shaped.open_of_type (h : Shaped mapping front st) {k : BlockType}
    (hk : st.blockTypes.get? i = some k) : openBlock front i = some (some k) := by
  rw [h.types] at hk
  exact Option.join_eq_some_iff.mp hk

theorem Shaped.desanitizer (h : Shaped mapping front st) {k : BlockType}
    (hopen : openBlock front i = some (some k)) :
    ∃ d, st.blockDesanitizers.get? i = some d ∧ st.blockTypes.get? i = some k := by
  have htype : st.blockTypes.get? i = some k := by
    rw [h.types, hopen]
    rfl
  have hlive := h.live i
  rw [htype] at hlive
  obtain ⟨d, hd⟩ := Option.isSome_iff_exists.mp hlive
  exact ⟨d, hd, htype⟩

theorem Shaped.none (h : Shaped mapping front st) (hopen : (openBlock front i).join = none) :
    st.blockDesanitizers.get? i = none := by
  have hlive := h.live i
  rw [h.types, hopen] at hlive
  exact Option.not_isSome_iff_eq_none.mp (by simp [hlive])

/-- An event after which the same blocks are open. -/
theorem Shaped.skip (h : Shaped mapping front st) {e : BlockEvent}
    (he : ∀ i, openBlock (front ++ [e]) i = openBlock front i) : Shaped mapping (front ++ [e]) st :=
  { h with types := fun i => by rw [he, h.types] }

theorem Shaped.startBlock (h : Shaped mapping front st) (hj : ShortInt j)
    (hnew : ∀ kind, .start j kind ∉ front) (kind : Option BlockType) :
    Shaped mapping (front ++ [.start j kind]) (st.startBlock j kind) := by
  have hopen : ∀ i, openBlock (front ++ [.start j kind]) i =
      if j = i then some kind else openBlock front i := fun i => openBlock_concat front _ i
  cases kind with
  | none =>
    have hclosed : openBlock front j = .none := by
      cases hb : openBlock front j with
      | none => rfl
      | some kind => exact absurd (started_of_open hb) (hnew kind)
    refine { h with types := fun i => ?_ }
    rw [SseEvents.startBlock, hopen, h.types]
    split
    · next hij =>
      rw [← hij, hclosed]
      rfl
    · rfl
  | some k =>
    refine ⟨h.known, h.chat, h.ready.insertBlock hj rfl _, fun i => ?_, fun i => ?_⟩
    · rw [hopen, SseEvents.startBlock, Dict.get?_insert, h.types]
      by_cases hij : j = i
      · simp [hij]
      · simp [hij, Ne.symm hij]
    · rw [SseEvents.startBlock, Dict.get?_insert, Dict.get?_insert]
      split
      · rfl
      · exact h.live i

/-- The desanitizer of an open block is replaced. -/
theorem Shaped.feedBlock (h : Shaped mapping front st) {d d' : StreamingDesanitizer PyChar}
    (hd : st.blockDesanitizers.get? j = some d) (hlive : d'.flushed = false) :
    Shaped mapping front { st with blockDesanitizers := st.blockDesanitizers.insert j d' } := by
  refine ⟨h.known, h.chat, ?_, h.types, fun i => ?_⟩
  · exact h.ready.insertBlock (h.ready.blocks j d hd).1 hlive st.blockTypes
  · rw [Dict.get?_insert, ← h.live i]
    by_cases hij : i = j
    · simp [hij, hd]
    · simp [hij]

theorem Shaped.stopBlock (h : Shaped mapping front st) :
    Shaped mapping (front ++ [.stop j]) (st.stopBlock j) := by
  refine ⟨h.known, h.chat, h.ready.eraseBlock j _, fun i => ?_, fun i => ?_⟩
  · rw [openBlock_concat, SseEvents.stopBlock, Dict.get?_erase, h.types]
    by_cases hij : j = i
    · simp [openStep, hij]
    · simp [openStep, hij, Ne.symm hij]
  · rw [SseEvents.stopBlock, Dict.get?_erase, Dict.get?_erase]
    split
    · rfl
    · exact h.live i

theorem Shaped.cutOff (h : Shaped mapping front st) :
    Shaped mapping (front ++ [.error]) st.cutOff := by
  refine ⟨h.known, rfl, ⟨by simp [SseEvents.cutOff], h.ready.info, by simp [SseEvents.cutOff]⟩,
    fun i => ?_, fun _ => rfl⟩
  rw [openBlock_concat]
  rfl

/-- The kind of a block that is restored. -/
theorem Shaped.kind (h : Shaped mapping front st) {all : List BlockEvent} (hall : BlockStream all) (hsub : front ⊆ all)
    {k : BlockType} (hstart : .start i (some k) ∈ all) (k' : BlockType)
    (hk : st.blockTypes.get? i = some k') : k' = k := by
  have hsame := hall.once (hsub (started_of_open (h.open_of_type hk))) hstart
  cases hsame
  rfl

end Shaped

/-! ## Tails -/

section Tails

variable [Host F] {mapping : List (Pair PyChar)} {front all : List BlockEvent} {st : SseEvents F}

/-- The event of a tail: a delta of a block that is open. -/
def IsTail (F : Type) [Host F] (front : List BlockEvent) (event : PyStr) : Prop :=
  ∃ i k text, sentDelta F event = some (i, k, text) ∧ openBlock front i = some (some k)

theorem IsTail.not_passes {event : PyStr} (h : IsTail F front event) (hsub : front ⊆ all) :
    passes F all event = false := by
  obtain ⟨i, k, text, hsent, hopen⟩ := h
  exact passes_of_started hsent (hsub (started_of_open hopen))

theorem filter_tails {tails : List PyStr} (h : ∀ t ∈ tails, IsTail F front t) (hsub : front ⊆ all) :
    tails.filter (passes F all) = [] := by
  rw [List.filter_eq_nil_iff]
  intro t ht
  simp [(h t ht).not_passes hsub]

theorem blockTails_spec (h : Shaped mapping front st) {blocks : List (ℤ × StreamingDesanitizer PyChar)}
    (hblocks : ∀ e ∈ blocks, e.1 ∈ st.blockDesanitizers.keys) :
    ∃ tails, st.blockTails blocks = .ok tails ∧ (∀ t ∈ tails, IsTail F front t) ∧
      ∀ i k, (∀ k', st.blockTypes.get? i = some k' → k' = k) →
        sentText F i k tails = blocks.flatMap fun e => if e.1 = i then e.2.flush.1 else [] := by
  induction blocks with
  | nil => exact ⟨[], rfl, by simp, fun i k _ => rfl⟩
  | cons e blocks ih =>
    obtain ⟨he, hblocks⟩ := List.forall_mem_cons.mp hblocks
    obtain ⟨tails, htails, hopen, htext⟩ := ih hblocks
    obtain ⟨d, hd⟩ := Option.isSome_iff_exists.mp (Dict.mem_keys.mp he)
    have hlive := h.live e.1
    rw [hd] at hlive
    obtain ⟨ke, hke⟩ := Option.isSome_iff_exists.mp hlive.symm
    obtain ⟨s, hs, hread⟩ :=
      sentDelta_makeDeltaEvent (F := F) ke (h.ready.blocks e.1 d hd).1 e.2.flush.1
    have hsent := hread "\n\n".py (by simp [boundaries])
    simp only [SseEvents.blockTails, htails, hke, Option.getD_some, hs, bind, Except.bind]
    split
    · next hempty =>
      -- nothing is held for this block
      refine ⟨tails, rfl, hopen, fun i k hk => ?_⟩
      rw [htext i k hk, List.flatMap_cons, List.isEmpty_iff.mp hempty, ite_self, List.nil_append]
    · refine ⟨_, rfl, ?_, fun i k hk => ?_⟩
      · intro t ht
        rcases List.mem_cons.mp ht with rfl | ht
        · exact ⟨e.1, ke, e.2.flush.1, hsent, h.open_of_type hke⟩
        · exact hopen t ht
      · rw [sentText_cons, textFor_of_some hsent, htext i k hk, List.flatMap_cons]
        congr 1
        by_cases hi : e.1 = i
        · rw [if_pos ⟨hi, hk ke (hi ▸ hke)⟩, if_pos hi]
        · rw [if_neg (fun hand => hi hand.1), if_neg hi]

/-- **What is held goes out**: the tails of all open blocks, each in a delta of its own kind. -/
theorem heldTails_spec (h : Shaped mapping front st) :
    ∃ tails, st.heldTails = .ok (tails, st.cutOff) ∧ (∀ t ∈ tails, IsTail F front t) ∧
      ∀ i k, (∀ k', st.blockTypes.get? i = some k' → k' = k) →
        sentText F i k tails = heldText (st.blockDesanitizers.get? i) := by
  have hkeys : ∀ e ∈ st.blockDesanitizers.entries, e.1 ∈ st.blockDesanitizers.keys :=
    fun e he => List.mem_map_of_mem he
  obtain ⟨tails, htails, hopen, htext⟩ := blockTails_spec h hkeys
  refine ⟨tails, ?_, hopen, fun i k hk => ?_⟩
  · simp only [SseEvents.heldTails, htails, h.chat, bind, Except.bind]
    have hnone : (Dict.empty : Dict ℤ ChatChoice).keys.insertionSort (· ≤ ·) = [] := rfl
    rw [hnone]
    simp [SseEvents.chatTails, SseEvents.cutOff]
  · have hentries := Dict.flatMap_lookup st.blockDesanitizers.nodup i
      fun d : StreamingDesanitizer PyChar => d.flush.1
    rw [htext i k hk, hentries, heldText, Dict.get?]
    cases st.blockDesanitizers.entries.lookup i with
    | none => rfl
    | some d => rfl

end Tails

/-! ## One event -/

/-- An event that ends blocks. -/
def BlockEvent.Ends (i : ℤ) (e : BlockEvent) : Prop := e = .stop i ∨ e = .error

/-- What an event does in a stream `all`, behind the events `front` of it: each block that
is restored moves, all other events pass, and held text goes out before the end of a block. -/
structure Stepped [Host F] (mapping : List (Pair PyChar)) (all front : List BlockEvent) (st : SseEvents F)
    (event : PyStr) (e : BlockEvent) (out : List PyStr) (st' : SseEvents F) : Prop where
  shaped : Shaped mapping (front ++ [e]) st'
  moved : ∀ i k, .start i (some k) ∈ all →
    BlockMove mapping i k (st.blockDesanitizers.get? i) e (sentText F i k out)
      (st'.blockDesanitizers.get? i)
  passed : out.filter (passes F all) = [event].filter (passes F all)
  ends : ∀ i, e.Ends i → ∃ tails, out = tails ++ [event] ∧ ∀ t ∈ tails, IsTail F front t

section Steps

variable [Host F] {mapping : List (Pair PyChar)} {front back all : List BlockEvent} {st : SseEvents F}
  {event : PyStr}

/-- Tails in front of an event. -/
theorem filter_tails_append {tails : List PyStr} (h : ∀ t ∈ tails, IsTail F front t)
    (hsub : front ⊆ all) :
    (tails ++ [event]).filter (passes F all) = [event].filter (passes F all) := by
  rw [List.filter_append, filter_tails h hsub, List.nil_append]

/-- An event that says nothing about blocks. -/
theorem stepped_other (h : Shaped mapping front st) (hsent : sentDelta F event = none) :
    Stepped mapping all front st event .other [event] st where
  shaped := h.skip fun i => openBlock_concat front _ i
  moved i k _ := by
    rw [sentText_cons, textFor_of_none hsent]
    exact .elsewhere rfl (by simp)
  passed := rfl
  ends i hend := by simp [BlockEvent.Ends] at hend

/-- An error cuts off all blocks. -/
theorem stepped_error (h : Shaped mapping front st) (hall : BlockStream all) (hsub : front ⊆ all)
    (hsent : sentDelta F event = none) :
    ∃ out, st.endStream event = .ok (out, st.cutOff) ∧
      Stepped mapping all front st event .error out st.cutOff := by
  obtain ⟨tails, htails, hopen, htext⟩ := heldTails_spec h
  refine ⟨tails ++ [event], ?_, h.cutOff, fun i k hstart => ?_, filter_tails_append hopen hsub,
    fun i _ => ⟨tails, rfl, hopen⟩⟩
  · simp only [SseEvents.endStream, htails, bind, Except.bind]
  · rw [sentText_append, htext i k (h.kind hall hsub hstart), sentText_cons, textFor_of_none hsent,
      sentText_nil, List.append_nil, List.append_nil]
    exact BlockMove.error

/-- The index of a well-formed event. -/
theorem blockIndex_int {fields : Fields F} {j : ℤ} (hfields : Json.Ok (.obj fields))
    (hindex : fields.get? "index".py = some (.int j)) :
    SseEvents.blockIndex fields = .ok j ∧ ShortInt j := by
  constructor
  · rw [SseEvents.blockIndex, getD, hindex]
    rfl
  · cases hfields.get? hindex with
    | int hj => exact hj

theorem processBlockStart_eq {fields block : Fields F} {j : ℤ} (hfields : Json.Ok (.obj fields))
    (hindex : fields.get? "index".py = some (.int j))
    (hblock : fields.get? "content_block".py = some (.obj block)) :
    st.processBlockStart event fields =
      .ok ([event], st.startBlock j (BlockType.ofBlock block)) := by
  have hobject : objectOr (some (.obj block)) = some block := rfl
  have hindex := (blockIndex_int hfields hindex).1
  unfold SseEvents.processBlockStart BlockType.ofBlock
  cases htype : block.get? "type".py with
  | none => simp only [hblock, hobject, hindex, htype, bind, Except.bind, SseEvents.startBlock]
  | some v =>
    cases v with
    | str t =>
      simp only [hblock, hobject, hindex, htype, bind, Except.bind]
      split_ifs
      · rfl
      · rfl
      · rfl
    | _ => simp only [hblock, hobject, hindex, htype, bind, Except.bind, SseEvents.startBlock]

theorem processFields_delta {fields d : Fields F} {k : BlockType}
    (htype : fields.get? "type".py = some (.str "content_block_delta".py))
    (hdelta : fields.get? "delta".py = some (.obj d))
    (hkind : d.get? "type".py = some (.str k.deltaType)) :
    st.processFields event fields = st.processBlockDelta event fields d k.textKey := by
  have hobject : objectOr (some (.obj d)) = some d := rfl
  simp only [SseEvents.processFields, htype, if_neg delta_ne_start, if_true, hdelta, hobject, hkind]
  cases k with
  | text => exact if_pos rfl
  | toolUse =>
    have htext : BlockType.toolUse.deltaType ≠ "text_delta".py := by
      simp [-String.py_eq, String.py_inj, BlockType.deltaType]
    rw [if_neg htext]
    exact if_pos rfl

/-- A block is started. -/
theorem stepped_start (h : Shaped mapping front st) (hall : BlockStream all) {j : ℤ}
    {kind : Option BlockType} (hj : ShortInt j) (hmem : .start j kind ∈ all)
    (hnew : ∀ kind', .start j kind' ∉ front) (hsent : sentDelta F event = none) :
    Stepped mapping all front st event (.start j kind) [event] (st.startBlock j kind) where
  shaped := h.startBlock hj hnew kind
  moved i k hstart := by
    rw [sentText_cons, textFor_of_none hsent, sentText_nil, List.append_nil]
    by_cases hij : j = i
    · subst hij
      cases hall.once hmem hstart
      have hclosed : (openBlock front j).join = none := by
        cases hb : openBlock front j with
        | none => rfl
        | some kind' => exact absurd (started_of_open hb) (hnew kind')
      have hinsert : (st.startBlock j (some k)).blockDesanitizers.get? j =
          some (.new mapping k.escape) := by
        rw [SseEvents.startBlock, Dict.get?_insert, if_pos (beq_self_eq_true j), h.known]
      rw [h.none hclosed, hinsert]
      exact .start
    · have hsame : (st.startBlock j kind).blockDesanitizers.get? i =
          st.blockDesanitizers.get? i := by
        cases kind with
        | none => rfl
        | some k' => simp [SseEvents.startBlock, Dict.get?_insert, Ne.symm hij]
      rw [hsame]
      refine .elsewhere rfl fun kind' heq => ?_
      cases heq
      exact hij rfl
  passed := rfl
  ends i hend := by simp [BlockEvent.Ends] at hend

/-- A delta of an open block that is restored: what the desanitizer gives goes out in its
place. -/
theorem stepped_feed (h : Shaped mapping front st) (hall : BlockStream all) (hsub : front ⊆ all)
    {j : ℤ} {k : BlockType} {text out : PyStr} {d d' : StreamingDesanitizer PyChar}
    (hopen : openBlock front j = some (some k)) (hd : st.blockDesanitizers.get? j = some d)
    (hfeed : d.feed text = .ok (out, d')) (hlive : d'.flushed = false)
    (hsent : sentDelta F event = some (j, k, text)) {outs : List PyStr}
    (hcut : outs.filter (passes F all) = [])
    (hout : ∀ i k', sentText F i k' outs = if j = i ∧ k = k' then out else []) :
    Stepped mapping all front st event (.delta j k text) outs
      { st with blockDesanitizers := st.blockDesanitizers.insert j d' } where
  shaped := (h.feedBlock hd hlive).skip fun i => openBlock_concat front _ i
  moved i k' hstart := by
    rw [hout, Dict.get?_insert]
    by_cases hij : j = i
    · subst hij
      cases hall.once (hsub (started_of_open hopen)) hstart
      rw [if_pos ⟨rfl, rfl⟩, if_pos (beq_self_eq_true j), hd]
      exact .delta hfeed
    · rw [if_neg fun hand => hij hand.1, if_neg (by simpa using Ne.symm hij)]
      exact .elsewhere (if_neg hij) (by simp)
  passed := by
    have hevent := passes_of_started hsent (hsub (started_of_open hopen))
    rw [hcut, List.filter_cons_of_neg (by simp [hevent]), List.filter_nil]
  ends i hend := by simp [BlockEvent.Ends] at hend

/-- A delta of an open block that is not restored passes. -/
theorem stepped_pass (h : Shaped mapping front st) (hall : BlockStream all) (hsub : front ⊆ all)
    {j : ℤ} {k : BlockType} {text : PyStr} (hopen : openBlock front j = some none)
    (hsent : sentDelta F event = some (j, k, text)) :
    Stepped mapping all front st event (.delta j k text) [event] st where
  shaped := h.skip fun i => openBlock_concat front _ i
  moved i k' hstart := by
    have hij : j ≠ i := by
      rintro rfl
      cases hall.once (hsub (started_of_open hopen)) hstart
    rw [sentText_cons, textFor_of_some hsent, if_neg fun hand => hij hand.1]
    exact .elsewhere (if_neg hij) (by simp)
  passed := rfl
  ends i hend := by simp [BlockEvent.Ends] at hend

/-- A delta. -/
theorem stepped_delta (h : Shaped mapping front st) (hall : BlockStream all) (hsub : front ⊆ all)
    {line : PyStr} (hline : OneData event line) {fields d : Fields F} {j : ℤ} {k : BlockType}
    {text : PyStr} (hfields : Json.Ok (.obj fields))
    (herror : isStreamErrorEvent (.obj fields) = false)
    (htype : fields.get? "type".py = some (.str "content_block_delta".py))
    (hindex : fields.get? "index".py = some (.int j))
    (hdelta : fields.get? "delta".py = some (.obj d))
    (hkind : d.get? "type".py = some (.str k.deltaType))
    (htext : d.get? k.textKey = some (.str text)) (hnext : Follows front (.delta j k text))
    (hsent : sentDelta F event = some (j, k, text)) :
    ∃ out st', st.processBlockDelta event fields d k.textKey = .ok (out, st') ∧
      Stepped mapping all front st event (.delta j k text) out st' := by
  have hget : getD d k.textKey (.str []) = .str text := by
    rw [getD, htext]
    rfl
  unfold SseEvents.processBlockDelta
  simp only [(blockIndex_int hfields hindex).1, hget, bind, Except.bind]
  rcases hnext with hopen | hopen
  · obtain ⟨ds, hds, -⟩ := h.desanitizer hopen
    obtain ⟨out, ds', hfeed, hlive⟩ := feed_of_live (h.ready.blocks j ds hds).2 text
    obtain ⟨data, hdata, hread⟩ :=
      sentDelta_rebuildEvent hline hfields herror htype hindex hdelta hkind out
    have hfeedText : ds.feedText text = .ok (out, ds') := by
      rw [feedText, hfeed]
      rfl
    simp only [hds, hfeedText, hdata]
    split
    · next hempty =>
      refine ⟨_, _, rfl, stepped_feed h hall hsub hopen hds hfeed hlive hsent rfl fun i k' => ?_⟩
      rw [List.isEmpty_iff.mp hempty, ite_self, sentText_nil]
    · refine ⟨_, _, rfl, stepped_feed h hall hsub hopen hds hfeed hlive hsent ?_ fun i k' => ?_⟩
      · have hcut := passes_of_started hread (hsub (started_of_open hopen))
        rw [List.filter_cons_of_neg (by simp [hcut]), List.filter_nil]
      · rw [sentText_cons, textFor_of_some hread, sentText_nil, List.append_nil]
  · have hnone := h.none (i := j) (by rw [hopen]; rfl)
    simp only [hnone]
    exact ⟨_, _, rfl, stepped_pass h hall hsub hopen hsent⟩

/-- A block is stopped: first goes what it holds, then the event. -/
theorem stepped_stop (h : Shaped mapping front st) (hall : BlockStream all) (hsub : front ⊆ all)
    {fields : Fields F} {j : ℤ} (hfields : Json.Ok (.obj fields))
    (hindex : fields.get? "index".py = some (.int j)) (hsent : sentDelta F event = none) :
    ∃ out, st.processBlockStop event fields = .ok (out, st.stopBlock j) ∧
      Stepped mapping all front st event (.stop j) out (st.stopBlock j) := by
  have htails : ∃ tails, st.processBlockStop event fields = .ok (tails ++ [event], st.stopBlock j) ∧
      (∀ t ∈ tails, IsTail F front t) ∧
      ∀ i k, (∀ k', st.blockTypes.get? i = some k' → k' = k) →
        sentText F i k tails = if j = i then heldText (st.blockDesanitizers.get? j) else [] := by
    unfold SseEvents.processBlockStop
    simp only [(blockIndex_int hfields hindex).1, bind, Except.bind]
    cases hd : st.blockDesanitizers.get? j with
    | none => exact ⟨[], rfl, by simp, fun i k _ => (ite_self _).symm⟩
    | some d =>
      have hlive := h.live j
      rw [hd] at hlive
      obtain ⟨kj, hkj⟩ := Option.isSome_iff_exists.mp hlive.symm
      obtain ⟨s, hs, hread⟩ :=
        sentDelta_makeDeltaEvent (F := F) kj (h.ready.blocks j d hd).1 d.flush.1
      have htail := hread _ (boundaryFrom_mem event)
      simp only [hkj, Option.getD_some, hs]
      split
      · next hempty =>
        refine ⟨[], rfl, by simp, fun i k _ => ?_⟩
        rw [heldText, Option.elim_some, List.isEmpty_iff.mp hempty, ite_self, sentText_nil]
      · refine ⟨[s ++ boundaryFrom event], rfl, ?_, fun i k hk => ?_⟩
        · rw [List.forall_mem_singleton]
          exact ⟨j, kj, d.flush.1, htail, h.open_of_type hkj⟩
        · rw [sentText_cons, textFor_of_some htail, sentText_nil, List.append_nil, heldText,
            Option.elim_some]
          by_cases hij : j = i
          · rw [if_pos ⟨hij, hk kj (hij ▸ hkj)⟩, if_pos hij]
          · rw [if_neg fun hand => hij hand.1, if_neg hij]
  obtain ⟨tails, hstop, hopen, htext⟩ := htails
  refine ⟨tails ++ [event], hstop, h.stopBlock, fun i k hstart => ?_, filter_tails_append hopen hsub,
    fun i _ => ⟨tails, rfl, hopen⟩⟩
  rw [sentText_append, htext i k (h.kind hall hsub hstart), sentText_cons, textFor_of_none hsent,
    sentText_nil, List.append_nil, List.append_nil, SseEvents.stopBlock, Dict.get?_erase]
  by_cases hij : j = i
  · subst hij
    rw [if_pos rfl, if_pos (beq_self_eq_true j)]
    exact .stop
  · rw [if_neg hij, if_neg (by simpa using Ne.symm hij)]
    exact .elsewhere rfl (by simp)

/-- **One event**: it is handled, and each block moves. -/
theorem processEvent_stepped {e : BlockEvent} (h : Shaped mapping front st)
    (hevent : AnthropicEvent F event e) (hall : BlockStream (front ++ e :: back)) :
    ∃ out st', st.processEvent event = .ok (out, st') ∧
      Stepped mapping (front ++ e :: back) front st event e out st' := by
  have hsub : front ⊆ front ++ e :: back := List.subset_append_left _ _
  have hmem : e ∈ front ++ e :: back := List.mem_append_right _ List.mem_cons_self
  have hnext := hall front e back rfl
  have hsent := hevent.sentDelta_eq
  rcases hevent.processEvent_eq with ⟨rfl, hprocess⟩ | ⟨rfl, hprocess⟩ |
      ⟨fields, hfields, herror, hreads, hprocess⟩
  · obtain ⟨out, hout, hstep⟩ := stepped_error h hall hsub hsent
    exact ⟨out, st.cutOff, (hprocess st).trans hout, hstep⟩
  · exact ⟨[event], st, hprocess st, stepped_other h hsent⟩
  · rw [hprocess]
    cases hreads with
    | start htype hindex hblock =>
      simp only [SseEvents.processFields, htype, if_true, processBlockStart_eq hfields hindex hblock]
      exact ⟨_, _, rfl, stepped_start h hall (blockIndex_int hfields hindex).2 hmem hnext hsent⟩
    | delta htype hindex hdelta hkind htext =>
      obtain ⟨line, -, hline, -⟩ := hevent.parsed
      obtain ⟨out, st', hout, hstep⟩ := stepped_delta h hall hsub hline hfields herror htype hindex
        hdelta hkind htext hnext hsent
      exact ⟨out, st', (processFields_delta htype hdelta hkind).trans hout, hstep⟩
    | stop htype hindex =>
      obtain ⟨out, hout, hstep⟩ := stepped_stop h hall hsub hfields hindex hsent
      refine ⟨out, st.stopBlock _, ?_, hstep⟩
      have hstart : "content_block_stop".py ≠ "content_block_start".py := by
        simp [-String.py_eq, String.py_inj]
      have hdelta : "content_block_stop".py ≠ "content_block_delta".py := by
        simp [-String.py_eq, String.py_inj]
      simp only [SseEvents.processFields, htype, if_neg hstart, if_neg hdelta, if_true]
      exact hout
    | other hother => exact ⟨[event], st, hother st event, stepped_other h hsent⟩

end Steps

/-! ## Runs -/

/-- The state of a stream `all` behind the events `front` of it, whose texts are `texts`:
what was sent is what the open and the closed blocks have said, and the other events. -/
structure Tracks [Host F] (mapping : List (Pair PyChar)) (all front : List BlockEvent)
    (texts sent : List PyStr) (st : SseEvents F) : Prop where
  shaped : Shaped mapping front st
  spoken : ∀ i k, .start i (some k) ∈ all →
    Spoken mapping i k front (sentText F i k sent) (st.blockDesanitizers.get? i)
  passed : sent.filter (passes F all) = texts.filter (passes F all)

section Runs

variable [Host F] {mapping : List (Pair PyChar)} {all front : List BlockEvent}
  {texts sent : List PyStr} {st : SseEvents F}

theorem tracks_new (mapping : List (Pair PyChar)) (all : List BlockEvent) :
    Tracks mapping all [] [] [] (.new mapping : SseEvents F) where
  shaped := shaped_new mapping
  spoken _ _ _ := Or.inr ⟨List.not_mem_nil, rfl, rfl⟩
  passed := rfl

/-- **A step keeps track**: every block has said what its desanitizer says. -/
theorem Tracks.step (h : Tracks mapping all front texts sent st) {event : PyStr} {e : BlockEvent}
    {out : List PyStr} {st' : SseEvents F} (hstep : Stepped mapping all front st event e out st')
    (hnext : Follows front e) :
    Tracks mapping all (front ++ [e]) (texts ++ [event]) (sent ++ out) st' where
  shaped := hstep.shaped
  spoken i k hstart := by
    rw [sentText_append]
    exact (h.spoken i k hstart).move (hstep.moved i k hstart) hnext
  passed := by rw [List.filter_append, List.filter_append, h.passed, hstep.passed]

/-- **A run keeps track.** -/
theorem feedList_tracks (h : Tracks mapping all front texts sent st)
    {events : List (PyStr × BlockEvent)} (hevents : ∀ p ∈ events, AnthropicEvent F p.1 p.2)
    (hall : BlockStream all) {back : List BlockEvent}
    (hsplit : all = front ++ events.map Prod.snd ++ back) :
    ∃ out st', feedList SseEvents.processEvent st (events.map Prod.fst) = .ok (out, st') ∧
      Tracks mapping all (front ++ events.map Prod.snd) (texts ++ events.map Prod.fst)
        (sent ++ out) st' := by
  induction events generalizing front texts sent st with
  | nil => exact ⟨[], st, rfl, by simpa using h⟩
  | cons p events ih =>
    obtain ⟨hp, hevents⟩ := List.forall_mem_cons.mp hevents
    have hnext : all = front ++ p.2 :: (events.map Prod.snd ++ back) := by
      rw [hsplit]
      simp
    obtain ⟨out, st₁, hout, hstep⟩ := processEvent_stepped h.shaped hp (hnext ▸ hall)
    rw [← hnext] at hstep
    have htracks := h.step hstep (hall front p.2 _ hnext)
    have hrest : all = front ++ [p.2] ++ events.map Prod.snd ++ back := by
      rw [hsplit]
      simp
    obtain ⟨outs, st₂, houts, htracks⟩ := ih htracks hevents hrest
    refine ⟨out ++ outs, st₂, ?_, by simpa using htracks⟩
    simp only [List.map_cons, feedList, hout, houts, bind, Except.bind]

/-- A block that is closed has said everything. -/
theorem Tracks.said (h : Tracks mapping all front texts sent st) {i : ℤ} {k : BlockType}
    (hmem : .start i (some k) ∈ all) (hstart : .start i (some k) ∈ front)
    (hclosed : st.blockDesanitizers.get? i = none) :
    (StreamingDesanitizer.new mapping k.escape).stream (inputs front i) =
      .ok (sentText F i k sent) := by
  have hspoken := h.spoken i k hmem
  rw [hclosed] at hspoken
  rcases hspoken with ⟨-, hstream⟩ | ⟨hnot, -⟩
  · exact hstream
  · exact absurd hstart hnot

end Runs

/-! ## The stream as the client sees it -/

/-- What a client gets for a stream of events. -/
structure BlocksRestored (F : Type) [Host F] (mapping : List (Pair PyChar))
    (events : List (PyStr × BlockEvent)) (sent : List PyStr) : Prop where
  /-- The deltas of a block are the outputs of one desanitizer that is fed with its input
  deltas and flushed. -/
  text : ∀ i k, .start i (some k) ∈ events.map Prod.snd →
    (StreamingDesanitizer.new mapping k.escape).stream (inputs (events.map Prod.snd) i) =
      .ok (sentText F i k sent)
  /-- All other events are sent as they are, in their order. -/
  passed : sent.filter (passes F (events.map Prod.snd)) =
    (events.map Prod.fst).filter (passes F (events.map Prod.snd))
  /-- All text of a block goes out before the event that stops it or cuts it off. -/
  ends : ∀ i k front event e back, events = front ++ (event, e) :: back → e.Ends i →
    .start i (some k) ∈ front.map Prod.snd →
    ∃ before after, sent = before ++ event :: after ∧
      before.filter (passes F (events.map Prod.snd)) =
        (front.map Prod.fst).filter (passes F (events.map Prod.snd)) ∧
      (StreamingDesanitizer.new mapping k.escape).stream (inputs (events.map Prod.snd) i) =
        .ok (sentText F i k before)

/-- The start of a block. -/
def blockStart (kind : PyStr) (index : ℤ) : Json Literal :=
  .obj [("type".py, .str "content_block_start".py), ("index".py, .int index),
    ("content_block".py, .obj [("type".py, .str kind)])]

section Client

variable [Host F] {mapping : List (Pair PyChar)}

/-- The end of a block in a run: what was sent before it is all that the block says. -/
theorem ends_of_run {all : List BlockEvent} (hall : BlockStream all)
    {front back : List (PyStr × BlockEvent)} {event : PyStr} {e : BlockEvent}
    (hsplit : all = front.map Prod.snd ++ e :: back.map Prod.snd)
    (hfront : ∀ p ∈ front, AnthropicEvent F p.1 p.2) (hevent : AnthropicEvent F event e)
    (hback : ∀ p ∈ back, AnthropicEvent F p.1 p.2) {i : ℤ} {k : BlockType} (hend : e.Ends i)
    (hstart : .start i (some k) ∈ front.map Prod.snd) :
    ∃ before after st,
      feedList SseEvents.processEvent (.new mapping : SseEvents F)
        (front.map Prod.fst ++ event :: back.map Prod.fst) = .ok (before ++ event :: after, st) ∧
      before.filter (passes F all) = (front.map Prod.fst).filter (passes F all) ∧
      (StreamingDesanitizer.new mapping k.escape).stream (inputs all i) =
        .ok (sentText F i k before) := by
  have hsub : front.map Prod.snd ⊆ all := by
    rw [hsplit]
    exact List.subset_append_left _ _
  have hclosed : openBlock (front.map Prod.snd ++ [e]) i = none := by
    rw [openBlock_concat]
    rcases hend with rfl | rfl
    · exact if_pos rfl
    · rfl
  have hsent : sentDelta F event = none := by
    rw [hevent.sentDelta_eq]
    rcases hend with rfl | rfl
    · rfl
    · rfl
  have hstart' : .start i (some k) ∈ front.map Prod.snd ++ [e] := List.mem_append_left _ hstart
  -- the events before the end, the end, and the events after it
  have hfirst : all = [] ++ front.map Prod.snd ++ e :: back.map Prod.snd := hsplit
  obtain ⟨sent, st₁, hrun, htracks⟩ :=
    feedList_tracks (tracks_new (F := F) mapping all) hfront hall hfirst
  rw [List.nil_append, List.nil_append, List.nil_append] at htracks
  obtain ⟨out, st₂, hout, hstep⟩ := processEvent_stepped htracks.shaped hevent (hsplit ▸ hall)
  rw [← hsplit] at hstep
  have htracks₂ := htracks.step hstep (hall _ _ _ hsplit)
  have hrest : all = front.map Prod.snd ++ [e] ++ back.map Prod.snd ++ [] := by
    rw [hsplit]
    simp
  obtain ⟨outs, st₃, houts, -⟩ := feedList_tracks htracks₂ hback hall hrest
  obtain ⟨tails, rfl, hopen⟩ := hstep.ends i hend
  have hinputs : inputs all i = inputs (front.map Prod.snd ++ [e]) i := by
    rw [List.append_nil] at hrest
    rw [hrest] at hall ⊢
    exact (hall.closed hstart' hclosed).2
  have hsaid := htracks₂.said (hsub hstart) hstart' (hstep.shaped.none (by rw [hclosed]; rfl))
  rw [sentText_append, sentText_append, sentText_cons, textFor_of_none hsent, sentText_nil,
    List.append_nil, List.append_nil, ← sentText_append, ← hinputs] at hsaid
  refine ⟨sent ++ tails, outs, st₃, ?_, ?_, hsaid⟩
  · rw [feedList_append, hrun]
    simp only [Except.bind, feedList, hout, houts, bind, Except.map]
    simp
  · rw [List.filter_append, filter_tails hopen hsub, List.append_nil, htracks.passed]

/-- **Blocks are restored one by one**: whatever pieces the text of a well-formed stream is
cut into, what goes out for each block of text or tool input is what one desanitizer of its
own makes of its deltas; it goes out before the block ends, and everything else passes. -/
theorem blocks_restored (mapping : List (Pair PyChar)) {events : List (PyStr × BlockEvent)}
    (hevents : ∀ p ∈ events, AnthropicEvent F p.1 p.2) (hstream : BlockStream (events.map Prod.snd))
    {chunks : List PyStr} (hcut : chunks.flatten = (events.map Prod.fst).flatten) :
    ∃ sent tails d d',
      feedList SseStreamDesanitizer.feed (SseStreamDesanitizer.new mapping : SseStreamDesanitizer F)
        (chunks.map .str) = .ok (sent.map .str, d) ∧
      d.flush = .ok (tails.map .str, d') ∧ BlocksRestored F mapping events (sent ++ tails) := by
  have hcomplete : ∀ event ∈ events.map Prod.fst, SseStreamDesanitizer.CompleteEvent event := by
    intro event hmem
    obtain ⟨p, hp, rfl⟩ := List.mem_map.mp hmem
    exact (hevents p hp).complete
  obtain ⟨source, hsource, hfeed⟩ :=
    SseStreamDesanitizer.feedList_cut (F := F) mapping hcomplete hcut
  have hwhole : events.map Prod.snd = [] ++ events.map Prod.snd ++ [] := by simp
  obtain ⟨sent, st, hrun, htracks⟩ :=
    feedList_tracks (tracks_new (F := F) mapping _) hevents hstream hwhole
  rw [List.nil_append, List.nil_append, List.nil_append] at htracks
  obtain ⟨tails, htails, hopen, htext⟩ := heldTails_spec htracks.shaped
  refine ⟨sent, tails, .atRest source st, .atRest source st.cutOff, ?_, ?_, ?_, ?_, ?_⟩
  · rw [hfeed, hrun]
    rfl
  · rw [SseStreamDesanitizer.flush_atRest hsource, htails]
    rfl
  · intro i k hstart
    have hspoken := (htracks.spoken i k hstart).flush
    rw [← htext i k (htracks.shaped.kind hstream (List.Subset.refl _) hstart),
      ← sentText_append] at hspoken
    rcases hspoken with ⟨-, hsaid⟩ | ⟨hnot, -⟩
    · exact hsaid
    · exact absurd hstart hnot
  · rw [List.filter_append, filter_tails hopen (List.Subset.refl _), List.append_nil,
      htracks.passed]
  · rintro i k front event e back rfl hend hstart
    have hsplit : (front ++ (event, e) :: back).map Prod.snd =
        front.map Prod.snd ++ e :: back.map Prod.snd := by simp
    obtain ⟨before, after, st', hrun', hfilter, hsaid⟩ := ends_of_run hstream hsplit
      (fun p hp => hevents p (List.mem_append_left _ hp)) (hevents (event, e) (by simp))
      (fun p hp => hevents p (by simp [hp])) hend hstart
    rw [List.map_append, List.map_cons, hrun'] at hrun
    cases hrun
    exact ⟨before, after ++ tails, by simp, hfilter, hsaid⟩

end Client

theorem blocks_restored_split :
    let mapping := [("Ann".py, "[NAME_001]".py)]
    let events : List (PyStr × BlockEvent) :=
      [(dataEvent (blockStart "text".py 0), .start 0 (some .text)),
        (dataEvent (blockDelta .text 0 "Dear [NAME_".py : Json Literal),
          .delta 0 .text "Dear [NAME_".py),
        (dataEvent (blockDelta .text 0 "001]!".py : Json Literal), .delta 0 .text "001]!".py),
        (dataEvent (.obj (blockStop (.int 0))), .stop 0)]
    let text := (events.map Prod.fst).flatten
    let chunks := [text.take 30, text.drop 30]
    (∀ p ∈ events, AnthropicEvent Literal p.1 p.2) ∧ BlockStream (events.map Prod.snd) ∧
      chunks.flatten = text ∧
      ∃ sent tails d d',
        feedList SseStreamDesanitizer.feed
          (SseStreamDesanitizer.new mapping : SseStreamDesanitizer Literal) (chunks.map .str) =
            .ok (sent.map .str, d) ∧
        d.flush = .ok (tails.map .str, d') ∧
        BlocksRestored Literal mapping events (sent ++ tails) := by
  intro mapping events text chunks
  have hstart : (blockStart "text".py 0).Ok := by
    refine .obj (by decide) ?_
    simp only [List.forall_mem_cons, List.not_mem_nil, false_imp_iff, implies_true, and_true]
    exact ⟨.str _, .int (by decide), .obj (by simp) (by simpa using .str _)⟩
  have hstop : (Json.obj (blockStop (.int 0))).Ok := by
    refine .obj (by decide) ?_
    simp only [blockStop, List.forall_mem_cons, List.not_mem_nil, false_imp_iff, implies_true,
      and_true]
    exact ⟨.str _, .int (by decide)⟩
  have hevents : ∀ p ∈ events, AnthropicEvent Literal p.1 p.2 := by
    simp only [events, List.forall_mem_cons, List.not_mem_nil, false_imp_iff, implies_true, and_true]
    refine ⟨?_, ?_, ?_, ?_⟩
    · exact anthropicEvent_dataEvent hstart rfl (by decide +kernel) (by decide +kernel)
    · exact anthropicEvent_dataEvent (SseEvents.ok_blockDelta _ (by decide) _) rfl
        (by decide +kernel) (by decide +kernel)
    · exact anthropicEvent_dataEvent (SseEvents.ok_blockDelta _ (by decide) _) rfl
        (by decide +kernel) (by decide +kernel)
    · exact anthropicEvent_dataEvent hstop rfl (by decide +kernel) (by decide +kernel)
  have hstream : BlockStream (events.map Prod.snd) := by
    intro front e back hsplit
    rcases front with _ | ⟨a, _ | ⟨b, _ | ⟨c, _ | ⟨d, front⟩⟩⟩⟩
    all_goals simp only [events, List.map_cons, List.map_nil, List.nil_append, List.cons_append,
      List.cons.injEq] at hsplit
    · rw [← hsplit.1]
      simp [Follows]
    · rw [← hsplit.1, ← hsplit.2.1]
      exact Or.inl rfl
    · rw [← hsplit.1, ← hsplit.2.1, ← hsplit.2.2.1]
      exact Or.inl rfl
    · rw [← hsplit.1, ← hsplit.2.1, ← hsplit.2.2.1, ← hsplit.2.2.2.1]
      rfl
    · simp at hsplit
  have hcut : chunks.flatten = text := by simp [chunks]
  exact ⟨hevents, hstream, hcut, blocks_restored mapping hevents hstream hcut⟩

end CorpLlmGateway.Sanitizer
