import CorpLlmGateway.Sanitizer.PlaceholderAllocator
import CorpLlmGateway.Sanitizer.Streaming

/-!
# The request round trip

A request is a list of text segments, each with its own replacement plan. The
placeholders the user typed are forbidden, the pairs of every segment go through
one allocator, the plans are applied, and one reverse substituter is built from
all the pairs. Restoring a rewritten segment gives the segment back.

* `applySpans_marked` — a plan rewrites a text to a marked one that stands for it;
* `requestPairs_restorable` — the canonical pairs of a request are foreign to its
  texts and belong to one original each;
* `request_roundTrip` — every segment is restored by the pairs of all segments;
* `answer_restored` — and so is any answer that uses the placeholders, streamed or not.
-/

namespace CorpLlmGateway.Sanitizer

open TextScan

/-! ## The forward pass -/

/-- The rewritten text of a sorted plan, from a cursor on, with its placeholders
marked. -/
def marksFrom (text : Text) (pairs : List Pair) : ℕ → List AppliedSpan → Marks
  | cursor, [] => plains _ (text.drop cursor)
  | cursor, s :: ss =>
      plains _ (slice text cursor s.start) ++
        .token ⟨(pairs.lookup s.original).getD [], s.original⟩ :: marksFrom text pairs s.stop ss

theorem mem_marksFrom {text : Text} {pairs : List Pair} {e : ReverseEntry} {cursor : ℕ}
    {spans : List AppliedSpan} (h : .token e ∈ marksFrom text pairs cursor spans) :
    (∃ s ∈ spans, s.original = e.replacement) ∧
      e.placeholder = (pairs.lookup e.replacement).getD [] := by
  induction spans generalizing cursor with
  | nil => exact absurd h (token_not_mem_plains _ _)
  | cons s ss ih =>
    rcases List.mem_append.mp h with h | h
    · exact absurd h (token_not_mem_plains _ _)
    · rcases List.mem_cons.mp h with h | h
      · rcases Mark.token.inj h with rfl
        exact ⟨⟨s, List.mem_cons_self, rfl⟩, rfl⟩
      · rcases ih h with ⟨⟨s', hs', ho⟩, hp⟩
        exact ⟨⟨s', List.mem_cons_of_mem _ hs', ho⟩, hp⟩

/-- The loop of `apply_spans` on a sorted plan succeeds with the marked text, which
stands for the text from the cursor on. -/
theorem applySpansFrom_marked {text : Text} {pairs : List Pair} {spans : List AppliedSpan}
    (cursor : ℕ)
    (hcov : ∀ s ∈ spans, s.start < s.stop ∧ s.stop ≤ text.length ∧
      slice text s.start s.stop = s.original)
    (hsort : spans.Pairwise fun a b => a.stop ≤ b.start)
    (hcur : ∀ s ∈ spans, cursor ≤ s.start)
    (hpair : ∀ s ∈ spans, s.original ∈ pairs.map Prod.fst) :
    applySpansFrom text (Dict.ofPairs pairs) cursor spans =
        .ok (written (marksFrom text pairs cursor spans)) ∧
      restored (marksFrom text pairs cursor spans) = text.drop cursor := by
  induction spans generalizing cursor with
  | nil => simp [applySpansFrom, marksFrom, written, restored]
  | cons s ss ih =>
    rw [List.pairwise_cons] at hsort
    rcases hcov s List.mem_cons_self with ⟨hlt, hle, hslice⟩
    have hstart := hcur s List.mem_cons_self
    rcases Option.isSome_iff_exists.mp
      (Dict.isSome_lookup.mpr (hpair s List.mem_cons_self)) with ⟨r, hr⟩
    rcases ih s.stop (fun t ht => hcov t (List.mem_cons_of_mem _ ht)) hsort.2 hsort.1
      (fun t ht => hpair t (List.mem_cons_of_mem _ ht)) with ⟨hok, hsrc⟩
    have hvalid : ¬ (s.start < cursor ∨ s.stop ≤ s.start ∨ text.length < s.stop) := by omega
    constructor
    · simp only [applySpansFrom, if_neg hvalid, hslice, ne_eq, not_true_eq_false, if_false,
        Dict.get?_ofPairs, hr, hok, marksFrom, written, marked_append, marked_plains, marked_cons,
        Mark.text, Option.getD_some, List.append_assoc]
    · simp only [restored] at hsrc
      simp only [marksFrom, restored, marked_append, marked_plains, marked_cons, Mark.text, hsrc]
      rw [← hslice, slice_append_drop text (Nat.le_of_lt hlt), slice_append_drop text hstart]

/-- A plan that covers its text rewrites it to a marked text that stands for it. -/
theorem applySpans_marked {text : Text} {spans : List AppliedSpan} {pairs : List Pair}
    (hplan : PlanOk text spans) (hpair : ∀ s ∈ spans, s.original ∈ pairs.map Prod.fst) :
    ∃ ms : Marks, applySpans text spans pairs = .ok (written ms) ∧ restored ms = text ∧
      ∀ e, .token e ∈ ms → pairs.lookup e.replacement = some e.placeholder := by
  have hmem : ∀ s ∈ spans.insertionSort AppliedSpan.le, s ∈ spans := fun s hs =>
    (List.mem_insertionSort _).mp hs
  rcases applySpansFrom_marked 0 (fun s hs => hplan.covers s (hmem s hs)) hplan.sorted
    (fun _ _ => Nat.zero_le _) (fun s hs => hpair s (hmem s hs)) with ⟨hok, hsrc⟩
  refine ⟨_, hok, hsrc, ?_⟩
  intro e he
  rcases mem_marksFrom he with ⟨⟨s, hs, ho⟩, hp⟩
  rcases Option.isSome_iff_exists.mp (Dict.isSome_lookup.mpr (hpair s (hmem s hs))) with ⟨r, hr⟩
  rw [ho] at hr
  rw [hp, hr, Option.getD_some]

/-! ## Requests -/

open RequestPlaceholderAllocator

/-- A text segment of a request with its replacement plan and proposed pairs. -/
structure Segment where
  text : Text
  spans : List AppliedSpan
  pairs : List Pair

/-- What a segment brings: a plan that covers its text, a pair for the original of
every span, and proposed placeholders of the form `[FAMILY_NNN]`. -/
structure Segment.Valid (seg : Segment) : Prop where
  plan : PlanOk seg.text seg.spans
  pair : ∀ s ∈ seg.spans, s.original ∈ seg.pairs.map Prod.fst
  placeholder : ∀ e ∈ seg.pairs, IsPlaceholder e.2

/-- The canonical pairs of every segment: first the placeholders that occur in any
text of the request are forbidden, then the pairs are remapped segment by segment. -/
def requestPairs (segs : List Segment) : List (List Pair) :=
  ((forbidAll (segs.map fun seg => findPlaceholderLiterals seg.text)).remapAll
    (segs.map fun seg => ⟨seg.pairs, []⟩)).1

theorem remap_originals (a : RequestPlaceholderAllocator) (exempt : List Text)
    (pairs : List Pair) : (a.remap exempt pairs).1.map Prod.fst = pairs.map Prod.fst := by
  induction pairs generalizing a with
  | nil => rfl
  | cons e pairs ih => simp [remap, ih]

/-- The outputs answer the calls one by one. -/
theorem remapAll_forall₂ (a : RequestPlaceholderAllocator) (calls : List RemapCall) :
    List.Forall₂ (fun call out => out.map Prod.fst = call.pairs.map Prod.fst) calls
      (a.remapAll calls).1 := by
  induction calls generalizing a with
  | nil => exact .nil
  | cons call calls ih => exact .cons (remap_originals a call.exempt call.pairs) (ih _)

/-- What restoring needs of the canonical pairs of a request: they are bracket
tokens, none of them occurs in a text of the request, and each belongs to one
original. -/
structure Restorable (segs : List Segment) (pairs : List Pair) : Prop where
  token : ∀ o p, (o, p) ∈ pairs → IsToken '[' ']' p
  absent : ∀ o p, (o, p) ∈ pairs → ∀ seg ∈ segs, ¬ p <:+: seg.text
  injective : ∀ o₁ o₂ p, (o₁, p) ∈ pairs → (o₂, p) ∈ pairs → o₁ = o₂

theorem requestPairs_restorable {segs : List Segment}
    (h : ∀ seg ∈ segs, ∀ e ∈ seg.pairs, IsPlaceholder e.2) :
    Restorable segs (requestPairs segs).flatten := by
  have htr := tracks_run (segs.map fun seg => findPlaceholderLiterals seg.text)
    (segs.map fun seg => ⟨seg.pairs, []⟩)
  have hclaim : ∀ c ∈ (segs.map fun seg => (⟨seg.pairs, []⟩ : RemapCall)).flatMap RemapCall.claims,
      c.exempt = false ∧ IsPlaceholder c.placeholder := by
    intro c hc
    simp only [List.mem_flatMap, List.mem_map, RemapCall.claims] at hc
    rcases hc with ⟨_, ⟨seg, hseg, rfl⟩, e, he, rfl⟩
    exact ⟨rfl, h seg hseg e he⟩
  have hplace : ∀ o p, (o, p) ∈ (requestPairs segs).flatten → IsPlaceholder p :=
    htr.minted IsPlaceholder (fun b _ hq => mint_isPlaceholder b hq) fun c hc => (hclaim c hc).2
  refine ⟨fun o p hp => (hplace o p hp).isToken, ?_, ?_⟩
  · intro o p hp seg hseg hin
    apply htr.allowed o p hp
    exact List.mem_flatten.mpr ⟨_, List.mem_map.mpr ⟨seg, hseg, rfl⟩,
      mem_findPlaceholderLiterals.mpr ⟨hplace o p hp, hin⟩⟩
  · intro o₁ o₂ p h₁ h₂
    by_contra hne
    -- a shared placeholder needs an exempt first claim, and there is none
    rcases htr.shared o₁ o₂ p h₁ h₂ hne with ⟨t, ht⟩
    have hfirst := (htr.exempt t p ht).2 o₁ h₁
    have hmem := List.mem_of_find?_eq_some hfirst
    exact absurd (hclaim _ hmem).1 (by simp)

/-- A segment rewritten with restorable pairs is restored by all of them. -/
theorem Restorable.roundTrip {segs : List Segment} {seg : Segment} {out all : List Pair}
    (hall : Restorable segs all) (hseg : seg ∈ segs) (hv : seg.Valid)
    (horig : out.map Prod.fst = seg.pairs.map Prod.fst) (hsub : ∀ e ∈ out, e ∈ all) :
    ∃ t, applySpans seg.text seg.spans out = .ok t ∧ buildReverseSubstituter all t = seg.text := by
  have hpair : ∀ s ∈ seg.spans, s.original ∈ out.map Prod.fst := by
    rw [horig]
    exact hv.pair
  rcases applySpans_marked hv.plan hpair with ⟨ms, hok, hsrc, hms⟩
  have hin : ∀ e, .token e ∈ ms → (e.replacement, e.placeholder) ∈ all := fun e he =>
    hsub _ (mem_of_lookup (hms e he))
  have htok : ∀ e ∈ reverseEntries all, IsToken '[' ']' e.placeholder := fun e he =>
    hall.token _ _ (mem_of_mem_reverseEntries he)
  have hmarked : ForeignMarked (reverseEntries all) ms := by
    constructor
    · -- the reverse entry of a placeholder in use belongs to its only original
      intro e he
      rcases first_assigned (hin e he) with ⟨o₀, _, _, hsplit, _, hlook⟩
      have ho : o₀ = e.replacement := by
        refine hall.injective _ _ e.placeholder ?_ (hin e he)
        rw [hsplit]
        simp
      exact mem_reverseEntries.mpr (ho ▸ hlook)
    · intro e he
      rw [hsrc]
      exact hall.absent _ _ (mem_of_mem_reverseEntries he) seg hseg
  refine ⟨_, hok, ?_⟩
  rw [buildReverseSubstituter_restored (fun pair hpair => (hall.token _ _ hpair).head?)
    (hmarked.stable htok (reverseEntries_nodup all)) hmarked.known, hsrc]

/-- **The request round trip.** For any segments with valid plans and proposed
pairs, every segment is rewritten, and the reverse substituter built from the
canonical pairs of all segments maps it back to its text. -/
theorem request_roundTrip (segs : List Segment) (h : ∀ seg ∈ segs, seg.Valid) :
    List.Forall₂ (fun seg out => ∃ t, applySpans seg.text seg.spans out = .ok t ∧
      buildReverseSubstituter (requestPairs segs).flatten t = seg.text) segs (requestPairs segs) := by
  have hall := requestPairs_restorable fun seg hseg => (h seg hseg).placeholder
  have houts : List.Forall₂ (fun seg (out : List Pair) => out.map Prod.fst = seg.pairs.map Prod.fst)
      segs (requestPairs segs) := by
    have hcalls := remapAll_forall₂
      (forbidAll (segs.map fun seg => findPlaceholderLiterals seg.text))
      (segs.map fun seg => ⟨seg.pairs, []⟩)
    rwa [List.forall₂_map_left_iff] at hcalls
  refine List.forall₂_iff_get.mpr ⟨houts.length_eq, ?_⟩
  intro i hi hi'
  refine hall.roundTrip (List.get_mem _ _) (h _ (List.get_mem _ _))
    ((List.forall₂_iff_get.mp houts).2 i hi hi') ?_
  intro e he
  exact List.mem_flatten.mpr ⟨_, List.get_mem _ _, he⟩

/-- Two segments that propose one placeholder for different originals, and a user
who typed that placeholder. -/
def collidingSegments : List Segment :=
  [⟨"ask bob".toList, [⟨4, 7, "bob".toList⟩], [("bob".toList, "[NAME_001]".toList)]⟩,
    ⟨"[NAME_001] ann".toList, [⟨11, 14, "ann".toList⟩], [("ann".toList, "[NAME_001]".toList)]⟩]

theorem collidingSegments_valid : ∀ seg ∈ collidingSegments, seg.Valid := by
  have hname : IsPlaceholder "[NAME_001]".toList :=
    ⟨"NAME".toList, "001".toList, ⟨'N', "AME".toList, rfl, rfl, List.all_eq_true.mp rfl⟩,
      by decide, List.all_eq_true.mp rfl, rfl⟩
  intro seg hseg
  simp only [collidingSegments, List.mem_cons, List.not_mem_nil, or_false] at hseg
  rcases hseg with rfl | rfl
  · refine ⟨⟨by decide, by simp⟩, by decide, ?_⟩
    intro e he
    rwa [List.mem_singleton.mp he]
  · refine ⟨⟨by decide, by simp⟩, by decide, ?_⟩
    intro e he
    rwa [List.mem_singleton.mp he]

theorem request_roundTrip_colliding :
    List.Forall₂ (fun seg out => ∃ t, applySpans seg.text seg.spans out = .ok t ∧
      buildReverseSubstituter (requestPairs collidingSegments).flatten t = seg.text)
      collidingSegments (requestPairs collidingSegments) :=
  request_roundTrip collidingSegments collidingSegments_valid

/-! ## The answer -/

/-- **Any answer is restored.** An answer is a text of its own letters and of placeholders of
the request. If no placeholder occurs in it once they are replaced by their originals, then the
client gets this text, from the one-shot substituter and from a stream of any chunks. -/
theorem answer_restored (segs : List Segment) (h : ∀ seg ∈ segs, seg.Valid) (answer : Marks)
    (hknown : ∀ e, .token e ∈ answer →
      (e.replacement, e.placeholder) ∈ (requestPairs segs).flatten)
    (habsent : ∀ pair ∈ (requestPairs segs).flatten, ¬ pair.2 <:+: restored answer)
    (chunks : List Text) (hcut : chunks.flatten = written answer) :
    buildReverseSubstituter (requestPairs segs).flatten (written answer) = restored answer ∧
      (StreamingDesanitizer.new (requestPairs segs).flatten none).stream chunks =
        .ok (restored answer) := by
  have hall := requestPairs_restorable fun seg hseg => (h seg hseg).placeholder
  have htok : ∀ e ∈ reverseEntries (requestPairs segs).flatten, IsToken '[' ']' e.placeholder := by
    intro e he
    exact hall.token _ _ (mem_of_mem_reverseEntries he)
  have hmarked : ForeignMarked (reverseEntries (requestPairs segs).flatten) answer := by
    constructor
    · intro e he
      -- the first pair with this placeholder has the original of every other one
      rcases first_assigned (hknown e he) with ⟨o, _, _, hsplit, _, hlook⟩
      have ho : o = e.replacement := by
        refine hall.injective _ _ e.placeholder ?_ (hknown e he)
        rw [hsplit]
        simp
      exact mem_reverseEntries.mpr (ho ▸ hlook)
    · intro e he
      exact habsent _ (mem_of_mem_reverseEntries he)
  have hstable := hmarked.stable htok (reverseEntries_nodup _)
  have hbracket := fun (pair : Pair) hpair => (hall.token pair.1 pair.2 hpair).head?
  exact ⟨buildReverseSubstituter_restored hbracket hstable hmarked.known,
    StreamingDesanitizer.stream_restored hbracket hstable hmarked.known hcut⟩

/-- A placeholder that is cut in two, in an answer with brackets of its own. -/
theorem answer_restored_split :
    let pairs := (requestPairs collidingSegments).flatten
    let answer : Marks :=
      plains _ "[Dear ".toList ++ [.token ⟨"[NAME_003]".toList, "ann".toList⟩, .plain ']']
    let chunks := ["[Dear [NA".toList, "ME_003]]".toList]
    (chunks.flatten = written answer ∧ restored answer = "[Dear ann]".toList) ∧
      buildReverseSubstituter pairs (written answer) = restored answer ∧
      (StreamingDesanitizer.new pairs none).stream chunks = .ok (restored answer) := by
  intro pairs answer chunks
  have hpairs : pairs =
      [("bob".toList, "[NAME_002]".toList), ("ann".toList, "[NAME_003]".toList)] := by
    decide +kernel
  refine ⟨⟨by decide, by decide⟩, ?_⟩
  refine answer_restored collidingSegments collidingSegments_valid answer ?_ ?_ chunks (by decide)
  · intro e he
    change _ ∈ pairs
    have hann : e = ⟨"[NAME_003]".toList, "ann".toList⟩ := by
      simpa [answer, token_not_mem_plains] using he
    rw [hpairs, hann]
    simp
  · change ∀ pair ∈ pairs, _
    rw [hpairs]
    decide +kernel

end CorpLlmGateway.Sanitizer
