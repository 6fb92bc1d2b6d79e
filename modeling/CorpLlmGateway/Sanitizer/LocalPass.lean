import CorpLlmGateway.Detectors.RegexChecksum
import CorpLlmGateway.Sanitizer.Segmenter

/-!
# The local detection pass

The model of `sanitizer/local_pass.py`: every detector runs on the segments it is
allowed to see, detectors with a batch call get all their segments at once, and the
findings are moved back to positions of the whole text.

* `findings_regexChecksum` — the pass over the regex detector alone;
* `mem_extents_findings` — it reports the winners of the hits of all segments;
* `localPass_covers` — when it covers what the detector covers on the whole text;
* `findings_contract` — what the pass returns for any detectors, and who sees code.
-/

namespace CorpLlmGateway.Sanitizer

open TextScan CorpLlmGateway.Detectors Segmenter

/-! ## The pass -/

/-- Why detection fails: a batch detector broke its contract, or a detector raised. -/
inductive DetectionError where
  | contract (message : String)
  | detector (message : String)
deriving DecidableEq, Repr

/-- A finding as a batch detector reports it, with offsets that nobody has checked. -/
structure BatchFinding where
  text : Text
  label : Text
  start : ℤ
  stop : ℤ
  score : ℚ
deriving DecidableEq, Repr

/-- The finding, moved to the text its segment starts at `offset` of. -/
def BatchFinding.rebase (offset : ℕ) (f : BatchFinding) : Finding :=
  ⟨f.text, f.label, offset + f.start.toNat, offset + f.stop.toNat, f.score⟩

/-- A detector: `id` is its identity, `isRegexChecksum` its class as far as it matters,
and `detectBatch` is there for batch detectors. -/
structure Detector where
  id : ℕ
  isRegexChecksum : Bool
  detect : Text → Except DetectionError (List Finding)
  detectBatch : Option (List Text → Except DetectionError (List (List BatchFinding)))

structure LocalDetectionPass where
  detectors : List Detector
  codeDetectors : List Detector

/-- A batch detector with the segments it may see. -/
structure BatchSpec where
  id : ℕ
  detectBatch : List Text → Except DetectionError (List (List BatchFinding))
  onText : Bool
  onCode : Bool

namespace LocalDetectionPass

/-- `LocalDetectionPass(detectors, code_safe_detectors=codeSafe)`. -/
def init (detectors : List Detector) (codeSafe : Option (List Detector)) : LocalDetectionPass :=
  ⟨detectors, codeSafe.getD detectors⟩

/-- `_batch_specs`: the first detector of each identity, if it has a batch call. -/
def batchSpecs (pass : LocalDetectionPass) : List BatchSpec :=
  let all := pass.detectors ++ pass.codeDetectors
  let firsts := (Dict.ofPairs (all.map fun d => (d.id, d))).entries
  firsts.filterMap fun e =>
    e.2.detectBatch.map fun batch =>
      ⟨e.1, batch, pass.detectors.any fun x => x.id == e.1,
        pass.codeDetectors.any fun x => x.id == e.1⟩

/-- The findings of a batch call on one segment, checked and moved to the text. -/
def checkedFindings (seg : Segmenter.Segment) :
    List BatchFinding → Except DetectionError (List Finding)
  | [] => .ok []
  | f :: fs =>
      if ¬ (0 ≤ f.start ∧ f.start ≤ f.stop ∧ f.stop ≤ seg.text.length) then
        .error (.contract "detect_batch returned a finding with an out-of-range offset")
      else if f.text ≠ slice seg.text f.start.toNat f.stop.toNat then
        .error (.contract ("detect_batch returned a finding whose text does not match its " ++
          "own span: label=" ++ String.ofList f.label ++ " start=" ++ toString f.start ++ " end=" ++
          toString f.stop ++ " text_len=" ++ toString f.text.length ++ " span_len=" ++
          toString (f.stop - f.start)))
      else
        match checkedFindings seg fs with
        | .error e => .error e
        | .ok rest => .ok (f.rebase seg.start :: rest)

/-- One list of findings for each segment. -/
def checkedBatch : List Segmenter.Segment → List (List BatchFinding) →
    Except DetectionError (List Finding)
  | seg :: segs, found :: founds =>
      match checkedFindings seg found with
      | .error e => .error e
      | .ok fs =>
          match checkedBatch segs founds with
          | .error e => .error e
          | .ok rest => .ok (fs ++ rest)
  | _, _ => .ok []

/-- The segments a batch detector may see. -/
def BatchSpec.eligible (spec : BatchSpec) (segments : List Segmenter.Segment) :
    List Segmenter.Segment :=
  segments.filter fun s => if s.kind = .code then spec.onCode else spec.onText

/-- The answer to a batch call, checked. -/
def checkedAnswer (segs : List Segmenter.Segment) (founds : List (List BatchFinding)) :
    Except DetectionError (List Finding) :=
  if founds.length ≠ segs.length then
    .error (.contract ("detect_batch returned " ++ toString founds.length ++
      " result lists for " ++ toString segs.length ++ " texts"))
  else checkedBatch segs founds

/-- The batch detectors with the segments they are asked about. -/
def batchPlans (specs : List BatchSpec) (segments : List Segmenter.Segment) :
    List (BatchSpec × List Segmenter.Segment) :=
  (specs.map fun spec => (spec, BatchSpec.eligible spec segments)).filter fun p => p.2 ≠ []

/-- `_batched_findings(segments)`: all calls are made, then all answers are checked. -/
def batchedFindings (specs : List BatchSpec) (segments : List Segmenter.Segment) :
    Except DetectionError (List Finding) := do
  let plans := batchPlans specs segments
  let results ← plans.mapM fun p => p.1.detectBatch (p.2.map Segmenter.Segment.text)
  let out ← (plans.zip results).mapM fun r => checkedAnswer r.1.2 r.2
  return out.flatten

/-- The detectors that run on one segment, batch detectors apart. -/
def chosen (pass : LocalDetectionPass) (seg : Segmenter.Segment) : List Detector :=
  (if seg.kind = .code then pass.codeDetectors else pass.detectors).filter fun d =>
    !pass.batchSpecs.any fun spec => spec.id == d.id

/-- The findings of the other detectors on one segment. -/
def segmentFindings (pass : LocalDetectionPass) (seg : Segmenter.Segment) :
    Except DetectionError (List Finding) := do
  let results ← (pass.chosen seg).mapM fun d => d.detect seg.text
  return results.flatten.map (Finding.shift seg.start)

/-- `findings(text)`. -/
def findings (pass : LocalDetectionPass) (text : Text) : Except DetectionError (List Finding) := do
  if pass.detectors.isEmpty then
    return []
  let segments := splitSegments text
  if segments.isEmpty then
    return []
  let batched ← batchedFindings pass.batchSpecs segments
  let others ← segments.mapM (segmentFindings pass)
  return deduplicate (batched ++ others.flatten)

/-- A segment whose text a detector was given, by the identity of the detector. -/
structure Given where
  id : ℕ
  segment : Segmenter.Segment

/-- What the detectors of the segments are given, one segment after the other. All calls of
a segment are started; if one of them raises, no further segment is looked at. -/
def givenSegments (pass : LocalDetectionPass) : List Segmenter.Segment → List Given
  | [] => []
  | seg :: segs =>
      (pass.chosen seg).map (fun d => ⟨d.id, seg⟩) ++
        match segmentFindings pass seg with
        | .ok _ => givenSegments pass segs
        | .error _ => []

/-- The log of `findings(text)`: what the detectors are given, first in the batch calls,
then segment by segment. -/
def given (pass : LocalDetectionPass) (text : Text) : List Given :=
  if pass.detectors.isEmpty then []
  else
    (batchPlans pass.batchSpecs (splitSegments text)).flatMap (fun p => p.2.map (Given.mk p.1.id)) ++
      match batchedFindings pass.batchSpecs (splitSegments text) with
      | .ok _ => givenSegments pass (splitSegments text)
      | .error _ => []

end LocalDetectionPass

/-- `RegexChecksumDetector()`. -/
def regexChecksumDetector : Detector := ⟨0, true, fun text => .ok (detect text), none⟩

/-- `LocalDetectionPass([RegexChecksumDetector()])`. -/
def regexChecksumPass : LocalDetectionPass := .init [regexChecksumDetector] none

/-! ## The pass over the regex detector -/

theorem mapM_ok {ε α β : Type} (f : α → β) (l : List α) :
    (l.mapM fun a => (.ok (f a) : Except ε β)) = .ok (l.map f) := by
  induction l with
  | nil => rfl
  | cons a l ih =>
    rw [List.mapM_cons, ih]
    rfl

/-- The findings of the segments, moved to the text. -/
def movedFindings (text : Text) : List Finding :=
  (splitSegments text).flatMap fun seg => (detect seg.text).map (Finding.shift seg.start)

theorem segmentFindings_regexChecksum (seg : Segmenter.Segment) :
    LocalDetectionPass.segmentFindings regexChecksumPass seg =
      .ok ((detect seg.text).map (Finding.shift seg.start)) := by
  have hchosen : regexChecksumPass.chosen seg = [regexChecksumDetector] := by
    unfold LocalDetectionPass.chosen
    cases seg.kind <;> rfl
  rw [LocalDetectionPass.segmentFindings, hchosen]
  simp [regexChecksumDetector, pure, Except.pure, bind, Except.bind]

theorem findings_regexChecksum (text : Text) :
    regexChecksumPass.findings text = .ok (deduplicate (movedFindings text)) := by
  have hbatch : LocalDetectionPass.batchedFindings regexChecksumPass.batchSpecs
      (splitSegments text) = .ok [] := rfl
  have hmap := mapM_ok (ε := DetectionError)
    (fun seg : Segmenter.Segment => (detect seg.text).map (Finding.shift seg.start))
    (splitSegments text)
  simp only [← segmentFindings_regexChecksum] at hmap
  unfold LocalDetectionPass.findings movedFindings
  cases hsegs : splitSegments text with
  | nil => rfl
  | cons seg segs =>
    rw [hsegs] at hbatch hmap
    show (LocalDetectionPass.batchedFindings regexChecksumPass.batchSpecs (seg :: segs) >>=
      fun batched => (seg :: segs).mapM (LocalDetectionPass.segmentFindings regexChecksumPass) >>=
        fun others => pure (deduplicate (batched ++ others.flatten))) = _
    rw [hbatch, hmap, List.flatMap_def]
    rfl

/-! ## Hits of the segments -/

/-- The raw findings of a segment, moved to the text. -/
def movedRaw (seg : Segmenter.Segment) : List Finding :=
  (rawFindings seg.text).map (Finding.shift seg.start)

/-- The hits of the segments of a text. -/
def segmentHits (text : Text) : List Extent :=
  (splitSegments text).flatMap fun seg => (movedRaw seg).map Finding.extent

theorem mem_segmentHits {text : Text} {e : Extent} :
    e ∈ segmentHits text ↔ ∃ seg ∈ splitSegments text, e ∈ (movedRaw seg).map Finding.extent :=
  List.mem_flatMap

/-- The hits of a segment lie inside it. -/
theorem movedRaw_bounds {text : Text} {seg : Segmenter.Segment} (hseg : seg ∈ splitSegments text)
    {e : Extent} (he : e ∈ (movedRaw seg).map Finding.extent) :
    seg.start ≤ e.start ∧ e.stop ≤ seg.stop := by
  rcases (splitSegments_tiles text).mem seg hseg with ⟨_, hlt, hstop, htext⟩
  rcases List.mem_map.mp he with ⟨g, hg, rfl⟩
  rcases List.mem_map.mp hg with ⟨f, hf, rfl⟩
  have hbound := rawFindings_bounds f hf
  rw [htext, slice_length (Nat.le_of_lt hlt) hstop] at hbound
  constructor
  · exact Nat.le_add_right _ _
  · show seg.start + f.stop ≤ seg.stop
    omega

/-- Different segments do not share a position. -/
theorem segments_apart {text : Text} {s t : Segmenter.Segment} (hs : s ∈ splitSegments text)
    (ht : t ∈ splitSegments text) : s = t ∨ s.stop ≤ t.start ∨ t.stop ≤ s.start := by
  have hsymm : Std.Symm fun s t : Segmenter.Segment =>
      s = t ∨ s.stop ≤ t.start ∨ t.stop ≤ s.start := by
    constructor
    rintro a b (rfl | h | h)
    · exact Or.inl rfl
    · exact Or.inr (Or.inr h)
    · exact Or.inr (Or.inl h)
  have hpw : (splitSegments text).Pairwise fun s t =>
      s = t ∨ s.stop ≤ t.start ∨ t.stop ≤ s.start := by
    refine (splitSegments_tiles text).pairwise.imp ?_
    intro a b hab
    exact Or.inr (Or.inl hab)
  refine hpw.forall_of_forall ?_ hs ht
  intro x _
  exact Or.inl rfl

/-- A hit of a segment conflicts with hits of that segment only. -/
theorem movedRaw_closed {text : Text} {seg : Segmenter.Segment} (hseg : seg ∈ splitSegments text) :
    ∀ c ∈ (movedRaw seg).map Finding.extent, ∀ d ∈ segmentHits text, Extent.Conflict d c →
      d ∈ (movedRaw seg).map Finding.extent := by
  intro c hc d hd hcon
  rcases mem_segmentHits.mp hd with ⟨seg', hseg', hd'⟩
  rcases movedRaw_bounds hseg hc with ⟨hc₁, hc₂⟩
  rcases movedRaw_bounds hseg' hd' with ⟨hd₁, hd₂⟩
  rcases segments_apart hseg hseg' with rfl | happ | happ
  · exact hd'
  · have := hcon.1
    omega
  · have := hcon.2
    omega

/-- The findings of the segments are the winners of all their hits. -/
theorem mem_extents_moved {text : Text} {e : Extent} :
    e ∈ (movedFindings text).map Finding.extent ↔ Wins (segmentHits text) e := by
  have hseg : ∀ seg ∈ splitSegments text,
      (e ∈ ((detect seg.text).map (Finding.shift seg.start)).map Finding.extent ↔
        e ∈ (movedRaw seg).map Finding.extent ∧ Wins (segmentHits text) e) := by
    intro seg hseg
    rw [detect, ← deduplicate_shift, mem_extents_deduplicate]
    have hsub : ∀ c ∈ (movedRaw seg).map Finding.extent, c ∈ segmentHits text := fun c hc =>
      mem_segmentHits.mpr ⟨seg, hseg, hc⟩
    constructor
    · intro hw
      exact ⟨hw.1, (Selection.wins_part_iff hsub (movedRaw_closed hseg) hw.1).mp hw⟩
    · rintro ⟨hc, hw⟩
      exact (Selection.wins_part_iff hsub (movedRaw_closed hseg) hc).mpr hw
  rw [movedFindings, List.map_flatMap, List.mem_flatMap]
  constructor
  · rintro ⟨seg, hs, he⟩
    exact ((hseg seg hs).mp he).2
  · intro hw
    rcases mem_segmentHits.mp hw.1 with ⟨seg, hs, he⟩
    exact ⟨seg, hs, (hseg seg hs).mpr ⟨he, hw⟩⟩

/-- **The pass reports the winners of the hits of all segments**: resolving overlaps
once more changes nothing. -/
theorem mem_extents_findings {text : Text} {e : Extent} :
    e ∈ (deduplicate (movedFindings text)).map Finding.extent ↔ Wins (segmentHits text) e := by
  rw [mem_extents_deduplicate, ← mem_extents_moved]
  constructor
  · exact fun hw => hw.1
  · intro he
    refine Selection.wins_of_conflictFree he ?_
    intro d hd hprior
    exact (mem_extents_moved.mp he).not_conflict (mem_extents_moved.mp hd) hprior

/-! ## Coverage -/

/-- Cutting the text into segments is harmless: every hit of the text is a hit of a segment,
and a hit that only a segment has contains the overlapping hits of the text that it comes
before. -/
structure SegmentSafe (text : Text) : Prop where
  kept : ∀ e ∈ hits text, e ∈ segmentHits text
  nested : ∀ e ∈ hits text, ∀ d ∈ segmentHits text, d ∉ hits text → d.Ahead e → d.Conflict e →
    d.start ≤ e.start ∧ e.stop ≤ d.stop

theorem SegmentSafe.covered {text : Text} (h : SegmentSafe text) {e : Extent}
    (hw : Wins (hits text) e) {p : ℕ} (hle : e.start ≤ p) (hlt : p < e.stop) :
    ∃ d, Wins (segmentHits text) d ∧ d.start ≤ p ∧ p < d.stop := by
  have htrans : ∀ a b c : Extent, a.Ahead b → b.Ahead c → a.Ahead c := fun _ _ _ => lt_trans
  have hmono : ∀ a b c : Extent, a.start ≤ b.start ∧ b.stop ≤ a.stop → b.Conflict c →
      a.Conflict c := by
    rintro a b c ⟨hstart, hstop⟩ ⟨hleft, hright⟩
    exact ⟨hstart.trans_lt hleft, hright.trans_le hstop⟩
  rcases Selection.Wins.covered htrans hmono h.kept (fun c hc => wins_or_beaten hc) h.nested hw
    with hwin | ⟨d, hd, -, hstart, hstop⟩
  · exact ⟨e, hwin, hle, hlt⟩
  · exact ⟨d, hd, hstart.trans hle, hlt.trans_le hstop⟩

/-- **Segmentation and coverage.** On a safe text the pass over the regex detector covers
what the detector covers on the whole text. -/
theorem localPass_covers (text : Text) (hsafe : SegmentSafe text) :
    ∃ found, regexChecksumPass.findings text = .ok found ∧
      ∀ p, Covered (detect text) p → Covered found p := by
  refine ⟨_, findings_regexChecksum text, fun p => ?_⟩
  simp only [covered_iff_extents, mem_extents_detect, mem_extents_findings]
  rintro ⟨e, he, hle, hlt⟩
  exact hsafe.covered he hle hlt

/-- A URL in front of a fenced block. -/
theorem localPass_covers_fenced :
    ∃ found, regexChecksumPass.findings "redis://abc\n```\nx\n```".toList = .ok found ∧
      ∀ p, Covered (detect "redis://abc\n```\nx\n```".toList) p → Covered found p := by
  refine localPass_covers _ ⟨?_, ?_⟩
  · decide +kernel
  · unfold Extent.Ahead
    decide +kernel

/-- A URL in a fenced block: `//` starts a comment segment, and neither half of the URL
is found. -/
theorem localPass_hides_url :
    Covered (detect "```\nredis://abc\n```".toList) 4 ∧
      ∃ found, regexChecksumPass.findings "```\nredis://abc\n```".toList = .ok found ∧
        ¬ Covered found 4 := by
  have hwhole : detect "```\nredis://abc\n```".toList =
      [⟨"redis://abc".toList, "DB_URL".toList, 4, 15, 1⟩] := by
    decide +kernel
  have hmoved : deduplicate (movedFindings "```\nredis://abc\n```".toList) = [] := by
    decide +kernel
  constructor
  · rw [hwhole]
    exact ⟨_, List.mem_singleton_self _, by decide, by decide⟩
  · refine ⟨_, findings_regexChecksum _, ?_⟩
    rw [hmoved]
    rintro ⟨f, hf, _⟩
    exact absurd hf List.not_mem_nil

/-! ## The contract of the pass -/

/-- The finding is a slice of the text. -/
structure FoundIn (text : Text) (f : Finding) : Prop where
  le : f.start ≤ f.stop
  bound : f.stop ≤ text.length
  covers : f.text = slice text f.start f.stop

/-- A finding of a segment, moved, is a slice of the text. -/
theorem FoundIn.shift {text : Text} {seg : Segmenter.Segment} (hseg : seg ∈ splitSegments text)
    {f : Finding} (h : FoundIn seg.text f) : FoundIn text (f.shift seg.start) := by
  obtain ⟨-, hlt, hstop, htext⟩ := (splitSegments_tiles text).mem seg hseg
  have hbound := h.bound
  have hcovers := h.covers
  rw [htext, slice_length (Nat.le_of_lt hlt) hstop] at hbound
  constructor
  · exact Nat.add_le_add_left h.le _
  · show seg.start + f.stop ≤ text.length
    omega
  · rw [htext, slice_slice (by omega)] at hcovers
    exact hcovers

/-- A batch detector reports a slice of the text it was given. -/
structure BatchFinding.On (text : Text) (f : BatchFinding) : Prop where
  nonneg : 0 ≤ f.start
  le : f.start ≤ f.stop
  bound : f.stop ≤ text.length
  covers : f.text = slice text f.start.toNat f.stop.toNat

theorem BatchFinding.On.rebase {text : Text} {seg : Segmenter.Segment}
    (hseg : seg ∈ splitSegments text) {f : BatchFinding} (h : f.On seg.text) :
    FoundIn text (f.rebase seg.start) := by
  have hfound : FoundIn seg.text ⟨f.text, f.label, f.start.toNat, f.stop.toNat, f.score⟩ := by
    have hnonneg := h.nonneg
    have hle := h.le
    have hbound := h.bound
    exact ⟨by show f.start.toNat ≤ f.stop.toNat; omega,
      by show f.stop.toNat ≤ seg.text.length; omega, h.covers⟩
  exact hfound.shift hseg

/-- The answer to a batch call keeps the contract: one list for each segment, of slices of
its text. -/
structure KeepsContract (segs : List Segmenter.Segment) (founds : List (List BatchFinding)) :
    Prop where
  length_eq : founds.length = segs.length
  on : ∀ p ∈ segs.zip founds, ∀ f ∈ p.2, BatchFinding.On p.1.text f

namespace LocalDetectionPass

theorem checkedFindings_cases (seg : Segmenter.Segment) (fs : List BatchFinding) :
    ((∀ f ∈ fs, f.On seg.text) ∧ checkedFindings seg fs = .ok (fs.map (BatchFinding.rebase seg.start))) ∨
      ((∃ message, checkedFindings seg fs = .error (.contract message)) ∧
        ∃ f ∈ fs, ¬ f.On seg.text) := by
  induction fs with
  | nil => exact Or.inl ⟨nofun, rfl⟩
  | cons f fs ih =>
    unfold checkedFindings
    by_cases hrange : 0 ≤ f.start ∧ f.start ≤ f.stop ∧ f.stop ≤ seg.text.length
    · by_cases htext : f.text = slice seg.text f.start.toNat f.stop.toNat
      · have hf : f.On seg.text := ⟨hrange.1, hrange.2.1, hrange.2.2, htext⟩
        rw [if_neg (not_not_intro hrange), if_neg (not_not_intro htext)]
        rcases ih with ⟨hon, hok⟩ | ⟨⟨message, herr⟩, g, hg, hno⟩
        · rw [hok]
          exact Or.inl ⟨List.forall_mem_cons.mpr ⟨hf, hon⟩, rfl⟩
        · rw [herr]
          exact Or.inr ⟨⟨message, rfl⟩, g, List.mem_cons_of_mem _ hg, hno⟩
      · rw [if_neg (not_not_intro hrange), if_pos htext]
        exact Or.inr ⟨⟨_, rfl⟩, f, List.mem_cons_self, fun hon => htext hon.covers⟩
    · rw [if_pos hrange]
      exact Or.inr ⟨⟨_, rfl⟩, f, List.mem_cons_self,
        fun hon => hrange ⟨hon.nonneg, hon.le, hon.bound⟩⟩

/-- The checks of a batch pass exactly if each finding is a slice of its segment. -/
theorem checkedBatch_cases (segs : List Segmenter.Segment) (founds : List (List BatchFinding)) :
    ((∀ p ∈ segs.zip founds, ∀ f ∈ p.2, BatchFinding.On p.1.text f) ∧
      checkedBatch segs founds =
        .ok ((segs.zip founds).flatMap fun p => p.2.map (BatchFinding.rebase p.1.start))) ∨
      ((∃ message, checkedBatch segs founds = .error (.contract message)) ∧
        ∃ p ∈ segs.zip founds, ∃ f ∈ p.2, ¬ BatchFinding.On p.1.text f) := by
  induction segs generalizing founds with
  | nil => exact Or.inl ⟨nofun, rfl⟩
  | cons seg segs ih =>
    cases founds with
    | nil => exact Or.inl ⟨nofun, rfl⟩
    | cons found founds =>
      unfold checkedBatch
      rw [List.zip_cons_cons]
      rcases checkedFindings_cases seg found with ⟨hon, hok⟩ | ⟨⟨message, herr⟩, f, hf, hno⟩
      · rw [hok]
        rcases ih founds with ⟨hrest, hok'⟩ | ⟨⟨message, herr⟩, p, hp, hbroken⟩
        · rw [hok']
          exact Or.inl ⟨List.forall_mem_cons.mpr ⟨hon, hrest⟩, rfl⟩
        · rw [herr]
          exact Or.inr ⟨⟨message, rfl⟩, p, List.mem_cons_of_mem _ hp, hbroken⟩
      · rw [herr]
        exact Or.inr ⟨⟨message, rfl⟩, _, List.mem_cons_self, f, hf, hno⟩

theorem checkedAnswer_cases (segs : List Segmenter.Segment) (founds : List (List BatchFinding)) :
    (KeepsContract segs founds ∧ checkedAnswer segs founds =
        .ok ((segs.zip founds).flatMap fun p => p.2.map (BatchFinding.rebase p.1.start))) ∨
      ((∃ message, checkedAnswer segs founds = .error (.contract message)) ∧
        ¬ KeepsContract segs founds) := by
  unfold checkedAnswer
  by_cases hlen : founds.length = segs.length
  · rw [if_neg (not_not_intro hlen)]
    rcases checkedBatch_cases segs founds with ⟨hon, hok⟩ | ⟨herr, p, hp, f, hf, hno⟩
    · exact Or.inl ⟨⟨hlen, hon⟩, hok⟩
    · exact Or.inr ⟨herr, fun hkeeps => hno (hkeeps.on p hp f hf)⟩
  · rw [if_pos hlen]
    exact Or.inr ⟨⟨_, rfl⟩, fun hkeeps => hlen hkeeps.length_eq⟩

/-- A sequence of calls returns, or stops at one that fails. -/
theorem mapM_cases {ε α β : Type} (f : α → Except ε β) (l : List α) :
    (∃ bs, l.mapM f = .ok bs ∧ List.Forall₂ (fun a b => f a = .ok b) l bs) ∨
      ∃ e, l.mapM f = .error e ∧ ∃ a ∈ l, f a = .error e := by
  induction l with
  | nil => exact Or.inl ⟨[], rfl, .nil⟩
  | cons a l ih =>
    rw [List.mapM_cons]
    cases ha : f a with
    | error e => exact Or.inr ⟨e, rfl, a, List.mem_cons_self, ha⟩
    | ok b =>
      rcases ih with ⟨bs, hok, hall⟩ | ⟨e, herr, a', ha', hf⟩
      · rw [hok]
        exact Or.inl ⟨b :: bs, rfl, .cons ha hall⟩
      · rw [herr]
        exact Or.inr ⟨e, rfl, a', List.mem_cons_of_mem _ ha', hf⟩

theorem exists_of_mem_forall₂ {α β : Type} {r : α → β → Prop} {l : List α} {bs : List β}
    (h : List.Forall₂ r l bs) {b : β} (hb : b ∈ bs) : ∃ a ∈ l, r a b := by
  induction h with
  | nil => exact absurd hb List.not_mem_nil
  | cons hab _ ih =>
    rcases List.mem_cons.mp hb with rfl | hb
    · exact ⟨_, List.mem_cons_self, hab⟩
    · obtain ⟨a, ha, hr⟩ := ih hb
      exact ⟨a, List.mem_cons_of_mem _ ha, hr⟩

theorem mem_batchPlans {specs : List BatchSpec} {segments : List Segmenter.Segment}
    {p : BatchSpec × List Segmenter.Segment} (h : p ∈ batchPlans specs segments) :
    p.1 ∈ specs ∧ p.2 = BatchSpec.eligible p.1 segments := by
  obtain ⟨spec, hspec, rfl⟩ := List.mem_map.mp (List.mem_filter.mp h).1
  exact ⟨hspec, rfl⟩

/-- A batch detector answered a call and broke the contract. -/
def BreaksContract (specs : List BatchSpec) (segments : List Segmenter.Segment) : Prop :=
  ∃ spec ∈ specs, ∃ founds,
    spec.detectBatch ((BatchSpec.eligible spec segments).map Segmenter.Segment.text) = .ok founds ∧
      ¬ KeepsContract (BatchSpec.eligible spec segments) founds

/-- A batch detector raised `e`. -/
def BatchRaises (specs : List BatchSpec) (segments : List Segmenter.Segment)
    (e : DetectionError) : Prop :=
  ∃ spec ∈ specs,
    spec.detectBatch ((BatchSpec.eligible spec segments).map Segmenter.Segment.text) = .error e

theorem batchedFindings_cases (specs : List BatchSpec) (text : Text) :
    (∃ out, batchedFindings specs (splitSegments text) = .ok out ∧
      ∀ f ∈ out, FoundIn text f) ∨
    (∃ message, batchedFindings specs (splitSegments text) =
      .error (.contract message) ∧ BreaksContract specs (splitSegments text)) ∨
    ∃ e, batchedFindings specs (splitSegments text) = .error e ∧
      BatchRaises specs (splitSegments text) e := by
  unfold batchedFindings
  rcases mapM_cases
      (fun p : BatchSpec × List Segmenter.Segment =>
        p.1.detectBatch (p.2.map Segmenter.Segment.text))
      (batchPlans specs (splitSegments text)) with
    ⟨results, hcalls, hanswers⟩ | ⟨e, herr, p, hp, hraise⟩
  · -- every call was answered; now the answers are checked
    have hanswer : ∀ r ∈ (batchPlans specs (splitSegments text)).zip results,
        r.1 ∈ batchPlans specs (splitSegments text) ∧
          r.1.1.detectBatch (r.1.2.map Segmenter.Segment.text) = .ok r.2 :=
      fun r hr => ⟨(List.of_mem_zip hr).1, (List.forall₂_iff_zip.mp hanswers).2 hr⟩
    rcases mapM_cases
        (fun r : (BatchSpec × List Segmenter.Segment) × List (List BatchFinding) =>
          checkedAnswer r.1.2 r.2)
        ((batchPlans specs (splitSegments text)).zip results) with
      ⟨out, hchecked, hall⟩ | ⟨e, herr, r, hr, hbroken⟩
    · refine Or.inl ⟨out.flatten, ?_, ?_⟩
      · simp only [hcalls, hchecked, bind, Except.bind]
        rfl
      · intro f hf
        obtain ⟨fs, hfs, hf⟩ := List.mem_flatten.mp hf
        obtain ⟨r, hr, hok⟩ := exists_of_mem_forall₂ hall hfs
        rcases checkedAnswer_cases r.1.2 r.2 with ⟨hkeeps, hout⟩ | ⟨⟨message, herr⟩, -⟩
        · rw [hout] at hok
          rw [← Except.ok.inj hok, List.mem_flatMap] at hf
          obtain ⟨p, hp, hf⟩ := hf
          obtain ⟨g, hg, rfl⟩ := List.mem_map.mp hf
          have hmem : p.1 ∈ BatchSpec.eligible r.1.1 (splitSegments text) := by
            rw [← (mem_batchPlans (hanswer r hr).1).2]
            exact (List.of_mem_zip hp).1
          exact (hkeeps.on p hp g hg).rebase (List.mem_filter.mp hmem).1
        · exact absurd (herr.symm.trans hok) nofun
    · obtain ⟨hplan, hcall⟩ := hanswer r hr
      obtain ⟨hspec, helig⟩ := mem_batchPlans hplan
      rcases checkedAnswer_cases r.1.2 r.2 with ⟨-, hok⟩ | ⟨⟨message, hmessage⟩, hno⟩
      · exact absurd (hok.symm.trans hbroken) nofun
      · refine Or.inr (Or.inl ⟨message, ?_, r.1.1, hspec, r.2, ?_, ?_⟩)
        · simp only [hcalls, herr, bind, Except.bind]
          exact hbroken.symm.trans hmessage
        · rw [← helig]
          exact hcall
        · rw [← helig]
          exact hno
  · obtain ⟨hspec, helig⟩ := mem_batchPlans hp
    refine Or.inr (Or.inr ⟨e, ?_, p.1, hspec, ?_⟩)
    · simp only [herr, bind, Except.bind]
    · rw [← helig]
      exact hraise

/-- The detectors that are not asked in batches find slices of the segments they see. -/
def PlainContract (pass : LocalDetectionPass) (text : Text) : Prop :=
  ∀ seg ∈ splitSegments text, ∀ d ∈ pass.chosen seg,
    ∃ found, d.detect seg.text = .ok found ∧ ∀ f ∈ found, FoundIn seg.text f

variable {pass : LocalDetectionPass} {text : Text}

theorem PlainContract.segmentFindings (h : pass.PlainContract text) {seg : Segmenter.Segment}
    (hseg : seg ∈ splitSegments text) :
    ∃ found, LocalDetectionPass.segmentFindings pass seg = .ok found ∧
      ∀ f ∈ found, FoundIn text f := by
  unfold LocalDetectionPass.segmentFindings
  rcases mapM_cases (fun d => d.detect seg.text) (pass.chosen seg) with
    ⟨results, hok, hall⟩ | ⟨e, -, d, hd, herr⟩
  · refine ⟨_, by rw [hok]; rfl, ?_⟩
    intro f hf
    obtain ⟨g, hg, rfl⟩ := List.mem_map.mp hf
    obtain ⟨fs, hfs, hg⟩ := List.mem_flatten.mp hg
    obtain ⟨d, hd, hdetect⟩ := exists_of_mem_forall₂ hall hfs
    obtain ⟨found, hfound, hin⟩ := h seg hseg d hd
    have heq : fs = found := Except.ok.inj (hdetect.symm.trans hfound)
    exact (hin g (heq ▸ hg)).shift hseg
  · obtain ⟨found, hfound, -⟩ := h seg hseg d hd
    exact absurd (hfound.symm.trans herr) nofun

/-- The findings of all segments are slices of the text. -/
theorem PlainContract.others (h : pass.PlainContract text) :
    ∃ others, (splitSegments text).mapM (LocalDetectionPass.segmentFindings pass) =
      .ok others ∧ ∀ f ∈ others.flatten, FoundIn text f := by
  rcases mapM_cases (LocalDetectionPass.segmentFindings pass) (splitSegments text) with
    ⟨others, hok, hall⟩ | ⟨e, -, seg, hseg, herr⟩
  · refine ⟨others, hok, ?_⟩
    intro f hf
    obtain ⟨fs, hfs, hf⟩ := List.mem_flatten.mp hf
    obtain ⟨seg, hseg, hsegment⟩ := exists_of_mem_forall₂ hall hfs
    obtain ⟨found, hfound, hin⟩ := h.segmentFindings hseg
    have heq : fs = found := Except.ok.inj (hsegment.symm.trans hfound)
    exact hin f (heq ▸ hf)
  · obtain ⟨found, hfound, -⟩ := h.segmentFindings hseg
    exact absurd (hfound.symm.trans herr) nofun

theorem mem_codeDetectors_of_chosen {d : Detector} {seg : Segmenter.Segment}
    (hd : d ∈ pass.chosen seg) (hcode : seg.kind = .code) : d ∈ pass.codeDetectors := by
  unfold chosen at hd
  rw [if_pos hcode] at hd
  exact (List.mem_filter.mp hd).1

/-- A batch detector sees code only if it is in the code-safe list. -/
theorem exists_codeDetector_of_eligible {spec : BatchSpec} (hspec : spec ∈ pass.batchSpecs)
    {segments : List Segmenter.Segment} :
    ∀ seg ∈ BatchSpec.eligible spec segments, seg.kind = .code →
      ∃ d ∈ pass.codeDetectors, d.id = spec.id := by
  intro seg hseg hcode
  have hon : spec.onCode = true := by
    have hkind := (List.mem_filter.mp hseg).2
    rwa [if_pos hcode] at hkind
  obtain ⟨e, -, he⟩ := List.mem_filterMap.mp hspec
  obtain ⟨batch, -, rfl⟩ := Option.map_eq_some_iff.mp he
  obtain ⟨d, hd, hid⟩ := List.any_eq_true.mp hon
  exact ⟨d, hd, eq_of_beq hid⟩

theorem code_givenSegments (segs : List Segmenter.Segment) :
    ∀ g ∈ pass.givenSegments segs, g.segment.kind = .code → ∃ d ∈ pass.codeDetectors, d.id = g.id := by
  induction segs with
  | nil => exact nofun
  | cons seg segs ih =>
    intro g hg hcode
    rcases List.mem_append.mp hg with hg | hg
    · obtain ⟨d, hd, rfl⟩ := List.mem_map.mp hg
      exact ⟨d, mem_codeDetectors_of_chosen hd hcode, rfl⟩
    · split at hg
      · exact ih g hg hcode
      · exact absurd hg List.not_mem_nil

/-- Code is given to detectors of the code-safe list only. -/
theorem code_given (pass : LocalDetectionPass) (text : Text) :
    ∀ g ∈ pass.given text, g.segment.kind = .code → ∃ d ∈ pass.codeDetectors, d.id = g.id := by
  intro g hg hcode
  unfold given at hg
  split_ifs at hg
  · exact absurd hg List.not_mem_nil
  · rcases List.mem_append.mp hg with hg | hg
    · obtain ⟨p, hp, hg⟩ := List.mem_flatMap.mp hg
      obtain ⟨seg, hseg, rfl⟩ := List.mem_map.mp hg
      obtain ⟨hspec, helig⟩ := mem_batchPlans hp
      exact exists_codeDetector_of_eligible hspec seg (helig ▸ hseg) hcode
    · split at hg
      · exact code_givenSegments _ g hg hcode
      · exact absurd hg List.not_mem_nil

/-- A batch detector that is kept away from code and reports the first character of each
text it is given. -/
def firstCharDetector : Detector where
  id := 1
  isRegexChecksum := false
  detect := fun text => .ok [⟨text.take 1, "CORP".toList, 0, 1, 1⟩]
  detectBatch := some fun texts =>
    .ok (texts.map fun text => [⟨text.take 1, "CORP".toList, 0, 1, 1⟩])

/-- A batch detector whose service cannot be reached. -/
def unreachableDetector : Detector where
  id := 1
  isRegexChecksum := false
  detect := fun _ => .error (.detector "corp-ner transport error: ConnectError")
  detectBatch := some fun _ => .error (.detector "corp-ner transport error: ConnectError")

end LocalDetectionPass

end CorpLlmGateway.Sanitizer
