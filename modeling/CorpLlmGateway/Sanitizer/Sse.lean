import CorpLlmGateway.Data.Framing
import CorpLlmGateway.Json.Codec
import CorpLlmGateway.Sanitizer.Placeholder
import CorpLlmGateway.Text.Lines

/-!
# Server-sent events

The SSE helpers of `sanitizer/streaming.py`: the boundary that ends an event, the data
line of an event, and an event rebuilt around a new data object.

* `readEvent_stable` — the first boundary of a buffer stays the first when more text
  arrives, although `\r\n\r\n` may grow around the other two boundaries;
* `firstBoundary` — where `_SSE_BOUNDARY` first matches.
-/

namespace CorpLlmGateway.Sanitizer

open TextScan Regex Framing Json PyStr

/-! ## Boundaries -/

/-- `_SSE_BOUNDARY`: `\r\n\r\n|\n\n|\r\r`. -/
def sseBoundary : Pat PyChar :=
  .alts (["\r\n\r\n".py, "\n\n".py, "\r\r".py].map fun s => .seqs (s.map .lit))

/-- `_SSE_BOUNDARY.search(text)`. -/
def searchBoundary (text : PyStr) : Option (Hit (List (ℕ × ℕ × ℕ))) :=
  (finditer (matcher sseBoundary) text).head?

/-- The next complete event of a buffer, which holds decoded bytes. -/
def readEvent : Reader Char PyStr := fun text =>
  (searchBoundary (ofText text)).map fun h => (ofText (text.take h.stop), h.stop)

/-! ## Lines -/

/-- `line.startswith("data:")`. -/
def isDataLine (line : PyStr) : Bool := "data:".py.isPrefixOf line

/-- `_extract_data_line(event_text)`. -/
def extractDataLine (event : PyStr) : Option PyStr :=
  ((splitlines event).find? isDataLine).map fun line => (line.drop 5).dropWhile (· == .scalar ' ')

/-- `_boundary_from(event_text)`. -/
def boundaryFrom (event : PyStr) : PyStr :=
  match searchBoundary event with
  | some h => slice event h.start h.stop
  | none => "\n\n".py

/-- `text.rstrip("\r\n")`. -/
def rstripNewlines (text : PyStr) : PyStr := rstrip isNewline text

/-- `_rebuild_event(original_event, new_obj, boundary)`, given the text of the object. -/
def rebuildEvent (event data boundary : PyStr) : PyStr :=
  let lines := (splitlines (rstripNewlines event)).map fun line =>
    if isDataLine line then "data: ".py ++ data else line
  let sep := if "\r\n".py <:+: boundary then "\r\n".py else "\n".py
  sep.intercalate lines ++ boundary

/-! ## The first boundary -/

/-- The length of the boundary a text starts with. -/
def boundaryLen (text : PyStr) : Option ℕ :=
  if ofText ['\r', '\n', '\r', '\n'] <+: text then some 4
  else if ofText ['\n', '\n'] <+: text ∨ ofText ['\r', '\r'] <+: text then some 2
  else none

theorem matcher_sseBoundary (prev : Option PyChar) (text : PyStr) :
    matcher sseBoundary prev text = (boundaryLen text).map fun n => (n, []) := by
  have hcrlf : "\r\n\r\n".py = ofText ['\r', '\n', '\r', '\n'] := by decide
  have hlf : "\n\n".py = ofText ['\n', '\n'] := by decide
  have hcr : "\r\r".py = ofText ['\r', '\r'] := by decide
  simp only [matcher, sseBoundary, hcrlf, hlf, hcr, List.map_cons, List.map_nil, Pat.alts, run,
    run_lits, start, boundaryLen, length_ofText]
  by_cases h1 : ofText ['\r', '\n', '\r', '\n'] <+: text
  · simp [h1, St.advance, -ofText_cons]
  · by_cases h2 : ofText ['\n', '\n'] <+: text
    · simp [h1, h2, St.advance, -ofText_cons]
    · by_cases h3 : ofText ['\r', '\r'] <+: text
      · simp [h1, h2, h3, St.advance, -ofText_cons]
      · simp [h1, h2, h3, -ofText_cons]

/-- Where the first boundary of a text starts, and its length. -/
def firstBoundary : PyStr → Option (ℕ × ℕ)
  | [] => none
  | c :: s =>
      match boundaryLen (c :: s) with
      | some n => some (0, n)
      | none => (firstBoundary s).map fun p => (p.1 + 1, p.2)

theorem head?_scanFrom_sseBoundary (pos : ℕ) (prev : Option PyChar) (text : PyStr) :
    (scanFrom (matcher sseBoundary) pos 0 prev text).head? =
      (firstBoundary text).map fun p => ⟨pos + p.1, pos + p.1 + p.2, []⟩ := by
  induction text generalizing pos prev with
  | nil =>
    have hnone : boundaryLen [] = none := by decide
    simp [scanFrom, matcher_sseBoundary, hnone, firstBoundary]
  | cons c s ih =>
    simp only [scanFrom, matcher_sseBoundary, firstBoundary]
    cases hlen : boundaryLen (c :: s) with
    | some n => simp
    | none =>
      simp only [Option.map_none, ih, Option.map_map]
      congr 1
      funext p
      simp only [Function.comp_apply, Hit.mk.injEq, and_true]
      omega

theorem searchBoundary_eq (text : PyStr) :
    searchBoundary text = (firstBoundary text).map fun p => ⟨p.1, p.1 + p.2, []⟩ := by
  simpa [searchBoundary, finditer] using head?_scanFrom_sseBoundary 0 none text

theorem boundaryLen_bounds {text : PyStr} {n : ℕ} (h : boundaryLen text = some n) :
    2 ≤ n ∧ n ≤ text.length := by
  unfold boundaryLen at h
  split at h
  · next hpre =>
    cases h
    exact ⟨by omega, hpre.length_le⟩
  · split at h
    · next hpre =>
      cases h
      refine ⟨le_rfl, ?_⟩
      rcases hpre with hpre | hpre
      · exact hpre.length_le
      · exact hpre.length_le
    · cases h

theorem firstBoundary_bounds {text : PyStr} {p : ℕ × ℕ} (h : firstBoundary text = some p) :
    2 ≤ p.2 ∧ p.1 + p.2 ≤ text.length := by
  induction text generalizing p with
  | nil => cases h
  | cons c s ih =>
    rw [firstBoundary] at h
    split at h
    · next n hlen =>
      cases h
      have hbounds := boundaryLen_bounds hlen
      exact ⟨hbounds.1, by omega⟩
    · obtain ⟨q, hq, rfl⟩ := Option.map_eq_some_iff.mp h
      have hbounds := ih hq
      simp only [List.length_cons]
      omega

/-- A boundary at the start stays one. -/
theorem boundaryLen_append {text : PyStr} {n : ℕ} (h : boundaryLen text = some n) (t : PyStr) :
    boundaryLen (text ++ t) = some n := by
  unfold boundaryLen at h
  split at h
  · next hpre =>
    obtain ⟨u, rfl⟩ := hpre
    cases h
    simp [boundaryLen]
  · split at h
    · next hpre =>
      cases h
      rcases hpre with ⟨u, rfl⟩ | ⟨u, rfl⟩ <;> simp [boundaryLen]
    · cases h

/-- A boundary that more text completes at the start does not come before one that is
already there: `\r\n\r\n` has neither of the others inside it. -/
theorem boundaryLen_append_of_first {c : PyChar} {s : PyStr} {p : ℕ × ℕ}
    (h : boundaryLen (c :: s) = none) (hs : firstBoundary s = some p) (t : PyStr) :
    boundaryLen (c :: (s ++ t)) = none := by
  have hlen := firstBoundary_bounds hs
  cases s with
  | nil => cases hs
  | cons a s =>
    cases s with
    | nil =>
      simp only [List.length_cons, List.length_nil] at hlen
      omega
    | cons b s =>
      cases s with
      | nil =>
        -- a boundary of two characters that starts behind `c`
        have hab : ¬ (.scalar '\n' = a ∧ .scalar '\r' = b) := by
          rintro ⟨rfl, rfl⟩
          simp [firstBoundary, boundaryLen] at hs
        simp only [boundaryLen, ofText_cons, ofText_nil, List.cons_append, List.nil_append,
          List.cons_prefix_cons] at h ⊢
        rw [if_neg fun hpre => hab ⟨hpre.2.1, hpre.2.2.1⟩]
        simpa using h
      | cons d s => simpa [boundaryLen] using h

/-- The first boundary stays the first. -/
theorem firstBoundary_append {text : PyStr} {p : ℕ × ℕ} (h : firstBoundary text = some p)
    (t : PyStr) : firstBoundary (text ++ t) = some p := by
  induction text generalizing p with
  | nil => cases h
  | cons c s ih =>
    rw [firstBoundary] at h
    split at h
    · next n hlen =>
      have happ := boundaryLen_append hlen t
      rw [List.cons_append] at happ ⊢
      rw [firstBoundary, happ]
      exact h
    · next hnone =>
      obtain ⟨q, hq, rfl⟩ := Option.map_eq_some_iff.mp h
      rw [List.cons_append, firstBoundary, boundaryLen_append_of_first hnone hq t, ih hq]
      rfl

theorem readEvent_eq {text : Text} {x : PyStr} {n : ℕ} (h : readEvent text = some (x, n)) :
    ∃ p, firstBoundary (ofText text) = some p ∧ x = ofText (text.take (p.1 + p.2)) ∧
      n = p.1 + p.2 := by
  obtain ⟨hit, hhit, hx⟩ := Option.map_eq_some_iff.mp h
  rw [searchBoundary_eq] at hhit
  obtain ⟨p, hp, rfl⟩ := Option.map_eq_some_iff.mp hhit
  simp only [Prod.mk.injEq] at hx
  exact ⟨p, hp, hx.1.symm, hx.2.symm⟩

/-- **Events are stable**: more text never moves the end of a complete event. -/
theorem readEvent_stable : readEvent.Stable := by
  have hbounds : ∀ {s : Text} {p : ℕ × ℕ}, firstBoundary (ofText s) = some p →
      2 ≤ p.2 ∧ p.1 + p.2 ≤ s.length := by
    intro s p hp
    simpa using firstBoundary_bounds hp
  refine ⟨⟨?_, ?_⟩, ?_⟩
  · intro s x n h
    obtain ⟨p, hp, -, rfl⟩ := readEvent_eq h
    have hpos := (hbounds hp).1
    omega
  · intro s x n h
    obtain ⟨p, hp, -, rfl⟩ := readEvent_eq h
    exact (hbounds hp).2
  · intro s x n h t
    obtain ⟨p, hp, rfl, rfl⟩ := readEvent_eq h
    rw [readEvent, searchBoundary_eq, ofText_append, firstBoundary_append hp, Option.map_some,
      Option.map_some, List.take_append_of_le_length (hbounds hp).2]

theorem readEvent_nil : readEvent [] = none := by
  rw [readEvent, searchBoundary_eq]
  rfl

end CorpLlmGateway.Sanitizer
