import CorpLlmGateway.Json.Strings
import CorpLlmGateway.RouteGate.SseRestorer
import CorpLlmGateway.Sanitizer.SseClient

/-!
# Data lines that are read and rebuilt

The three helpers that take an event apart and put it together: `_extract_data_line` and
`_rebuild_event` of `sanitizer/streaming.py`, and `_data_field` of
`route_gate/desanitize_middleware.py`. All of them cut lines with `str.splitlines()`, which
knows eight more separators than an event stream does; three of them, `U+0085`, `U+2028` and
`U+2029`, may stand in a JSON text as they are.

* `survives_iff` — an event is read and rebuilt as it should be exactly when no separator of
  that kind stands in it or in a string of the new object, the data do not start with other
  white space than spaces, and the object has a text.
-/

namespace CorpLlmGateway.RouteGate

open Json Sanitizer PyStr

/-- The characters at which `str.splitlines()` ends a line and an event stream does not. -/
def isSeparator (c : PyChar) : Bool := isLineBreak c && !isNewline c

/-- The separators that `json.dumps` leaves in a string: the others are control characters. -/
def isRawSeparator (c : PyChar) : Bool := isSeparator c && decide (0x80 ≤ c.code)

/-- `_rebuild_event(original_event, new_obj, boundary)`. -/
def rebuildObject {F : Type} [Floats F] (event : PyStr) (object : Fields F) (boundary : PyStr) :
    Except Json.Error PyStr :=
  (dumps ⟨false, false⟩ (.obj object)).map fun data => rebuildEvent event data boundary

/-- An event with one data line, between other lines, and the blank line that ends it. -/
structure DataEvent (event : PyStr) (before : List PyStr) (s : PyStr) (behind : List PyStr) :
    Prop where
  lines : clientLines event = before ++ ("data: ".py ++ s) :: behind ++ [[]]
  others : ∀ l ∈ before ++ behind, l ≠ [] ∧ isDataLine l = false

/-- The same text, up to spaces in front of it. -/
def SameText (s t : PyStr) : Prop :=
  s.dropWhile (· == .scalar ' ') = t.dropWhile (· == .scalar ' ')

/-- The text on the data line is read by both helpers, and an object that is written on it
is read back while the other lines stay. -/
structure Survives {F : Type} [Floats F] (event : PyStr) (before : List PyStr) (s : PyStr)
    (behind : List PyStr) (object : Fields F) (boundary : PyStr) : Prop where
  extracted : ∃ d, extractDataLine event = some d ∧ SameText d s
  field : ∃ d, dataField event = some d ∧ SameText d s
  rebuilt : ∃ text, rebuildObject event object boundary = .ok text ∧
    (∃ d, extractDataLine text = some d ∧ loads d = .ok (.obj object)) ∧
    ∃ line, clientLines text = before ++ line :: behind ++ [[]]

/-! ## Reading -/

section Reading

variable {event s : PyStr} {before behind : List PyStr}

theorem isSeparator_eq_false {c : PyChar} (h : isLineBreak c = false) : isSeparator c = false := by
  simp [isSeparator, h]

theorem isNewline_of_not_isSeparator {c : PyChar} (h : isSeparator c = false)
    (hbreak : isLineBreak c = true) : isNewline c = true := by
  simpa [isSeparator, hbreak] using h

/-- The lines of an event and its data. -/
def NoSeparator (lines : List PyStr) : Prop := ∀ l ∈ lines, ∀ c ∈ l, isSeparator c = false

theorem noSeparator_data (h : NoSeparator (before ++ s :: behind)) :
    NoSeparator (before ++ ("data: ".py ++ s) :: behind ++ [[]]) := by
  have hname : ∀ c ∈ "data: ".py, isSeparator c = false := by
    simp [isSeparator, isLineBreak, PyChar.code]
  intro l hl c hc
  simp only [List.mem_append, List.mem_cons, List.not_mem_nil, or_false] at hl
  rcases hl with (hl | rfl | hl) | rfl
  · exact h l (by simp [hl]) c hc
  · exact (List.mem_append.mp hc).elim (hname c) (h s (by simp) c)
  · exact h l (by simp [hl]) c hc
  · cases hc

/-- An event without separators is read as the client reads it. -/
theorem DataEvent.oneData (h : DataEvent event before s behind)
    (hsep : NoSeparator (before ++ s :: behind)) : OneData event ("data: ".py ++ s) := by
  refine ⟨fun c hc hbreak => ?_, ?_⟩
  · by_contra hne
    have hnewline : isNewline c = false := by simpa using hne
    obtain ⟨l, hlines, hcl⟩ : ∃ l ∈ clientLines event, c ∈ l :=
      mem_linesFrom ⟨hnewline, hnewline⟩ hc
    rw [h.lines] at hlines
    exact hne (isNewline_of_not_isSeparator (noSeparator_data hsep l hlines c hcl) hbreak)
  · have hbefore : before.filter isDataLine = [] :=
      List.filter_eq_nil_iff.mpr fun l hl => by simp [(h.others l (by simp [hl])).2]
    have hbehind : behind.filter isDataLine = [] :=
      List.filter_eq_nil_iff.mpr fun l hl => by simp [(h.others l (by simp [hl])).2]
    rw [dataLines, h.lines, List.filter_append, List.filter_append, hbefore, List.nil_append,
      List.filter_cons_of_pos (isDataLine_data s), hbehind]
    rfl

theorem dataField_eq {line : PyStr} (h : OneData event line) :
    dataField event = some ((line.drop 5).dropWhile PyChar.isSpace) := by
  have hone : (splitlines event).filter isDataLine = [line] := by
    rw [h.splitlines_eq]
    exact h.one
  simp [dataField, hone]

/-- What is read has no line break. -/
theorem not_isLineBreak_of_extracted {d : PyStr} (h : extractDataLine event = some d) :
    ∀ c ∈ d, isLineBreak c = false := by
  obtain ⟨line, hfind, rfl⟩ := Option.map_eq_some_iff.mp h
  have hmem : line ∈ splitlines event := List.mem_of_find?_eq_some hfind
  intro c hc
  have hsub := (List.dropWhile_sublist (· == .scalar ' ')).trans (List.drop_sublist 5 line)
  exact not_isBreak_of_mem_linesFrom (by simp) line hmem c (hsub.subset hc)

theorem drop_data (s : PyStr) : ("data: ".py ++ s).drop 5 = .scalar ' ' :: s := rfl

/-- Spaces in front of a text are white space. -/
theorem dropWhile_isSpace (s : PyStr) :
    (s.dropWhile (· == .scalar ' ')).dropWhile PyChar.isSpace = s.dropWhile PyChar.isSpace := by
  induction s with
  | nil => rfl
  | cons c s ih =>
    by_cases hc : c = .scalar ' '
    · subst hc
      have hspace : PyChar.isSpace (.scalar ' ') = true := by decide
      rw [List.dropWhile_cons_of_pos rfl, List.dropWhile_cons_of_pos hspace, ih]
    · rw [List.dropWhile_cons_of_neg (by simpa using hc)]

/-- The field is the text up to spaces when no other white space follows them. -/
theorem sameText_field_iff (s : PyStr) :
    SameText (s.dropWhile PyChar.isSpace) s ↔
      (s.dropWhile (· == .scalar ' ')).head?.all (fun c => !c.isSpace) = true := by
  unfold SameText
  rw [← dropWhile_isSpace s]
  cases hs : s.dropWhile (· == .scalar ' ') with
  | nil => simp
  | cons c t =>
    have hne : c ≠ .scalar ' ' := by
      have hhead := List.head_dropWhile_not (· == PyChar.scalar ' ') (l := s) (by rw [hs]; simp)
      simpa [hs] using hhead
    cases hc : c.isSpace with
    | false => simp [hc, hne]
    | true =>
      simp only [List.dropWhile_cons, hc, if_true, List.head?_cons, Option.all_some, Bool.not_true,
        Bool.false_eq_true, iff_false]
      intro heq
      have hlen := congrArg List.length heq
      have hle := ((List.dropWhile_sublist (· == .scalar ' ')).trans
        (List.dropWhile_sublist (p := PyChar.isSpace) (l := t))).length_le
      simp only [List.length_cons] at hlen
      omega

end Reading

/-! ## Rebuilding -/

section Rebuilding

variable {event s data boundary sep : PyStr} {before behind lines : List PyStr}

/-- The lines of an event without the newlines at its end are those in front of the blank
line. -/
theorem DataEvent.splitlines_rstrip (h : DataEvent event before s behind)
    (hsep : NoSeparator (before ++ s :: behind)) :
    splitlines (rstripNewlines event) = before ++ ("data: ".py ++ s) :: behind := by
  have hone := h.oneData hsep
  obtain ⟨k, hk⟩ := Sanitizer.splitlines_rstrip event
  rw [hone.splitlines_eq, h.lines] at hk
  have hnonempty : [] ∉ before ++ ("data: ".py ++ s) :: behind := by
    intro hmem
    simp only [List.mem_append, List.mem_cons] at hmem
    rcases hmem with hmem | hmem | hmem
    · exact (h.others [] (by simp [hmem])).1 rfl
    · simp at hmem
    · exact (h.others [] (by simp [hmem])).1 rfl
  rcases List.eq_nil_or_concat (rstripNewlines event) with hnil | ⟨t, c, ht⟩
  · -- an event of newlines alone has no data line
    rw [hnil] at hk
    have hmem : "data: ".py ++ s ∈ List.replicate k [] := by
      have hall : splitlines [] ++ List.replicate k [] = List.replicate k [] := rfl
      rw [← hall, ← hk]
      simp
    exact absurd (List.eq_of_mem_replicate hmem) (by simp)
  · have hreverse : event.reverse.dropWhile isNewline = c :: t.reverse := by
      have hdef : (event.reverse.dropWhile isNewline).reverse = t.concat c := ht
      simpa using congrArg List.reverse hdef
    have hnewline : isNewline c = false := by
      have hlast := List.head?_dropWhile_not isNewline event.reverse
      rw [hreverse] at hlast
      simpa using hlast
    have hbreak : isLineBreak c = false := by
      by_contra hne
      have hmem : c ∈ event := by
        have hsub := List.dropWhile_sublist isNewline (l := event.reverse)
        rw [hreverse] at hsub
        exact List.mem_reverse.mp (hsub.subset List.mem_cons_self)
      rw [hone.breaks c hmem (by simpa using hne)] at hnewline
      cases hnewline
    obtain ⟨L, l, hrstrip⟩ : ∃ L l, splitlines (rstripNewlines event) = L ++ [l ++ [c]] := by
      rw [ht, List.concat_eq_append]
      exact linesFrom_concat ⟨hnewline, hbreak⟩
    rw [hrstrip] at hk ⊢
    cases k with
    | zero =>
      rw [List.replicate_zero, List.append_nil] at hk
      exact absurd (List.append_inj_right' hk rfl) (by simp)
    | succ k =>
      rw [List.replicate_succ', ← List.append_assoc] at hk
      have hrest := List.append_inj_left' hk rfl
      cases k with
      | zero => simpa using hrest.symm
      | succ k => exact absurd (by rw [hrest]; simp [List.replicate_succ]) hnonempty

/-- The newline between the lines of a rebuilt event. -/
def newlineOf (boundary : PyStr) : PyStr :=
  if "\r\n".py <:+: boundary then "\r\n".py else "\n".py

theorem newlineOf_cases (boundary : PyStr) :
    newlineOf boundary = "\r\n".py ∨ newlineOf boundary = "\n".py := by
  unfold newlineOf
  split <;> simp

/-- The lines of a rebuilt event. -/
theorem clientLines_rebuildEvent (hboundary : boundary ∈ boundaries)
    (hne : splitlines (rstripNewlines event) ≠ []) (hdata : ∀ c ∈ data, isNewline c = false) :
    clientLines (rebuildEvent event data boundary) =
      (splitlines (rstripNewlines event)).map (withData data) ++ [[]] :=
  clientLines_intercalate (newlineOf_cases boundary) hboundary (by simpa using hne)
    (isNewline_withData hdata _)

/-- New data on the data line, and every other line as it was. -/
theorem DataEvent.map_withData (h : DataEvent event before s behind)
    (hsep : NoSeparator (before ++ s :: behind)) (data : PyStr) :
    (splitlines (rstripNewlines event)).map (withData data) =
      before ++ ("data: ".py ++ data) :: behind := by
  have hkeep : ∀ {ls : List PyStr}, (∀ l ∈ ls, isDataLine l = false) →
      ls.map (withData data) = ls := by
    intro ls hls
    have hid : ls.map (withData data) = ls.map id :=
      List.map_congr_left fun l hl => by simp [withData, hls l hl]
    simpa using hid
  rw [h.splitlines_rstrip hsep, List.map_append, List.map_cons,
    hkeep fun l hl => (h.others l (by simp [hl])).2,
    hkeep fun l hl => (h.others l (by simp [hl])).2, withData, if_pos (isDataLine_data s)]

theorem DataEvent.rebuilt (h : DataEvent event before s behind)
    (hsep : NoSeparator (before ++ s :: behind)) (hboundary : boundary ∈ boundaries)
    (hdata : ∀ c ∈ data, isNewline c = false) :
    DataEvent (rebuildEvent event data boundary) before data behind := by
  have hne : splitlines (rstripNewlines event) ≠ [] := by
    rw [h.splitlines_rstrip hsep]
    simp
  refine ⟨?_, h.others⟩
  rw [clientLines_rebuildEvent hboundary hne hdata, h.map_withData hsep]

/-- A separator that is left in a text is a line break and no newline. -/
theorem isLineBreak_iff_isRawSeparator {c : PyChar} (h : Printable c) :
    isLineBreak c = true ↔ isRawSeparator c = true := by
  have hnewline := isNewline_of_printable h
  have hcodes : isLineBreak c = true → 0x80 ≤ c.code := by
    intro hbreak
    have hprintable : 0x20 ≤ c.code := h
    simp only [isLineBreak, List.mem_cons, List.not_mem_nil, or_false, decide_eq_true_eq] at hbreak
    omega
  simp only [isRawSeparator, isSeparator, hnewline, Bool.not_false, Bool.and_true,
    Bool.and_eq_true, decide_eq_true_eq]
  exact ⟨fun hbreak => ⟨hbreak, hcodes hbreak⟩, fun hraw => hraw.1⟩

/-- A data line is read as far as its first separator. -/
theorem extractDataLine_cut (hsep : sep = "\r\n".py ∨ sep = "\n".py)
    (hbefore : ∀ l ∈ before, isDataLine l = false ∧ ∀ c ∈ l, isLineBreak c = false)
    {head : PyStr} (hhead : ∀ c ∈ head, isLineBreak c = false) {c : PyChar}
    (hc : isLineBreak c = true ∧ c ≠ .scalar '\r') (rest : PyStr) (behind : List PyStr)
    (boundary : PyStr) :
    extractDataLine
        (sep.intercalate (before ++ ("data: ".py ++ (head ++ c :: rest)) :: behind) ++ boundary) =
      some (head.dropWhile (· == .scalar ' ')) := by
  have hskip : ∀ {l : PyStr}, (∀ c ∈ l, isLineBreak c = false) → ∀ t,
      splitlines (l ++ t) = linesFrom isLineBreak l t := fun hl t =>
    linesFrom_append fun c hmem => ⟨isNewline_of_isLineBreak (hl c hmem), hl c hmem⟩
  have hfind : ∀ t, (splitlines ("data: ".py ++ (head ++ c :: t))).find? isDataLine =
      some ("data: ".py ++ head) := by
    intro t
    have hname : ∀ c ∈ "data: ".py, isLineBreak c = false := by simp [isLineBreak, PyChar.code]
    rw [← List.append_assoc, hskip (List.forall_mem_append.mpr ⟨hname, hhead⟩),
      linesFrom_cons hc.2, if_pos hc.1, List.find?_cons_of_pos (isDataLine_data head)]
  suffices h : (splitlines (sep.intercalate
      (before ++ ("data: ".py ++ (head ++ c :: rest)) :: behind) ++ boundary)).find? isDataLine =
        some ("data: ".py ++ head) by
    rw [extractDataLine, h]
    rfl
  induction before with
  | nil =>
    cases behind with
    | nil =>
      rw [List.nil_append, List.intercalate_singleton]
      simpa [List.append_assoc] using hfind (rest ++ boundary)
    | cons l behind =>
      rw [List.nil_append, List.intercalate_cons_cons]
      simpa [List.append_assoc] using hfind (rest ++ (sep ++ (sep.intercalate (l :: behind) ++ boundary)))
  | cons l before ih =>
    obtain ⟨⟨hl, hbreak⟩, hbefore⟩ := List.forall_mem_cons.mp hbefore
    rw [List.cons_append, List.intercalate_cons_of_ne_nil (by simp), List.append_assoc,
      List.append_assoc, hskip hbreak, linesFrom_sep (by decide) hsep,
      List.find?_cons_of_neg (by simp [hl])]
    exact ih hbefore

end Rebuilding

/-! ## The round trip -/

section RoundTrip

variable {F : Type} [Floats F] {event s boundary : PyStr} {before behind : List PyStr}
  {object : Fields F}

theorem rebuildObject_eq_ok {text : PyStr} (h : rebuildObject event object boundary = .ok text) :
    text = rebuildEvent event (render ⟨false, false⟩ (.obj object)) boundary := by
  unfold rebuildObject dumps at h
  split at h
  · exact (Except.ok.inj h).symm
  · cases h

theorem isNewline_render (style : Style) (j : Json F) :
    ∀ c ∈ render style j, isNewline c = false :=
  fun c hc => isNewline_of_printable (printable_render style j c hc)

theorem beyond_of_isRawSeparator {c : PyChar} (h : isRawSeparator c = true) : Beyond c := by
  have hcode : 0x80 ≤ c.code := by simpa using (Bool.and_eq_true_iff.mp h).2
  exact hcode

/-- What is rebuilt around an event has lines. -/
theorem splitlines_rstrip_ne_nil {data d : PyStr} (hboundary : boundary ∈ boundaries)
    (h : extractDataLine (rebuildEvent event data boundary) = some d) :
    splitlines (rstripNewlines event) ≠ [] := by
  intro hnil
  have htext : rebuildEvent event data boundary = boundary := by
    simp only [rebuildEvent, hnil, List.map_nil, List.intercalate_nil, List.nil_append]
  rw [htext] at h
  simp only [boundaries, List.mem_cons, List.not_mem_nil, or_false] at hboundary
  rcases hboundary with rfl | rfl | rfl
  all_goals simp [extractDataLine, splitlines, linesFrom, isLineBreak, PyChar.code, isDataLine] at h

/-- Lines that stay have no separator. -/
theorem not_isLineBreak_of_kept {data line : PyStr} (h : DataEvent event before s behind)
    (hkept : (splitlines (rstripNewlines event)).map (withData data) = before ++ line :: behind) :
    ∀ l ∈ before ++ behind, ∀ c ∈ l, isLineBreak c = false := by
  intro l hl
  have hmem : l ∈ (splitlines (rstripNewlines event)).map (withData data) := by
    rw [hkept]
    simp only [List.mem_append, List.mem_cons] at hl ⊢
    tauto
  obtain ⟨l', hl', rfl⟩ := List.mem_map.mp hmem
  have hdata : isDataLine l' = false := by
    rw [← isDataLine_withData data]
    exact (h.others _ hl).2
  rw [withData, if_neg (by simp [hdata])]
  exact not_isBreak_of_mem_linesFrom (by simp) l' hl'

/-- Data that are read up to spaces have no separator. -/
theorem not_isLineBreak_of_sameText {d : PyStr} (hd : extractDataLine event = some d)
    (hsame : SameText d s) : ∀ c ∈ s, isLineBreak c = false := by
  intro c hc
  rw [← List.takeWhile_append_dropWhile (p := (· == PyChar.scalar ' ')) (l := s)] at hc
  rcases List.mem_append.mp hc with hc | hc
  · have hspace := List.all_eq_true.mp List.all_takeWhile c hc
    rw [eq_of_beq hspace]
    decide
  · have hmem : c ∈ d.dropWhile (· == .scalar ' ') := by rwa [show d.dropWhile _ = _ from hsame]
    exact not_isLineBreak_of_extracted hd c ((List.dropWhile_sublist _).subset hmem)

/-- A text with a separator, cut at the first one. -/
theorem exists_cut {data : PyStr} (hprint : ∀ c ∈ data, Printable c)
    (h : ∃ c ∈ data, isRawSeparator c = true) :
    ∃ c rest, data = data.takeWhile (!isRawSeparator ·) ++ c :: rest ∧
      (isLineBreak c = true ∧ c ≠ .scalar '\r') ∧
      ∀ d ∈ data.takeWhile (!isRawSeparator ·), isLineBreak d = false := by
  obtain ⟨x, hx, hraw⟩ := h
  have hdrop : data.dropWhile (!isRawSeparator ·) ≠ [] := by
    intro hnil
    have hall := List.dropWhile_eq_nil_iff.mp hnil x hx
    simp [hraw] at hall
  obtain ⟨c, rest, hcut⟩ := List.exists_cons_of_ne_nil hdrop
  have hc : isRawSeparator c = true := by
    have hhead := List.head_dropWhile_not (!isRawSeparator ·) hdrop
    simpa [hcut] using hhead
  have hsplit : data = data.takeWhile (!isRawSeparator ·) ++ c :: rest := by
    rw [← hcut, List.takeWhile_append_dropWhile]
  have hcdata : Printable c := hprint c (by rw [hsplit]; simp)
  refine ⟨c, rest, hsplit, ⟨(isLineBreak_iff_isRawSeparator hcdata).mpr hc, ?_⟩, fun d hd => ?_⟩
  · rintro rfl
    exact absurd hcdata (by decide)
  · have hpre := (List.takeWhile_prefix (p := (!isRawSeparator ·)) (l := data)).subset hd
    have hnot := List.all_eq_true.mp List.all_takeWhile d hd
    by_contra hne
    have hraw := (isLineBreak_iff_isRawSeparator (hprint d hpre)).mp (by simpa using hne)
    simp [hraw] at hnot

/-- The object is not read back when a separator is written into the event. -/
theorem strings_of_rebuilt (h : DataEvent event before s behind)
    (hsep : NoSeparator (before ++ s :: behind))
    (hbreak : ∀ l ∈ before, ∀ c ∈ l, isLineBreak c = false) {d : PyStr}
    (hd : extractDataLine (rebuildEvent event (render ⟨false, false⟩ (.obj object)) boundary) =
      some d)
    (hload : loads d = .ok (.obj object)) :
    (Json.obj object).Strings fun s => ∀ c ∈ s, isRawSeparator c = false := by
  have hbeyond : ∀ c, isRawSeparator c = true → Beyond c := fun c => beyond_of_isRawSeparator
  have hascii : (⟨false, false⟩ : Style).ascii = false := rfl
  rw [← forall_mem_render_iff hbeyond hascii]
  have hprint := printable_render ⟨false, false⟩ (Json.obj object)
  by_contra hne
  have hraw : ∃ c ∈ render ⟨false, false⟩ (Json.obj object), isRawSeparator c = true := by
    simpa using hne
  obtain ⟨c, rest, hsplit, hc, hhead⟩ := exists_cut hprint hraw
  have hread := extractDataLine_cut (newlineOf_cases boundary)
    (fun l hl => ⟨(h.others l (by simp [hl])).2, hbreak l hl⟩) hhead hc rest behind boundary
  -- only the part in front of the separator is read, and it is no JSON text
  rw [← hsplit, ← h.map_withData hsep] at hread
  have hpart := Option.some.inj (hd.symm.trans hread)
  rw [hpart, loads_dropWhile_space] at hload
  exact loads_takeWhile_render hbeyond rfl hraw _ hload

/-- **Data lines survive reading and rebuilding** exactly when no line separator of
`str.splitlines()` that is no newline stands in the event or in a string of the object, the
data do not start, after spaces, with other white space, and the object has a text. -/
theorem survives_iff (h : DataEvent event before s behind) (hboundary : boundary ∈ boundaries)
    (object : Fields F) :
    Survives event before s behind object boundary ↔
      NoSeparator (before ++ s :: behind) ∧
      (s.dropWhile (· == .scalar ' ')).head?.all (fun c => !c.isSpace) = true ∧
      (Json.obj object).Ok ∧
      (Json.obj object).Strings fun s => ∀ c ∈ s, isRawSeparator c = false := by
  have hfield : OneData event ("data: ".py ++ s) →
      dataField event = some (s.dropWhile PyChar.isSpace) := by
    intro hone
    have hspace : PyChar.isSpace (.scalar ' ') = true := by decide
    rw [dataField_eq hone, drop_data, List.dropWhile_cons_of_pos hspace]
  constructor
  · rintro ⟨⟨d, hd, hsame⟩, ⟨f, hf, hfsame⟩, text, htext, ⟨d', hd', hload⟩, line, hline⟩
    rw [rebuildObject_eq_ok htext] at hd' hline
    rw [clientLines_rebuildEvent hboundary (splitlines_rstrip_ne_nil hboundary hd')
      (isNewline_render _ _)] at hline
    have hbreak := not_isLineBreak_of_kept h (List.append_inj_left' hline rfl)
    have hsep : NoSeparator (before ++ s :: behind) := by
      intro l hl c hc
      refine isSeparator_eq_false ?_
      simp only [List.mem_append, List.mem_cons] at hl
      rcases hl with hl | rfl | hl
      · exact hbreak l (by simp [hl]) c hc
      · exact not_isLineBreak_of_sameText hd hsame c hc
      · exact hbreak l (by simp [hl]) c hc
    rw [hfield (h.oneData hsep)] at hf
    rw [← Option.some.inj hf] at hfsame
    exact ⟨hsep, (sameText_field_iff s).mp hfsame, loads_ok hload,
      strings_of_rebuilt h hsep (fun l hl => hbreak l (by simp [hl])) hd' hload⟩
  · rintro ⟨hsep, hspace, hok, hstrings⟩
    have hone := h.oneData hsep
    have hdata := isNewline_render (F := F) ⟨false, false⟩ (.obj object)
    have hrebuilt := h.rebuilt hsep hboundary hdata
    have hsepNew : NoSeparator (before ++ render ⟨false, false⟩ (.obj object) :: behind) := by
      have hascii : (⟨false, false⟩ : Style).ascii = false := rfl
      have hraw := (forall_mem_render_iff (fun c => beyond_of_isRawSeparator) hascii _).mpr hstrings
      intro l hl c hc
      simp only [List.mem_append, List.mem_cons] at hl
      rcases hl with hl | rfl | hl
      · exact hsep l (by simp [hl]) c hc
      · refine isSeparator_eq_false ?_
        by_contra hne
        have hsep := (isLineBreak_iff_isRawSeparator (printable_render _ _ c hc)).mp (by simpa using hne)
        rw [hraw c hc] at hsep
        cases hsep
      · exact hsep l (by simp [hl]) c hc
    refine ⟨⟨_, extractDataLine_eq hone, ?_⟩, ⟨_, hfield hone, (sameText_field_iff s).mpr hspace⟩,
      _, by rw [rebuildObject, dumps_eq _ hok]; rfl,
      ⟨_, extractDataLine_eq (hrebuilt.oneData hsepNew), ?_⟩, _, hrebuilt.lines⟩
    · rw [drop_data, SameText, List.dropWhile_cons_of_pos rfl, List.dropWhile_idempotent]
    · rw [drop_data, loads_dropWhile_space, loads_space, loads_render _ hok (by simp)]

end RoundTrip

/-- An event with a name: its data are read, and an object is written in their place. -/
theorem survives_named_event :
    let event := "event: ping\ndata: \x7b\"a\": 1\x7d\n\n".py
    let s := "\x7b\"a\": 1\x7d".py
    let object : Fields Literal := [("b".py, .str "c".py)]
    DataEvent event ["event: ping".py] s [] ∧ "\n\n".py ∈ boundaries ∧
      Survives event ["event: ping".py] s [] object "\n\n".py := by
  intro event s object
  have hevent : DataEvent event ["event: ping".py] s [] := ⟨by decide, by decide⟩
  have hboundary : "\n\n".py ∈ boundaries := by simp [boundaries]
  have hsep : NoSeparator (["event: ping".py] ++ s :: []) := by
    unfold NoSeparator
    decide
  have hok : (Json.obj object).Ok := .obj (by decide) (by simpa [object] using Ok.str _)
  have hstrings : (Json.obj object).Strings fun s => ∀ c ∈ s, isRawSeparator c = false := by
    refine .obj (by simp only [object]; decide) fun e he => ?_
    rw [List.mem_singleton.mp he]
    exact .str (by decide)
  exact ⟨hevent, hboundary, (survives_iff hevent hboundary object).mpr
    ⟨hsep, by decide, hok, hstrings⟩⟩

/-- A line separator inside a string of the data: the line is cut there, and what is read is
no JSON text. -/
theorem separator_cuts_data :
    let s := "\x7b\"a\": \"x\u2028y\"\x7d".py
    let event := "data: ".py ++ s ++ "\n\n".py
    DataEvent event [] s [] ∧
      loads s = .ok (.obj [("a".py, .str "x\u2028y".py)] : Json Literal) ∧
      extractDataLine event = some "\x7b\"a\": \"x".py ∧
      ∀ object : Fields Literal, ¬ Survives event [] s [] object "\n\n".py := by
  intro s event
  have hextract : extractDataLine event = some "\x7b\"a\": \"x".py := by decide
  refine ⟨⟨by decide, by decide⟩, ?_, hextract, fun object h => ?_⟩
  · have hrender : s = render ⟨false, false⟩ (.obj [("a".py, .str "x\u2028y".py)] : Json Literal) := by
      decide
    rw [hrender, loads_render _ (.obj (by decide) (by simpa using Ok.str _)) (by simp)]
  · obtain ⟨d, hd, hsame⟩ := h.extracted
    rw [hextract] at hd
    rw [← Option.some.inj hd] at hsame
    exact absurd hsame (by unfold SameText; decide)

end CorpLlmGateway.RouteGate
