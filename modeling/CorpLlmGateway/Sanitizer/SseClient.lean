import CorpLlmGateway.Sanitizer.Sse

/-!
# What a client reads from an event

A client of the event-stream format ends a line at `\r`, `\n` or `\r\n` and nowhere else,
unlike `str.splitlines()`, and reads the value on the data lines. The code reads its own
events another way, so what it writes is judged by this reading.

* `eventData_rebuildEvent` — a rebuilt event carries the new text and nothing else;
* `extractDataLine_eq` — on an event without other line separators the code and the
  client read the same line.
-/

namespace CorpLlmGateway.Sanitizer

open TextScan Json PyStr

/-- The lines of an event. -/
def clientLines (event : PyStr) : List PyStr := linesFrom isNewline [] event

/-- The data lines of an event. -/
def dataLines (event : PyStr) : List PyStr := (clientLines event).filter isDataLine

/-- The data of an event: what stands on its data lines, joined. A space behind `data:` is
kept, since it means nothing to the reader of the value. -/
def eventData (event : PyStr) : Option PyStr :=
  match dataLines event with
  | [] => none
  | lines => some ("\n".py.intercalate (lines.map fun line => line.drop 5))

/-- The value of an event, `null` for one that carries none. -/
def eventValue (F : Type) [Floats F] (event : PyStr) : Json F :=
  match eventData event with
  | none => .null
  | some data =>
      match loads data with
      | .ok value => value
      | .error _ => .null

/-! ## Joined lines -/

/-- The boundaries an event can end with. -/
def boundaries : List PyStr := ["\r\n\r\n".py, "\n\n".py, "\r\r".py]

theorem linesFrom_boundary {boundary : PyStr} (h : boundary ∈ boundaries) (line : PyStr) :
    linesFrom isNewline line boundary = [line, []] := by
  simp only [boundaries, List.mem_cons, List.not_mem_nil, or_false] at h
  rcases h with rfl | rfl | rfl
  all_goals simp [linesFrom, isNewline]

/-- Lines that are joined and ended by a boundary are read back. -/
theorem clientLines_intercalate {sep boundary : PyStr}
    (hsep : sep = "\r\n".py ∨ sep = "\n".py) (hboundary : boundary ∈ boundaries)
    {lines : List PyStr} (hne : lines ≠ []) (hlines : ∀ l ∈ lines, ∀ c ∈ l, isNewline c = false) :
    clientLines (sep.intercalate lines ++ boundary) = lines ++ [[]] := by
  induction lines with
  | nil => exact absurd rfl hne
  | cons l lines ih =>
    obtain ⟨hl, hlines⟩ := List.forall_mem_cons.mp hlines
    have hread : ∀ s, clientLines (l ++ s) = linesFrom isNewline l s := fun s =>
      linesFrom_append fun c hc => ⟨hl c hc, hl c hc⟩
    cases lines with
    | nil => rw [List.intercalate_singleton, hread, linesFrom_boundary hboundary]; rfl
    | cons l' lines =>
      rw [List.intercalate_cons_cons, List.append_assoc, List.append_assoc, hread,
        linesFrom_sep rfl hsep]
      exact congrArg (l :: ·) (ih (by simp) hlines)

/-- The boundary of an event. -/
theorem boundaryFrom_mem (event : PyStr) : boundaryFrom event ∈ boundaries := by
  have hspec : ∀ {text : PyStr} {p : ℕ × ℕ}, firstBoundary text = some p →
      (text.drop p.1).take p.2 ∈ boundaries := by
    intro text
    induction text with
    | nil => simp [firstBoundary]
    | cons c s ih =>
      intro p hp
      rw [firstBoundary] at hp
      split at hp
      · next n hlen =>
        cases hp
        unfold boundaryLen at hlen
        split at hlen
        · next hpre =>
          cases hlen
          obtain ⟨u, hu⟩ := hpre
          simp [← hu, boundaries]
        · split at hlen
          · next hpre =>
            cases hlen
            rcases hpre with ⟨u, hu⟩ | ⟨u, hu⟩ <;> simp [← hu, boundaries]
          · cases hlen
      · obtain ⟨q, hq, rfl⟩ := Option.map_eq_some_iff.mp hp
        exact ih hq
  rw [boundaryFrom, searchBoundary_eq]
  cases hp : firstBoundary event with
  | none => simp [boundaries]
  | some p => simpa [slice] using hspec hp

/-! ## Events -/

theorem isNewline_of_printable {c : PyChar} (h : Printable c) : isNewline c = false := by
  cases hc : isNewline c with
  | false => rfl
  | true =>
    rcases Bool.or_eq_true _ _ ▸ hc with hc | hc
    · exact absurd (eq_of_beq hc ▸ h) (by decide)
    · exact absurd (eq_of_beq hc ▸ h) (by decide)

/-- An event without other line separators that has one data line. -/
structure OneData (event line : PyStr) : Prop where
  breaks : ∀ c ∈ event, isLineBreak c = true → isNewline c = true
  one : dataLines event = [line]

section OneData

variable {event line : PyStr}

theorem OneData.splitlines_eq (h : OneData event line) : splitlines event = clientLines event := by
  refine linesFrom_congr fun c hc => ?_
  cases hb : isLineBreak c with
  | false => rw [isNewline_of_isLineBreak hb]
  | true => rw [h.breaks c hc hb]

/-- The code reads the line that the client reads. -/
theorem extractDataLine_eq (h : OneData event line) :
    extractDataLine event = some ((line.drop 5).dropWhile (· == .scalar ' ')) := by
  have hone : ((splitlines event).filter isDataLine).head? = some line := by
    rw [h.splitlines_eq]
    exact congrArg List.head? h.one
  rw [List.head?_filter] at hone
  rw [extractDataLine, hone]
  rfl

theorem eventData_eq (h : dataLines event = [line]) : eventData event = some (line.drop 5) := by
  rw [eventData, h]
  simp

/-- The newlines at the end of an event only add empty lines. -/
theorem splitlines_rstrip (event : PyStr) :
    ∃ k, splitlines event = splitlines (rstripNewlines event) ++ List.replicate k [] := by
  obtain ⟨t, ht, hevent⟩ : ∃ t : PyStr, (∀ c ∈ t, isNewline c = true) ∧
      event = rstripNewlines event ++ t := by
    refine ⟨(event.reverse.takeWhile isNewline).reverse, fun c hc => ?_, ?_⟩
    · exact List.all_eq_true.mp List.all_takeWhile c (List.mem_reverse.mp hc)
    · have hsplit := List.takeWhile_append_dropWhile (p := isNewline) (l := event.reverse)
      have hrev := congrArg List.reverse hsplit
      rw [List.reverse_append, List.reverse_reverse] at hrev
      exact hrev.symm
  obtain ⟨k, hk⟩ : ∃ k, linesFrom isLineBreak [] (rstripNewlines event ++ t) =
      linesFrom isLineBreak [] (rstripNewlines event) ++ List.replicate k [] :=
    linesFrom_newlines (by decide) (by decide) ht
  rw [← hevent] at hk
  exact ⟨k, hk⟩

/-- The data lines of the event without the newlines at its end. -/
theorem OneData.rstrip (h : OneData event line) :
    (splitlines (rstripNewlines event)).filter isDataLine = [line] := by
  obtain ⟨k, hk⟩ := splitlines_rstrip event
  have hone : (splitlines event).filter isDataLine = [line] := by
    rw [h.splitlines_eq]
    exact h.one
  rw [hk, List.filter_append] at hone
  simpa [List.filter_replicate, isDataLine] using hone

theorem isDataLine_data (data : PyStr) : isDataLine ("data: ".py ++ data) = true := by
  simp [isDataLine]

theorem isNewline_data {data : PyStr} (hdata : ∀ c ∈ data, isNewline c = false) :
    ∀ c ∈ "data: ".py ++ data, isNewline c = false := by
  have hname : ∀ c ∈ "data: ".py, isNewline c = false := by
    simp [isNewline]
  exact fun c hc => (List.mem_append.mp hc).elim (hname c) (hdata c)

/-- A line of a rebuilt event. -/
def withData (data line : PyStr) : PyStr :=
  if isDataLine line then "data: ".py ++ data else line

theorem isDataLine_withData (data line : PyStr) :
    isDataLine (withData data line) = isDataLine line := by
  unfold withData
  split
  · next hl => rw [isDataLine_data, hl]
  · rfl

/-- New data on the data line, nothing else changed. -/
theorem filter_withData (h : OneData event line) (data : PyStr) :
    ((splitlines (rstripNewlines event)).map (withData data)).filter isDataLine =
      ["data: ".py ++ data] := by
  have hline : isDataLine line = true := by
    have hmem : line ∈ dataLines event := h.one ▸ List.mem_singleton_self line
    exact (List.mem_filter.mp hmem).2
  have hsame : isDataLine ∘ withData data = isDataLine := funext (isDataLine_withData data)
  rw [List.filter_map, hsame, h.rstrip, List.map_singleton, withData, if_pos hline]

theorem isNewline_withData {data : PyStr} (hdata : ∀ c ∈ data, isNewline c = false) (s : PyStr) :
    ∀ l ∈ (splitlines s).map (withData data), ∀ c ∈ l, isNewline c = false := by
  intro l hl
  obtain ⟨l, hmem, rfl⟩ := List.mem_map.mp hl
  have hbreak : ∀ c ∈ l, isLineBreak c = false :=
    not_isBreak_of_mem_linesFrom (by simp) l hmem
  unfold withData
  split
  · exact isNewline_data hdata
  · exact fun c hc => isNewline_of_isLineBreak (hbreak c hc)

/-- **A rebuilt event** carries the new text. -/
theorem eventData_rebuildEvent (h : OneData event line) {data : PyStr}
    (hdata : ∀ c ∈ data, isNewline c = false) :
    eventData (rebuildEvent event data (boundaryFrom event)) = some (.scalar ' ' :: data) := by
  have hnew := filter_withData h data
  have hne : (splitlines (rstripNewlines event)).map (withData data) ≠ [] := by
    intro hnil
    rw [hnil] at hnew
    cases hnew
  have hlines : clientLines (rebuildEvent event data (boundaryFrom event)) =
      (splitlines (rstripNewlines event)).map (withData data) ++ [[]] :=
    clientLines_intercalate (by split <;> simp) (boundaryFrom_mem event) hne
      (isNewline_withData hdata _)
  have hread : dataLines (rebuildEvent event data (boundaryFrom event)) =
      ["data: ".py ++ data] := by
    rw [dataLines, hlines, List.filter_append, hnew]
    rfl
  rw [eventData_eq hread]
  rfl

/-- An event of one data line. -/
theorem dataLines_line {data : PyStr} (hdata : ∀ c ∈ data, isNewline c = false) :
    dataLines ("data: ".py ++ data ++ "\n\n".py) = ["data: ".py ++ data] := by
  have hlines : clientLines ("\n".py.intercalate ["data: ".py ++ data] ++ "\n\n".py) =
      ["data: ".py ++ data] ++ [[]] := by
    refine clientLines_intercalate (.inr rfl) (by simp [boundaries]) (by simp) fun l hl => ?_
    rw [List.mem_singleton.mp hl]
    exact isNewline_data hdata
  rw [List.intercalate_singleton] at hlines
  rw [dataLines, hlines, List.singleton_append, List.filter_cons_of_pos (isDataLine_data data)]
  rfl

theorem eventData_line {data : PyStr} (hdata : ∀ c ∈ data, isNewline c = false) :
    eventData ("data: ".py ++ data ++ "\n\n".py) = some (.scalar ' ' :: data) := by
  rw [eventData_eq (dataLines_line hdata)]
  rfl

end OneData

/-! ## Values -/

section Values

variable {F : Type} [Floats F] {event : PyStr}

theorem eventValue_of_data {data : PyStr} {value : Json F} (h : eventData event = some data)
    (hvalue : loads data = .ok value) : eventValue F event = value := by
  rw [eventValue, h]
  simp only [hvalue]

/-- A value that is written into an event is what the client reads from it. -/
theorem eventValue_of_render {style : Style} (hstyle : style.ascii = false) {value : Json F}
    (hvalue : value.Ok) (h : eventData event = some (.scalar ' ' :: render style value)) : eventValue F event = value :=
  eventValue_of_data h (by rw [loads_space, loads_render style hvalue (by simp [hstyle])])

end Values

end CorpLlmGateway.Sanitizer
