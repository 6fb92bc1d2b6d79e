import CorpLlmGateway.Text.PyStr

/-!
# Lines of a text

`str.splitlines()`, and the same division at `\r`, `\n` and `\r\n` alone.

* `linesFrom_append`, `linesFrom_sep` — a line and the break behind it are read off;
* `linesFrom_of_newlines`, `linesFrom_newlines` — what trailing breaks add;
* `linesFrom_congr` — two sets of breaks that agree on a text divide it alike.
-/

namespace PyStr

/-- The characters that end a line of an event stream. -/
def isNewline (c : PyChar) : Bool := c == .scalar '\r' || c == .scalar '\n'

/-- The characters at which `str.splitlines()` ends a line. -/
def isLineBreak (c : PyChar) : Bool :=
  c.code ∈ [0x0A, 0x0B, 0x0C, 0x0D, 0x1C, 0x1D, 0x1E, 0x85, 0x2028, 0x2029]

/-- The lines of a text, from a line on of which `line` has been read; `\r\n` is one break,
and what follows the last break is a line unless it is empty. -/
def linesFrom (isBreak : PyChar → Bool) : PyStr → PyStr → List PyStr
  | line, [] => if line = [] then [] else [line]
  | line, .scalar '\r' :: .scalar '\n' :: s => line :: linesFrom isBreak [] s
  | line, c :: s =>
      if isBreak c then line :: linesFrom isBreak [] s else linesFrom isBreak (line ++ [c]) s

/-- `text.splitlines()`. -/
def splitlines (text : PyStr) : List PyStr := linesFrom isLineBreak [] text

section Lines

variable {isBreak : PyChar → Bool} {line l s : PyStr}

theorem linesFrom_cons {c : PyChar} (hc : c ≠ .scalar '\r') :
    linesFrom isBreak line (c :: s) =
      if isBreak c then line :: linesFrom isBreak [] s else linesFrom isBreak (line ++ [c]) s := by
  rw [linesFrom]
  rintro s' rfl
  exact absurd rfl hc

/-- Characters that end no line are read into the line. -/
theorem linesFrom_append (hl : ∀ c ∈ l, isNewline c = false ∧ isBreak c = false) :
    linesFrom isBreak line (l ++ s) = linesFrom isBreak (line ++ l) s := by
  induction l generalizing line with
  | nil => simp
  | cons c l ih =>
    obtain ⟨⟨hnl, hbreak⟩, hl⟩ := List.forall_mem_cons.mp hl
    have hc : c ≠ .scalar '\r' := by
      rintro rfl
      exact absurd hnl (by decide)
    rw [List.cons_append, linesFrom_cons hc, hbreak, if_neg (by simp), ih hl]
    simp

/-- The lines hold no break. -/
theorem not_isBreak_of_mem_linesFrom (hline : ∀ c ∈ line, isBreak c = false) :
    ∀ l ∈ linesFrom isBreak line s, ∀ c ∈ l, isBreak c = false := by
  fun_induction linesFrom isBreak line s with
  | case1 => simp
  | case2 line hne => simpa using hline
  | case3 line s ih => exact List.forall_mem_cons.mpr ⟨hline, ih (by simp)⟩
  | case4 line c s hcrlf hbreak ih => exact List.forall_mem_cons.mpr ⟨hline, ih (by simp)⟩
  | case5 line c s hcrlf hbreak ih =>
    exact ih (List.forall_mem_append.mpr ⟨hline, by simpa using hbreak⟩)

/-- The line in progress, as a line if there is one. -/
def openLine (line : PyStr) : List PyStr := if line = [] then [] else [line]

theorem openLine_append (line : PyStr) (k : ℕ) :
    ∃ k', line :: List.replicate k [] = openLine line ++ List.replicate k' [] := by
  by_cases hline : line = []
  · exact ⟨k + 1, by simp [openLine, hline, List.replicate_succ]⟩
  · exact ⟨k, by simp [openLine, hline]⟩

section Newlines

variable (hcr : isBreak (.scalar '\r') = true) (hlf : isBreak (.scalar '\n') = true)

include hcr hlf

theorem isBreak_of_isNewline {c : PyChar} (hc : isNewline c = true) : isBreak c = true := by
  rcases Bool.or_eq_true _ _ ▸ hc with h | h
  · rwa [eq_of_beq h]
  · rwa [eq_of_beq h]

/-- Newlines alone end the line in progress and add empty ones. -/
theorem linesFrom_of_newlines (line : PyStr) {t : PyStr} (ht : ∀ c ∈ t, isNewline c = true) :
    ∃ k, linesFrom isBreak line t = openLine line ++ List.replicate k [] := by
  fun_induction linesFrom isBreak line t with
  | case1 => exact ⟨0, by simp [openLine]⟩
  | case2 line hne => exact ⟨0, by simp [openLine, hne]⟩
  | case3 line s ih =>
    obtain ⟨k, hk⟩ := ih fun c hc => ht c (by simp [hc])
    rw [hk]
    exact openLine_append line k
  | case4 line c s hcrlf hbreak ih =>
    obtain ⟨k, hk⟩ := ih fun c hc => ht c (by simp [hc])
    rw [hk]
    exact openLine_append line k
  | case5 line c s hcrlf hbreak ih =>
    exact absurd (isBreak_of_isNewline hcr hlf (ht c List.mem_cons_self)) hbreak

/-- Newlines at the end add nothing but empty lines. -/
theorem linesFrom_newlines {t : PyStr} (ht : ∀ c ∈ t, isNewline c = true) :
    ∃ k, linesFrom isBreak line (s ++ t) = linesFrom isBreak line s ++ List.replicate k [] := by
  fun_induction linesFrom isBreak line s with
  | case1 => simpa [openLine] using linesFrom_of_newlines hcr hlf [] ht
  | case2 line hne => simpa [openLine, hne] using linesFrom_of_newlines hcr hlf line ht
  | case3 line s ih =>
    obtain ⟨k, hk⟩ := ih
    exact ⟨k, by rw [List.cons_append, List.cons_append, linesFrom, hk, List.cons_append]⟩
  | case4 line c s hcrlf hbreak ih =>
    by_cases hsplit : c = .scalar '\r' ∧ s = [] ∧ t.head? = some (.scalar '\n')
    · -- the newline at the end of the text and the one behind it are one break
      obtain ⟨rfl, rfl, hhead⟩ := hsplit
      obtain ⟨t, rfl⟩ : ∃ t', t = .scalar '\n' :: t' := by
        cases t with
        | nil => cases hhead
        | cons d t => exact ⟨t, by rw [Option.some.inj hhead]⟩
      obtain ⟨k, hk⟩ := linesFrom_of_newlines hcr hlf [] fun c hc =>
        ht c (List.mem_cons_of_mem _ hc)
      have hone : linesFrom isBreak line (.scalar '\r' :: .scalar '\n' :: t) = line :: linesFrom isBreak [] t := by
        rw [linesFrom]
      exact ⟨k, by simp [hone, hk, openLine, linesFrom]⟩
    · obtain ⟨k, hk⟩ := ih
      refine ⟨k, ?_⟩
      rw [List.cons_append, linesFrom, if_pos hbreak, hk, List.cons_append]
      rintro s' rfl hs
      cases s with
      | nil => exact hsplit ⟨rfl, rfl, by rw [List.nil_append] at hs; rw [hs]; rfl⟩
      | cons d s =>
        rw [List.cons_append, List.cons.injEq] at hs
        exact hcrlf s rfl (by rw [hs.1])
  | case5 line c s hcrlf hbreak ih =>
    obtain ⟨k, hk⟩ := ih
    have hc : c ≠ .scalar '\r' := by
      rintro rfl
      exact hbreak hcr
    exact ⟨k, by rw [List.cons_append, linesFrom_cons hc, if_neg hbreak, hk]⟩

end Newlines

/-- Every character that ends no line is on a line. -/
theorem mem_linesFrom {c : PyChar} (hc : isNewline c = false ∧ isBreak c = false)
    (hmem : c ∈ line ++ s) : ∃ l ∈ linesFrom isBreak line s, c ∈ l := by
  fun_induction linesFrom isBreak line s with
  | case1 => simp at hmem
  | case2 line hne => exact ⟨line, List.mem_singleton_self _, by simpa using hmem⟩
  | case3 line s ih =>
    have hcr : c ≠ .scalar '\r' := by rintro rfl; exact absurd hc.1 (by decide)
    have hlf : c ≠ .scalar '\n' := by rintro rfl; exact absurd hc.1 (by decide)
    simp only [List.mem_append, List.mem_cons, hcr, hlf, false_or] at hmem
    rcases hmem with hmem | hmem
    · exact ⟨line, List.mem_cons_self, hmem⟩
    · obtain ⟨l, hl, hcl⟩ := ih (by simpa using hmem)
      exact ⟨l, List.mem_cons_of_mem _ hl, hcl⟩
  | case4 line d s hcrlf hbreak ih =>
    have hd : c ≠ d := by rintro rfl; simp [hc.2] at hbreak
    simp only [List.mem_append, List.mem_cons, hd, false_or] at hmem
    rcases hmem with hmem | hmem
    · exact ⟨line, List.mem_cons_self, hmem⟩
    · obtain ⟨l, hl, hcl⟩ := ih (by simpa using hmem)
      exact ⟨l, List.mem_cons_of_mem _ hl, hcl⟩
  | case5 line d s hcrlf hbreak ih => exact ih (by simpa using hmem)

/-- A text that does not end with a break ends with a line that is not empty. -/
theorem linesFrom_concat {c : PyChar} (hc : isNewline c = false ∧ isBreak c = false) :
    ∃ lines l, linesFrom isBreak line (s ++ [c]) = lines ++ [l ++ [c]] := by
  have hcr : c ≠ .scalar '\r' := by rintro rfl; exact absurd hc.1 (by decide)
  have hlf : c ≠ .scalar '\n' := by rintro rfl; exact absurd hc.1 (by decide)
  have hend : ∀ line, linesFrom isBreak line [c] = [line ++ [c]] := by
    intro line
    simp [linesFrom_cons hcr, hc.2, linesFrom]
  -- a `\r` in front of the last character is not half of a break of two
  have hpair : ∀ {d : PyChar} {s : PyStr}, (∀ s', d = .scalar '\r' → s = .scalar '\n' :: s' → False) →
      ∀ s', d = .scalar '\r' → s ++ [c] = .scalar '\n' :: s' → False := by
    intro d s hcrlf s' hd hs
    cases s with
    | nil => exact hlf (List.cons.inj hs).1
    | cons e s => exact hcrlf s hd (by rw [(List.cons.inj hs).1])
  fun_induction linesFrom isBreak line s with
  | case1 => exact ⟨[], [], hend []⟩
  | case2 line hne => exact ⟨[], line, hend line⟩
  | case3 line s ih =>
    obtain ⟨lines, l, ih⟩ := ih
    exact ⟨line :: lines, l, by simp [linesFrom, ih]⟩
  | case4 line d s hcrlf hbreak ih =>
    obtain ⟨lines, l, ih⟩ := ih
    exact ⟨line :: lines, l, by
      rw [List.cons_append, linesFrom, if_pos hbreak, ih, List.cons_append]; exact hpair hcrlf⟩
  | case5 line d s hcrlf hbreak ih =>
    obtain ⟨lines, l, ih⟩ := ih
    exact ⟨lines, l, by rw [List.cons_append, linesFrom, if_neg hbreak, ih]; exact hpair hcrlf⟩

/-- Two ways of breaking lines that agree on the characters of a text. -/
theorem linesFrom_congr {isBreak' : PyChar → Bool} (h : ∀ c ∈ s, isBreak c = isBreak' c) :
    linesFrom isBreak line s = linesFrom isBreak' line s := by
  fun_induction linesFrom isBreak line s with
  | case1 => rw [linesFrom, if_pos rfl]
  | case2 line hne => rw [linesFrom, if_neg hne]
  | case3 line s ih =>
    rw [linesFrom, ih fun c hc => h c (by simp [hc])]
  | case4 line c s hcrlf hbreak ih =>
    rw [linesFrom, ← h c List.mem_cons_self, if_pos hbreak, ih fun c hc => h c (by simp [hc])]
    exact hcrlf
  | case5 line c s hcrlf hbreak ih =>
    rw [linesFrom, ← h c List.mem_cons_self, if_neg hbreak, ih fun c hc => h c (by simp [hc])]
    exact hcrlf

end Lines

theorem linesFrom_sep {isBreak : PyChar → Bool} (hlf : isBreak (.scalar '\n') = true) {sep : PyStr}
    (h : sep = "\r\n".py ∨ sep = "\n".py) (line s : PyStr) :
    linesFrom isBreak line (sep ++ s) = line :: linesFrom isBreak [] s := by
  rcases h with rfl | rfl
  all_goals simp [linesFrom, hlf]

theorem isLineBreak_of_isNewline {c : PyChar} (h : isNewline c = true) : isLineBreak c = true :=
  isBreak_of_isNewline (by decide) (by decide) h

theorem isNewline_of_isLineBreak {c : PyChar} (h : isLineBreak c = false) : isNewline c = false := by
  cases hc : isNewline c with
  | false => rfl
  | true => exact absurd (isLineBreak_of_isNewline hc) (by simp [h])

end PyStr
