import CorpLlmGateway.Json.Grammar
import CorpLlmGateway.Text.Scan

/-!
# The object in an answer

`_extract_json_snippet` of `sanitizer/strategies.py`, which looks for the JSON object in the
text of an answer: a scan from the first brace on that counts braces outside of strings.

* `Passes` — the scan reads through a text and is as deep behind it as before;
* `passes_of_derives` — it reads through everything the grammar derives;
* `extractJsonSnippet_object` — the object that begins at the first brace is found.
-/

namespace CorpLlmGateway.Sanitizer

open Json PyStr TextScan

/-! ## The scan -/

/-- The variables of the loop. -/
structure SnippetScan where
  depth : ℤ
  inString : Bool
  escape : Bool

/-- The loop from index `i` on: where the slice that it returns ends. -/
def snippetStop (st : SnippetScan) (i : ℕ) : PyStr → Option ℕ
  | [] => none
  | c :: s =>
      if st.escape then snippetStop { st with escape := false } (i + 1) s
      else if st.inString then
        if c = .scalar '\\' then snippetStop { st with escape := true } (i + 1) s
        else if c = .scalar '"' then snippetStop { st with inString := false } (i + 1) s
        else snippetStop st (i + 1) s
      else if c = .scalar '"' then snippetStop { st with inString := true } (i + 1) s
      else if c = .scalar '{' then snippetStop { st with depth := st.depth + 1 } (i + 1) s
      else if c = .scalar '}' then
        if st.depth - 1 = 0 then some (i + 1)
        else snippetStop { st with depth := st.depth - 1 } (i + 1) s
      else snippetStop st (i + 1) s

/-- `_extract_json_snippet(text)`. -/
def extractJsonSnippet (text : PyStr) : Option PyStr :=
  (text.findIdx? (· == .scalar '{')).bind fun start =>
    (snippetStop ⟨0, false, false⟩ start (text.drop start)).map fun stop => slice text start stop

/-- Outside of strings. -/
abbrev SnippetScan.at (depth : ℤ) : SnippetScan := ⟨depth, false, false⟩

/-! ## Texts that are read through -/

/-- Inside of an object, the scan reads through the text and is as deep behind it. -/
def Passes (s : PyStr) : Prop :=
  ∀ (depth : ℤ) (i : ℕ) (rest : PyStr), 0 < depth →
    snippetStop (.at depth) i (s ++ rest) = snippetStop (.at depth) (i + s.length) rest

theorem passes_nil : Passes [] := by
  intro depth i rest _
  rfl

theorem Passes.append {s t : PyStr} (hs : Passes s) (ht : Passes t) : Passes (s ++ t) := by
  intro depth i rest hdepth
  rw [List.append_assoc, hs depth i _ hdepth, ht depth _ _ hdepth, List.length_append,
    Nat.add_assoc]

/-- A character that neither opens nor closes anything the scan looks at. -/
def IsPlain (c : PyChar) : Prop := c ≠ .scalar '"' ∧ c ≠ .scalar '{' ∧ c ≠ .scalar '}'

instance : DecidablePred IsPlain := fun _ => inferInstanceAs (Decidable (_ ∧ _ ∧ _))

theorem passes_cons {c : PyChar} (hc : IsPlain c) {s : PyStr} (hs : Passes s) : Passes (c :: s) := by
  intro depth i rest hdepth
  have hstep : snippetStop (.at depth) i (c :: (s ++ rest)) =
      snippetStop (.at depth) (i + 1) (s ++ rest) := by
    simp [snippetStop, hc.1, hc.2.1, hc.2.2]
  rw [List.cons_append, hstep, hs depth _ _ hdepth, List.length_cons, Nat.add_right_comm,
    Nat.add_assoc]

theorem passes_plain {s : PyStr} (hs : ∀ c ∈ s, IsPlain c) : Passes s := by
  induction s with
  | nil => exact passes_nil
  | cons c s ih =>
    obtain ⟨hc, hs⟩ := List.forall_mem_cons.mp hs
    exact passes_cons hc (ih hs)

/-! ## What the grammar derives -/

theorem isPlain_of_isSpace {d : Char} (hd : isSpace d = true) : IsPlain (.scalar d) := by
  simp only [isSpace, Bool.or_eq_true, beq_iff_eq] at hd
  rcases hd with ((rfl | rfl) | rfl) | rfl
  all_goals decide

theorem passes_spaces {w : PyStr} (hw : Spaces w) : Passes w := by
  apply passes_plain
  intro c hc
  obtain ⟨d, rfl, hd⟩ := hw c hc
  exact isPlain_of_isSpace hd

theorem isPlain_of_isNumberChar {c : Char} (hc : isNumberChar c = true) : IsPlain (.scalar c) := by
  refine ⟨?_, ?_, ?_⟩
  all_goals
    rintro ⟨rfl⟩
    exact absurd hc (by decide)

theorem passes_number {l : List Char} (hl : NumberText l) : Passes (ofText l) := by
  obtain ⟨b, hscan⟩ := hl
  apply passes_plain
  intro c hc
  obtain ⟨d, hd, rfl⟩ := List.mem_map.mp hc
  have hnumber := mem_take_scanNumber hscan d
  rw [List.take_length] at hnumber
  exact isPlain_of_isNumberChar (hnumber hd)

theorem passes_word {w : List Char × Tok} (hw : w ∈ words) : Passes (ofText w.1) := by
  apply passes_plain
  revert w
  decide

/-- Inside of a string, the scan reads a unit and stays in the string: the character behind a
backslash is skipped, and no other unit has a quote. -/
theorem snippetStop_unit {u : PyStr} (hu : StringUnit u) (depth : ℤ) (i : ℕ) (rest : PyStr) :
    snippetStop ⟨depth, true, false⟩ i (u ++ rest) =
      snippetStop ⟨depth, true, false⟩ (i + u.length) rest := by
  cases hu with
  | plain hquote hslash _ => simp [snippetStop, hquote, hslash]
  | simple _ => simp [snippetStop, Nat.add_assoc]
  | @hex digits hlen hdigits =>
    have hne : ∀ d ∈ digits, d ≠ '\\' ∧ d ≠ '"' := by
      intro d hd
      refine ⟨?_, ?_⟩
      all_goals
        rintro rfl
        exact absurd (hdigits _ hd) (by decide)
    match digits, hlen with
    | [a, b, c, d], _ =>
      simp only [List.forall_mem_cons] at hne
      simp [snippetStop, hne, Nat.add_assoc]

theorem snippetStop_units {units : List PyStr} (hunits : ∀ u ∈ units, StringUnit u) (depth : ℤ)
    (i : ℕ) (rest : PyStr) :
    snippetStop ⟨depth, true, false⟩ i (units.flatten ++ rest) =
      snippetStop ⟨depth, true, false⟩ (i + units.flatten.length) rest := by
  induction units generalizing i with
  | nil => rfl
  | cons u units ih =>
    obtain ⟨hu, hunits⟩ := List.forall_mem_cons.mp hunits
    rw [List.flatten_cons, List.append_assoc, snippetStop_unit hu, ih hunits, List.length_append,
      Nat.add_assoc]

theorem passes_string {s : PyStr} (hs : StringText s) : Passes s := by
  obtain ⟨units, hunits, rfl⟩ := hs
  intro depth i rest _
  have hopen : snippetStop (.at depth) i (.scalar '"' :: (units.flatten ++ .scalar '"' :: rest)) =
      snippetStop ⟨depth, true, false⟩ (i + 1) (units.flatten ++ .scalar '"' :: rest) := by
    simp [snippetStop]
  have hclose : ∀ j, snippetStop ⟨depth, true, false⟩ j (.scalar '"' :: rest) =
      snippetStop (.at depth) (j + 1) rest := by
    intro j
    simp [snippetStop]
  have htext : PyChar.scalar '"' :: (units.flatten ++ [.scalar '"']) ++ rest =
      .scalar '"' :: (units.flatten ++ .scalar '"' :: rest) := by
    simp
  rw [htext, hopen, snippetStop_units hunits, hclose]
  congr 1
  simp only [List.length_cons, List.length_append, List.length_nil]
  omega

/-- Braces around a text that is read through. -/
theorem snippetStop_braces {s : PyStr} (hs : Passes s) {depth : ℤ} (hdepth : 0 ≤ depth) (i : ℕ)
    (rest : PyStr) :
    snippetStop (.at depth) i (.scalar '{' :: (s ++ [.scalar '}']) ++ rest) =
      if depth = 0 then some (i + (s.length + 2))
      else snippetStop (.at depth) (i + (s.length + 2)) rest := by
  have htext : PyChar.scalar '{' :: (s ++ [.scalar '}']) ++ rest =
      .scalar '{' :: (s ++ .scalar '}' :: rest) := by
    simp
  have hopen : snippetStop (.at depth) i (.scalar '{' :: (s ++ .scalar '}' :: rest)) =
      snippetStop (.at (depth + 1)) (i + 1) (s ++ .scalar '}' :: rest) := by
    simp [snippetStop]
  have hclose : ∀ j, snippetStop (.at (depth + 1)) j (.scalar '}' :: rest) =
      if depth = 0 then some (j + 1) else snippetStop (.at depth) (j + 1) rest := by
    intro j
    simp [snippetStop]
  rw [htext, hopen, hs _ _ _ (by omega), hclose]
  have hstop : i + 1 + s.length + 1 = i + (s.length + 2) := by omega
  rw [hstop]

theorem passes_braces {s : PyStr} (hs : Passes s) : Passes (.scalar '{' :: (s ++ [.scalar '}'])) := by
  intro depth i rest hdepth
  rw [snippetStop_braces hs hdepth.le, if_neg hdepth.ne']
  simp

theorem passes_brackets {s : PyStr} (hs : Passes s) : Passes (.scalar '[' :: (s ++ [.scalar ']'])) :=
  passes_cons (by decide) (hs.append (passes_cons (by decide) passes_nil))

/-- **The scan stays in step with the grammar.** -/
theorem passes_of_derives {n : Nonterminal} {s : PyStr} (h : Derives n s) : Passes s := by
  have hcomma : ∀ {t}, Passes t → Passes (.scalar ',' :: t) := passes_cons (by decide)
  have hcolon : ∀ {t}, Passes t → Passes (.scalar ':' :: t) := passes_cons (by decide)
  induction h with
  | word hw => exact passes_word hw
  | number hl => exact passes_number hl
  | string hs => exact passes_string hs
  | noItems hw => exact passes_brackets (passes_spaces hw)
  | list _ ih => exact passes_brackets ih
  | nested _ ih => exact ih
  | lastItem hw _ hw' ih => exact (passes_spaces hw).append (ih.append (passes_spaces hw'))
  | moreItems hw _ hw' _ ih iht =>
    exact (passes_spaces hw).append (ih.append ((passes_spaces hw').append (hcomma iht)))
  | noMembers hw => exact passes_braces (passes_spaces hw)
  | fields _ ih => exact passes_braces ih
  | lastMember hw hk hw' hv _ hv' ih =>
    exact (passes_spaces hw).append ((passes_string hk).append ((passes_spaces hw').append
      (hcolon ((passes_spaces hv).append (ih.append (passes_spaces hv'))))))
  | moreMembers hw hk hw' hv _ hv' _ ih iht =>
    exact (passes_spaces hw).append ((passes_string hk).append ((passes_spaces hw').append
      (hcolon ((passes_spaces hv).append (ih.append ((passes_spaces hv').append (hcomma iht)))))))

/-- An object is braces around a text that is read through. -/
theorem braces_of_object {s : PyStr} (h : ObjectText s) :
    ∃ t, s = .scalar '{' :: (t ++ [.scalar '}']) ∧ Passes t := by
  cases h with
  | noMembers hw => exact ⟨_, rfl, passes_spaces hw⟩
  | fields ht => exact ⟨_, rfl, passes_of_derives ht⟩

/-! ## Snippets -/

theorem snippetStop_bounds {st : SnippetScan} {i stop : ℕ} {s : PyStr}
    (h : snippetStop st i s = some stop) : i < stop ∧ stop ≤ i + s.length := by
  induction s generalizing st i with
  | nil => cases h
  | cons c s ih =>
    have hrest : ∀ {st'}, snippetStop st' (i + 1) s = some stop →
        i < stop ∧ stop ≤ i + (c :: s).length := by
      intro st' hst'
      have hbounds := ih hst'
      rw [List.length_cons]
      omega
    simp only [snippetStop] at h
    split_ifs at h
    -- every branch but the one that returns goes on
    all_goals first | exact hrest h | skip
    cases h
    rw [List.length_cons]
    omega

/-- Up to the first brace. -/
theorem extractJsonSnippet_append {before s : PyStr} (hbefore : .scalar '{' ∉ before) :
    extractJsonSnippet (before ++ .scalar '{' :: s) =
      (snippetStop (.at 0) before.length (.scalar '{' :: s)).map fun stop =>
        (PyChar.scalar '{' :: s).take (stop - before.length) := by
  have hfind : (before ++ .scalar '{' :: s).findIdx? (· == PyChar.scalar '{') =
      some before.length := by
    rw [List.findIdx?_append, List.findIdx?_eq_none_iff.mpr]
    · simp [List.findIdx?_cons]
    · intro c hc
      simpa using fun heq : c = .scalar '{' => hbefore (heq ▸ hc)
  simp [extractJsonSnippet, hfind, slice]

/-- **The first object is found exactly**, and whatever is returned stands in the text at the
first brace. -/
theorem extractJsonSnippet_object :
    (∀ before object behind : PyStr, .scalar '{' ∉ before → ObjectText object →
      extractJsonSnippet (before ++ object ++ behind) = some object) ∧
    ∀ text snippet : PyStr, extractJsonSnippet text = some snippet →
      ∃ before behind, text = before ++ snippet ++ behind ∧ .scalar '{' ∉ before ∧
        snippet.head? = some (.scalar '{') := by
  constructor
  · intro before object behind hbefore hobject
    obtain ⟨t, rfl, ht⟩ := braces_of_object hobject
    have hstop := snippetStop_braces ht le_rfl before.length behind
    rw [if_pos rfl] at hstop
    rw [List.append_assoc, List.cons_append, extractJsonSnippet_append hbefore,
      ← List.cons_append, hstop, Option.map_some, Nat.add_sub_cancel_left]
    congr 1
    exact List.take_left' (by simp)
  · intro text snippet h
    by_cases hbrace : .scalar '{' ∈ text
    · obtain ⟨before, s, rfl, hbefore⟩ := List.eq_append_cons_of_mem hbrace
      rw [extractJsonSnippet_append hbefore] at h
      obtain ⟨stop, hstop, rfl⟩ := Option.map_eq_some_iff.mp h
      have hbounds := snippetStop_bounds hstop
      refine ⟨before, (PyChar.scalar '{' :: s).drop (stop - before.length), ?_, hbefore, ?_⟩
      · rw [List.append_assoc, List.take_append_drop]
      · rw [List.head?_take, if_neg (by omega)]
        rfl
    · have hfind : text.findIdx? (· == PyChar.scalar '{') = none := by
        rw [List.findIdx?_eq_none_iff]
        intro c hc
        simpa using fun heq : c = .scalar '{' => hbrace (heq ▸ hc)
      rw [extractJsonSnippet, hfind] at h
      cases h

/-- An object whose key has a brace and whose value has an escaped quote and a brace. -/
theorem extractJsonSnippet_object_nested :
    let object : PyStr := "\x7b\"a\x7d\": [1, \"\\\"\x7b\"]\x7d".py
    ObjectText object ∧ extractJsonSnippet ("Sure: ".py ++ object ++ " \x7d".py) = some object := by
  intro object
  have hspaces : Spaces [] := by simp [Spaces]
  have hspace : Spaces " ".py := by simp [Spaces, isSpace]
  have hkey : StringText "\"a\x7d\"".py := by
    refine ⟨[[.scalar 'a'], [.scalar '\x7d']], ?_, rfl⟩
    simp only [List.forall_mem_cons]
    exact ⟨.plain (by decide) (by decide) (by decide), .plain (by decide) (by decide) (by decide),
      by simp⟩
  have hstring : StringText "\"\\\"\x7b\"".py := by
    refine ⟨[[.scalar '\\', .scalar '"'], [.scalar '\x7b']], ?_, rfl⟩
    simp only [List.forall_mem_cons]
    exact ⟨.simple (d := '"') (by decide), .plain (by decide) (by decide) (by decide), by simp⟩
  have hobject : ObjectText object :=
    .fields (.lastMember hspaces hkey hspaces hspace (.list (.moreItems hspaces
      (.number (l := ['1']) ⟨false, rfl⟩) hspaces (.lastItem hspace (.string hstring) hspaces)))
      hspaces)
  exact ⟨hobject, extractJsonSnippet_object.1 _ _ _ (by decide) hobject⟩

end CorpLlmGateway.Sanitizer
