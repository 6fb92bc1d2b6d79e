import CorpLlmGateway.Json.Codec

/-!
# The strings of a value

What the text of a value tells about its strings, without `ensure_ascii`: a character
beyond ASCII stands in the text exactly where a string or a name has it, and a text that
is cut off at such a character is no JSON text.

* `strings_iff` — a property of every string and name, by the tokens of the value;
* `loads_cut` — a text that ends inside a string is not read.
-/

namespace Json

open Framing PyStr

variable {F : Type} {P : PyStr → Prop}

/-- A value whose strings and names have a property. -/
inductive Strings (P : PyStr → Prop) : Json F → Prop
  | null : Strings P .null
  | bool (b : Bool) : Strings P (.bool b)
  | int (n : ℤ) : Strings P (.int n)
  | float (f : F) : Strings P (.float f)
  | str {s : PyStr} (h : P s) : Strings P (.str s)
  | arr {items : List (Json F)} (h : ∀ x ∈ items, Strings P x) : Strings P (.arr items)
  | obj {fields : Fields F} (hkeys : ∀ e ∈ fields, P e.1) (h : ∀ e ∈ fields, Strings P e.2) :
      Strings P (.obj fields)

/-! ## The tokens that are strings -/

section Tokens

variable [Floats F] (style : Style) {s : PyStr}

theorem str_not_mem_gap : Tok.str s ∉ style.gap := by
  unfold Style.gap
  split <;> simp

theorem str_mem_moreItems {xs : List (Json F)} :
    Tok.str s ∈ moreItems style xs ↔ ∃ x ∈ xs, Tok.str s ∈ tokens style x := by
  induction xs with
  | nil => simp [moreItems]
  | cons x xs ih => simp [moreItems, str_not_mem_gap, ih]

theorem str_mem_moreFields {fs : Fields F} :
    Tok.str s ∈ moreFields style fs ↔ ∃ e ∈ fs, s = e.1 ∨ Tok.str s ∈ tokens style e.2 := by
  induction fs with
  | nil => simp [moreFields]
  | cons e fs ih => simp [moreFields, str_not_mem_gap, ih, or_assoc]

theorem str_mem_arr {items : List (Json F)} :
    Tok.str s ∈ tokens style (.arr items) ↔ ∃ x ∈ items, Tok.str s ∈ tokens style x := by
  cases items with
  | nil => simp [tokens]
  | cons x xs => simp [tokens, str_mem_moreItems]

theorem str_mem_obj {fields : Fields F} :
    Tok.str s ∈ tokens style (.obj fields) ↔
      ∃ e ∈ fields, s = e.1 ∨ Tok.str s ∈ tokens style e.2 := by
  cases fields with
  | nil => simp [tokens]
  | cons e fs => simp [tokens, str_not_mem_gap, str_mem_moreFields, or_assoc]

/-- **The strings of a value** are the tokens that are strings. -/
theorem strings_iff (j : Json F) :
    j.Strings P ↔ ∀ s, Tok.str s ∈ tokens style j → P s := by
  induction j using Json.induct with
  | null => simp [tokens, Strings.null]
  | bool b => simp [tokens, Strings.bool]
  | int n => simp [tokens, Strings.int]
  | float f => simp [tokens, Strings.float]
  | str s =>
    simp only [tokens, List.mem_singleton, Tok.str.injEq, forall_eq]
    constructor
    · intro h
      cases h with
      | str h => exact h
    · exact .str
  | arr items ih =>
    simp only [str_mem_arr]
    constructor
    · rintro (_ | _ | _ | _ | _ | h | _) s ⟨x, hx, hs⟩
      exact (ih x hx).mp (h x hx) s hs
    · exact fun h => .arr fun x hx => (ih x hx).mpr fun s hs => h s ⟨x, hx, hs⟩
  | obj fields ih =>
    simp only [str_mem_obj]
    constructor
    · rintro (_ | _ | _ | _ | _ | _ | ⟨hkeys, h⟩) s ⟨e, he, hs⟩
      rcases hs with rfl | hs
      · exact hkeys e he
      · exact (ih e he).mp (h e he) s hs
    · intro h
      exact .obj (fun e he => h _ ⟨e, he, .inl rfl⟩)
        fun e he => (ih e he).mpr fun s hs => h s ⟨e, he, .inr hs⟩

end Tokens

/-! ## Characters beyond ASCII -/

/-- A character beyond ASCII. -/
def Beyond (c : PyChar) : Prop := 0x80 ≤ c.code

section Beyond

variable {c d : PyChar}

theorem not_beyond_hexDigit (n : ℕ) : ¬ Beyond (.scalar (hexDigit n)) := by
  unfold hexDigit
  by_cases h : n < 16
  · have hall : ∀ n < 16, ¬ 0x80 ≤ ("0123456789abcdef".toList.getD n '0').toNat := by decide
    exact hall n h
  · rw [List.getD_eq_getElem?_getD, List.getElem?_eq_none (by simpa using h)]
    simp [Beyond, PyChar.code]

theorem not_beyond_hexEscape {u : ℕ} (hc : c ∈ ofText (hexEscape u)) : ¬ Beyond c := by
  simp only [hexEscape, ofText_cons, ofText_nil, List.mem_cons, List.not_mem_nil, or_false] at hc
  rcases hc with rfl | rfl | rfl | rfl | rfl | rfl
  · simp [Beyond, PyChar.code]
  · simp [Beyond, PyChar.code]
  all_goals exact not_beyond_hexDigit _

/-- A character beyond ASCII is written as it is. -/
theorem escapeChar_of_beyond (h : Beyond c) : escapeChar false c = [c] := by
  cases c with
  | lone k => rfl
  | scalar c =>
    have hcode : 0x80 ≤ c.toNat := h
    have hne : ∀ d : Char, d.toNat < 0x80 → c ≠ d := by
      rintro d hd rfl
      omega
    have hlow : ¬ c.toNat < 0x20 := by omega
    simp only [escapeChar, escapeScalar, hne '"' (by decide), hne '\\' (by decide),
      hne '\x08' (by decide), hne '\x0c' (by decide), hne '\n' (by decide), hne '\r' (by decide),
      hne '\t' (by decide), if_false, hlow, Bool.false_eq_true, false_and, or_self]
    rfl

/-- Any other character is written in ASCII. -/
theorem not_beyond_of_mem_escapeChar (h : ¬ Beyond c) (hd : d ∈ escapeChar false c) :
    ¬ Beyond d := by
  cases c with
  | lone k => exact absurd (show 0x80 ≤ 0xD800 + (k : ℕ) by omega) h
  | scalar c =>
    have hascii : ∀ l : List Char, (∀ a ∈ l, a.toNat < 0x80) → d ∈ ofText l → ¬ Beyond d := by
      intro l hl hd
      obtain ⟨a, ha, rfl⟩ := List.mem_map.mp hd
      exact Nat.not_le.mpr (hl a ha)
    simp only [escapeChar] at hd
    unfold escapeScalar at hd
    split_ifs at hd with h1 h2 h3 h4 h5 h6 h7 h8 h9
    -- the escapes of seven characters, then the control characters, then the others
    iterate 7 exact hascii _ (by simp) hd
    · exact not_beyond_hexEscape hd
    · exact absurd h8 (by simp; omega)
    · rwa [List.mem_singleton.mp hd]

theorem mem_escape {s : PyStr} (h : Beyond c) : c ∈ escape false s ↔ c ∈ s := by
  unfold escape
  rw [List.mem_flatMap]
  constructor
  · rintro ⟨d, hd, hc⟩
    by_cases hbeyond : Beyond d
    · rw [escapeChar_of_beyond hbeyond, List.mem_singleton] at hc
      rwa [hc]
    · exact absurd h (not_beyond_of_mem_escapeChar hbeyond hc)
  · intro hc
    exact ⟨c, hc, by rw [escapeChar_of_beyond h]; exact List.mem_singleton_self c⟩

theorem not_beyond_of_mem_literal {t : Tok} (ht : t.Ok) {c : Char} (hc : c ∈ t.literal) :
    ¬ Beyond (.scalar c) := by
  refine forall_mem_literal (P := fun c => ¬ Beyond (.scalar c)) (fun c h => ?_)
    (by simp [words, Beyond, PyChar.code]) (by simp [Beyond, PyChar.code]) ht c hc
  simp only [isNumberChar, Bool.or_eq_true, beq_iff_eq] at h
  rcases h with ((((h | rfl) | rfl) | rfl) | rfl) | rfl
  · have hhigh : c.toNat ≤ '9'.toNat := (Char.isDigit_iff_toNat.mp h).2
    exact Nat.not_le.mpr (Nat.lt_of_le_of_lt hhigh (by decide))
  all_goals simp [Beyond, PyChar.code]

/-- A character beyond ASCII stands in the strings of a token. -/
theorem mem_text {t : Tok} (ht : t.Ok) (h : Beyond c) :
    c ∈ t.text false ↔ ∃ s, t = .str s ∧ c ∈ s := by
  have hquote : c ≠ .scalar '"' := by
    rintro rfl
    simp [Beyond, PyChar.code] at h
  have hliteral : c ∉ ofText t.literal := by
    intro hc
    obtain ⟨d, hd, rfl⟩ := List.mem_map.mp hc
    exact not_beyond_of_mem_literal ht hd h
  cases t with
  | str s => simp [Tok.text, hquote, mem_escape h]
  | _ => simpa [Tok.text] using hliteral

end Beyond

/-! ## A text that is cut off -/

section Cut

variable {p : PyChar → Bool} (hp : ∀ c, p c = true → Beyond c)

include hp

theorem takeWhile_escape (s : PyStr) :
    (escape false s).takeWhile (!p ·) = escape false (s.takeWhile (!p ·)) := by
  induction s with
  | nil => rfl
  | cons c s ih =>
    have hsplit : escape false (c :: s) = escapeChar false c ++ escape false s := by simp [escape]
    cases hc : p c with
    | true => rw [hsplit, escapeChar_of_beyond (hp c hc)]; simp [hc, escape]
    | false =>
      have hall : ∀ d ∈ escapeChar false c, (!p d) = true := by
        intro d hd
        by_cases hbeyond : Beyond c
        · rw [escapeChar_of_beyond hbeyond, List.mem_singleton] at hd
          simp [hd, hc]
        · have hnot : ¬ p d = true := fun h => not_beyond_of_mem_escapeChar hbeyond hd (hp d h)
          simpa using hnot
      rw [hsplit, List.takeWhile_append_of_pos hall, ih]
      simp [hc, escape]

/-- The first such character stands in a string. -/
theorem takeWhile_text {toks : List Tok} (hok : ∀ t ∈ toks, t.Ok)
    (h : ∃ c ∈ toks.flatMap (Tok.text false), p c = true) :
    ∃ ts s ts', toks = ts ++ .str s :: ts' ∧
      (toks.flatMap (Tok.text false)).takeWhile (!p ·) =
        ts.flatMap (Tok.text false) ++ .scalar '"' :: escape false (s.takeWhile (!p ·)) := by
  induction toks with
  | nil => simp at h
  | cons t toks ih =>
    obtain ⟨ht, hok⟩ := List.forall_mem_cons.mp hok
    by_cases hhere : ∃ c ∈ t.text false, p c = true
    · obtain ⟨c, hc, hpc⟩ := hhere
      obtain ⟨s, rfl, hs⟩ := (mem_text ht (hp c hpc)).mp hc
      refine ⟨[], s, toks, rfl, ?_⟩
      have hquote : p (.scalar '"') = false := by
        by_contra hne
        exact absurd (hp _ (by simpa using hne)) (by simp [Beyond, PyChar.code])
      have hmem : c ∈ escape false s := (mem_escape (hp c hpc)).mpr hs
      -- the string is cut before its end, so what follows it does not count
      have hlt : ((escape false s).takeWhile (!p ·)).length ≠ (escape false s).length := by
        intro hlen
        have hall := List.takeWhile_eq_self_iff.mp
          ((List.takeWhile_prefix (!p ·)).eq_of_length hlen) c hmem
        simp [hpc] at hall
      rw [takeWhile_escape hp] at hlt
      simp only [List.flatMap_cons, Tok.text, List.cons_append, List.flatMap_nil, List.nil_append,
        List.append_assoc, List.takeWhile_cons, hquote, Bool.not_false, if_true,
        List.takeWhile_append, takeWhile_escape hp, if_neg hlt]
    · have hrest : ∃ c ∈ toks.flatMap (Tok.text false), p c = true := by
        obtain ⟨c, hc, hpc⟩ := h
        rw [List.flatMap_cons, List.mem_append] at hc
        rcases hc with hc | hc
        · exact absurd ⟨c, hc, hpc⟩ hhere
        · exact ⟨c, hc, hpc⟩
      obtain ⟨ts, s, ts', htoks, hcut⟩ := ih hok hrest
      have hall : ∀ c ∈ t.text false, (!p c) = true := by
        intro c hc
        simpa using fun hpc => hhere ⟨c, hc, hpc⟩
      refine ⟨t :: ts, s, ts', by rw [htoks, List.cons_append], ?_⟩
      rw [List.flatMap_cons, List.takeWhile_append_of_pos hall, hcut, List.flatMap_cons,
        List.append_assoc]

end Cut

section Loads

variable [Floats F]

/-- **A text that ends inside a string** is not read. -/
theorem loads_cut {toks ts ts' : List Tok} (hlex : Lexical toks) {s : PyStr}
    (htoks : toks = ts ++ .str s :: ts') (s' : PyStr) (j : Json F) :
    loads (ts.flatMap (Tok.text false) ++ .scalar '"' :: escape false s') ≠ .ok j := by
  subst htoks
  have hopen : drain token (.scalar '"' :: escape false s') =
      ([], .scalar '"' :: escape false s') := by
    refine drain_of_none token_proper ?_
    have hread : readString (escape false s') = none := by
      have hend : drain unit [] = ([], []) := drain_of_none unit_proper rfl
      have hdrain := @drain_unit_escape false s' (fun h => absurd h (by decide)) []
      rw [List.append_nil, hend] at hdrain
      rw [readString, hdrain]
    simp [token, isSpace, hread]
  have hsub : ts.Sublist (ts ++ .str s :: ts') := List.sublist_append_left ts _
  have hlast : ∀ t, ts.getLast? = some t → t.isNumber = true →
      Stops (chars (.scalar '"' :: escape false s')) := by
    intro t _ _ c hc
    cases Option.some.inj hc
    decide
  rw [loads, lex_text_append (fun t ht => hlex.ok t (hsub.subset ht))
    (fun t _ => by cases t <;> simp [Tok.Writable, Writable])
    (List.isChain_append.mp hlex.apart).1 hlast, hopen]
  cases steps (State.value (F := F) []) (ts ++ []) with
  | error e => exact fun h => by cases h
  | ok st => exact fun h => by cases h

/-- The text of a value that is cut off at such a character. -/
theorem loads_takeWhile_render {p : PyChar → Bool} (hp : ∀ c, p c = true → Beyond c)
    {style : Style} (hstyle : style.ascii = false) {j : Json F}
    (h : ∃ c ∈ render style j, p c = true) (j' : Json F) :
    loads ((render style j).takeWhile (!p ·)) ≠ .ok j' := by
  unfold render at h ⊢
  rw [hstyle] at h ⊢
  obtain ⟨ts, s, ts', htoks, hcut⟩ := takeWhile_text hp (lexical_tokens style j).ok h
  rw [hcut]
  exact loads_cut (lexical_tokens style j) htoks _ j'

/-- A text is free of such characters when the strings are. -/
theorem forall_mem_render_iff {p : PyChar → Bool} (hp : ∀ c, p c = true → Beyond c)
    {style : Style} (hstyle : style.ascii = false) (j : Json F) :
    (∀ c ∈ render style j, p c = false) ↔ j.Strings fun s => ∀ c ∈ s, p c = false := by
  rw [strings_iff style]
  unfold render
  rw [hstyle]
  constructor
  · intro h s hs c hc
    by_contra hne
    have hpc : p c = true := by simpa using hne
    have hmem := (mem_text (t := .str s) trivial (hp c hpc)).mpr ⟨s, rfl, hc⟩
    rw [h c (List.mem_flatMap.mpr ⟨_, hs, hmem⟩)] at hpc
    cases hpc
  · intro h c hc
    by_contra hne
    have hpc : p c = true := by simpa using hne
    obtain ⟨t, ht, hct⟩ := List.mem_flatMap.mp hc
    obtain ⟨s, rfl, hs⟩ := (mem_text ((lexical_tokens style j).ok t ht) (hp c hpc)).mp hct
    rw [h s ht c hs] at hpc
    cases hpc

end Loads

end Json
