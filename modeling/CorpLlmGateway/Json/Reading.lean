import CorpLlmGateway.Json.Strings

/-!
# What an accepted text is made of

A text that `json.loads` accepts is a row of tokens, and a string among them a row of units:
single characters, one-letter escapes and `\u` escapes.

* `Lexed` — what each token was read from;
* `loads_pieces` — an accepted text is the pieces of its tokens, and the strings of its value
  are among them;
* `literal_of_str` — without `\u` escapes, a string of plain characters stands in the text as
  it is.
-/

namespace Json

open Framing PyStr

/-! ## Units -/

/-- What a character of a string was read from. -/
inductive UnitPiece : PyChar → PyStr → Prop where
  | plain {c : PyChar} : c ≠ .scalar '\\' → Printable c → UnitPiece c [c]
  | simple {e d : Char} : (e, d) ∈ simpleEscapes →
      UnitPiece (.scalar d) [.scalar '\\', .scalar e]
  | hex {c : PyChar} {digits : List Char} : (∀ d ∈ digits, d ≠ '\x00') →
      UnitPiece c (ofText ('\\' :: 'u' :: digits))

theorem ofText_starts {l : List Char} {s : PyStr} (h : l <+: chars s) : ofText l <+: s := by
  induction l generalizing s with
  | nil => simp
  | cons c l ih =>
    cases s with
    | nil => simp at h
    | cons d s =>
      cases d with
      | lone k => simp at h
      | scalar d =>
        rw [chars_scalar, List.cons_prefix_cons] at h
        obtain ⟨rfl, hl⟩ := h
        exact List.cons_prefix_cons.mpr ⟨rfl, ih hl⟩

/-- A piece whose characters a list of scalar values starts with. -/
theorem piece_eq_ofText {piece t : PyStr} {l : List Char} (h : l <+: chars (piece ++ t))
    (hlen : l.length = piece.length) : piece = ofText l := by
  have hofText : ofText l <+: piece ++ t := ofText_starts h
  have hpiece : piece <+: piece ++ t := List.prefix_append piece t
  refine (List.prefix_of_prefix_length_le hpiece hofText ?_).eq_of_length ?_
  · simp [ofText, hlen]
  · simp [ofText, hlen]

theorem ne_zero_of_hexValue {c : Char} {n : ℕ} (h : hexValue c = some n) : c ≠ '\x00' := by
  rintro rfl
  revert h
  simp [show hexValue '\x00' = none by decide]

theorem ne_zero_of_hexValue4 {s : List Char} {u : ℕ} (h : hexValue4 s = some u) :
    ∀ c ∈ s.take 4, c ≠ '\x00' := by
  match s, h with
  | a :: b :: c :: d :: s, h =>
    simp only [hexValue4, Option.bind_eq_bind, Option.bind_eq_some_iff] at h
    obtain ⟨_, ha, _, hb, _, hc, _, hd, _⟩ := h
    simp only [List.take_succ_cons, List.take_zero, List.forall_mem_cons]
    exact ⟨ne_zero_of_hexValue ha, ne_zero_of_hexValue hb, ne_zero_of_hexValue hc,
      ne_zero_of_hexValue hd, by simp⟩

theorem ne_zero_of_surrogatePair {u : ℕ} {s : List Char} {c : Char}
    (h : surrogatePair u s = some c) : ∀ d ∈ s.take 6, d ≠ '\x00' := by
  unfold surrogatePair at h
  split at h
  · next s =>
    split at h
    · next v hv =>
      simp only [List.take_succ_cons, List.forall_mem_cons]
      exact ⟨by decide, by decide, ne_zero_of_hexValue4 hv⟩
    · cases h
  · cases h

theorem ne_zero_of_hexUnit {u : ℕ} {s : List Char} (h : hexValue4 s = some u) :
    ∀ d ∈ s.take ((hexUnit u (s.drop 4)).2 - 2), d ≠ '\x00' := by
  have hfour := ne_zero_of_hexValue4 h
  unfold hexUnit
  split
  · split
    · next c hpair =>
      -- two escapes: four digits, and six more characters
      split at hpair
      · have hsix := ne_zero_of_surrogatePair hpair
        have hten : s.take 10 = s.take 4 ++ (s.drop 4).take 6 := List.take_add (i := 4) (j := 6)
        simp only [show 12 - 2 = 10 from rfl, hten, List.forall_mem_append]
        exact ⟨hfour, hsix⟩
      · cases hpair
    · exact hfour
  · exact hfour

theorem unitPiece_of_read {piece t : PyStr} {x : PyChar}
    (h : unit (piece ++ t) = some (x, piece.length)) : UnitPiece x piece := by
  cases piece with
  | nil => exact absurd (unit_proper.pos h) (Nat.lt_irrefl 0)
  | cons c piece =>
    have hone : ∀ {n : ℕ}, n = piece.length + 1 → n = 1 → piece = [] := fun h h' =>
      List.eq_nil_of_length_eq_zero (by omega)
    cases c with
    | lone k =>
      simp only [List.cons_append, unit, List.length_cons, Option.some.injEq, Prod.mk.injEq] at h
      obtain ⟨rfl, hlen⟩ := h
      rw [hone hlen rfl]
      refine .plain PyChar.noConfusion ?_
      simp only [Printable, PyChar.code]
      omega
    | scalar c =>
      simp only [List.cons_append, unit, List.length_cons] at h
      split at h
      · next hslash =>
        subst hslash
        cases hchars : chars (piece ++ t) with
        | nil =>
          rw [hchars] at h
          cases h
        | cons e s =>
          rw [hchars, escapeUnit] at h
          split at h
          · next hu =>
            subst hu
            obtain ⟨u, hu, hread⟩ := Option.map_eq_some_iff.mp h
            have hlen : (hexUnit u (s.drop 4)).2 = piece.length + 1 := by rw [hread]
            have hbounds := hexUnit_length u (s.drop 4)
            have hzero := ne_zero_of_hexUnit hu
            have hfour := hexValue4_length hu
            rw [hlen, List.length_drop] at hbounds
            rw [hlen] at hzero
            have hpos : 0 < piece.length := by
              have : 6 ≤ (hexUnit u (s.drop 4)).2 := by
                unfold hexUnit
                split
                · split <;> simp
                · simp
              omega
            -- the piece is the letter and the digits behind it
            have hpiece : piece = ofText ('u' :: s.take (piece.length - 1)) := by
              apply piece_eq_ofText (t := t)
              · rw [hchars]
                exact List.cons_prefix_cons.mpr ⟨rfl, List.take_prefix _ _⟩
              · rw [List.length_cons, List.length_take]
                omega
            rw [hpiece]
            exact .hex (by simpa using hzero)
          · obtain ⟨d, hd, hread⟩ := Option.map_eq_some_iff.mp h
            simp only [Prod.mk.injEq] at hread
            obtain ⟨rfl, hlen⟩ := hread
            have hpiece : piece = ofText [e] := by
              apply piece_eq_ofText (t := t)
              · rw [hchars]
                exact List.cons_prefix_cons.mpr ⟨rfl, List.nil_prefix⟩
              · simp only [List.length_singleton]
                omega
            obtain ⟨front, back, hentry, -⟩ := List.lookup_eq_some_iff.mp hd
            rw [hpiece]
            exact .simple (by simp [hentry])
      · next hslash =>
        split at h
        · cases h
        · next hplain =>
          simp only [Option.some.injEq, Prod.mk.injEq] at h
          obtain ⟨rfl, hlen⟩ := h
          rw [hone hlen rfl]
          refine .plain (by simpa using hslash) ?_
          simp only [Printable, PyChar.code]
          omega

/-! ## Tokens -/

/-- What a token was read from. -/
inductive Lexed : Tok → PyStr → Prop where
  | space {c : Char} : isSpace c = true → Lexed .space [.scalar c]
  | str {s : PyStr} {pieces : List PyStr} : List.Forall₂ UnitPiece s pieces →
      Lexed (.str s) (.scalar '"' :: (pieces.flatten ++ [.scalar '"']))
  | punct {c : Char} {t : Tok} : punct c = some t → Lexed t [.scalar c]
  | word {w : List Char × Tok} : w ∈ words → Lexed w.2 (ofText w.1)
  | int {l : List Char} : (∀ c ∈ l, isNumberChar c = true) → Lexed (.int l) (ofText l)
  | float {l : List Char} : (∀ c ∈ l, isNumberChar c = true) → Lexed (.float l) (ofText l)

theorem readString_piece {piece t s : PyStr} (h : readString (piece ++ t) = some (s, piece.length)) :
    ∃ pieces, List.Forall₂ UnitPiece s pieces ∧ piece = pieces.flatten ++ [.scalar '"'] := by
  unfold readString at h
  split at h
  · next cs rest hdrain =>
    simp only [Option.some.injEq, Prod.mk.injEq] at h
    obtain ⟨rfl, hlen⟩ := h
    obtain ⟨pieces, htext, hread⟩ := drain_pieces unit_proper (piece ++ t)
    rw [hdrain] at htext hread
    refine ⟨pieces, hread.imp fun x p ⟨t, hp⟩ => unitPiece_of_read hp, ?_⟩
    simp only at htext
    have hsplit : piece ++ t = (pieces.flatten ++ [.scalar '"']) ++ rest := by
      rw [htext]
      simp
    refine (List.append_inj hsplit ?_).1
    have hlength := congrArg List.length hsplit
    simp only [List.length_append, List.length_singleton] at hlength hlen ⊢
    omega
  · cases h

theorem lexed_of_read {piece t : PyStr} {x : Tok}
    (h : token (piece ++ t) = some (x, piece.length)) : Lexed x piece := by
  cases piece with
  | nil => exact absurd (token_proper.pos h) (Nat.lt_irrefl 0)
  | cons c piece =>
    have hone : ∀ {n : ℕ}, n = piece.length + 1 → n = 1 → piece = [] := fun h h' =>
      List.eq_nil_of_length_eq_zero (by omega)
    cases c with
    | lone k => simp [token] at h
    | scalar c =>
      simp only [List.cons_append, token, List.length_cons] at h
      split at h
      · next hspace =>
        simp only [Option.some.injEq, Prod.mk.injEq] at h
        obtain ⟨rfl, hlen⟩ := h
        rw [hone hlen rfl]
        exact .space hspace
      split at h
      · next hquote =>
        subst hquote
        obtain ⟨⟨s, n⟩, hread, hx⟩ := Option.map_eq_some_iff.mp h
        simp only [Prod.mk.injEq] at hx
        obtain ⟨rfl, hlen⟩ := hx
        obtain rfl : n = piece.length := by omega
        obtain ⟨pieces, hpieces, rfl⟩ := readString_piece hread
        exact .str hpieces
      split at h
      · next t' hpunct =>
        simp only [Option.some.injEq, Prod.mk.injEq] at h
        obtain ⟨rfl, hlen⟩ := h
        rw [hone hlen rfl]
        exact .punct hpunct
      · have hchars : c :: chars (piece ++ t) = chars ((.scalar c :: piece) ++ t) := rfl
        rcases Option.or_eq_some_iff.mp h with hword | ⟨-, hnumber⟩
        · obtain ⟨w, hfind, hw⟩ := Option.map_eq_some_iff.mp hword
          simp only [Prod.mk.injEq] at hw
          obtain ⟨rfl, hlen⟩ := hw
          have hstarts : w.1 <+: chars ((.scalar c :: piece) ++ t) := by
            rw [← hchars]
            simpa using List.find?_some hfind
          rw [piece_eq_ofText hstarts hlen]
          exact .word (List.mem_of_find?_eq_some hfind)
        · obtain ⟨⟨n, isFloat⟩, hscan, hx⟩ := Option.map_eq_some_iff.mp hnumber
          simp only [Prod.mk.injEq] at hx
          obtain ⟨rfl, rfl⟩ := hx
          have hall := mem_take_scanNumber hscan
          have hstarts : (c :: chars (piece ++ t)).take (piece.length + 1) <+:
              chars ((.scalar c :: piece) ++ t) := by
            rw [← hchars]
            exact List.take_prefix _ _
          have hlen : ((c :: chars (piece ++ t)).take (piece.length + 1)).length =
              (PyChar.scalar c :: piece).length :=
            List.length_take_of_le (scanNumber_bounds hscan).2
          rw [piece_eq_ofText hstarts hlen]
          cases isFloat with
          | true => exact .float hall
          | false => exact .int hall

/-- A string was read from units between quotes. -/
theorem Lexed.str_inv {t : Tok} {piece s : PyStr} (h : Lexed t piece) (ht : t = .str s) :
    ∃ units, List.Forall₂ UnitPiece s units ∧
      piece = .scalar '"' :: (units.flatten ++ [.scalar '"']) := by
  cases h with
  | space _ => cases ht
  | @str _ units hunits =>
    cases ht
    exact ⟨units, hunits, rfl⟩
  | @punct c _ hc =>
    obtain ⟨front, back, hentry, -⟩ := List.lookup_eq_some_iff.mp hc
    have hall : ∀ p ∈ [('{', Tok.lbrace), ('}', Tok.rbrace), ('[', Tok.lbracket),
        (']', Tok.rbracket), (',', Tok.comma), (':', Tok.colon)], p.2 ≠ .str s := by simp
    rw [hentry] at hall
    exact absurd ht (hall (c, t) (by simp))
  | word hw =>
    simp only [words, List.mem_cons, List.not_mem_nil, or_false] at hw
    rcases hw with rfl | rfl | rfl | rfl | rfl | rfl <;> cases ht
  | int _ => cases ht
  | float _ => cases ht

/-! ## No null character -/

theorem UnitPiece.ne_zero {x : PyChar} {piece : PyStr} (h : UnitPiece x piece) :
    ∀ c ∈ piece, c ≠ .scalar '\x00' := by
  cases h with
  | plain _ hprintable =>
    rintro c hc rfl
    rw [List.mem_singleton] at hc
    subst hc
    exact absurd hprintable (by decide)
  | @simple e d hed =>
    have hescapes : ∀ p ∈ simpleEscapes, p.1 ≠ '\x00' := by decide
    have he := hescapes _ hed
    rintro c hc rfl
    simp only [List.mem_cons, PyChar.scalar.injEq, List.not_mem_nil, or_false] at hc
    rcases hc with hc | hc
    · exact absurd hc (by decide)
    · exact he hc.symm
  | hex hdigits =>
    rintro c hc rfl
    obtain ⟨d, hd, hdc⟩ := List.mem_map.mp hc
    cases hdc
    simp only [List.mem_cons] at hd
    rcases hd with hd | hd | hd
    · exact absurd hd (by decide)
    · exact absurd hd (by decide)
    · exact hdigits _ hd rfl

theorem units_ne_zero {s : PyStr} {pieces : List PyStr} (h : List.Forall₂ UnitPiece s pieces) :
    ∀ c ∈ pieces.flatten, c ≠ .scalar '\x00' := by
  induction h with
  | nil => simp
  | cons hunit _ ih =>
    rw [List.flatten_cons, List.forall_mem_append]
    exact ⟨hunit.ne_zero, ih⟩

/-- What the numbers, the words and the punctuation are written with. -/
theorem ne_zero_ofText {l : List Char} (h : ∀ c ∈ l, c ≠ '\x00') :
    ∀ c ∈ ofText l, c ≠ .scalar '\x00' := by
  rintro c hc rfl
  obtain ⟨d, hd, hdc⟩ := List.mem_map.mp hc
  cases hdc
  exact h _ hd rfl

theorem isNumberChar_ne_zero {c : Char} (h : isNumberChar c = true) : c ≠ '\x00' := by
  rintro rfl
  exact absurd h (by decide)

theorem Lexed.ne_zero {x : Tok} {piece : PyStr} (h : Lexed x piece) :
    ∀ c ∈ piece, c ≠ .scalar '\x00' := by
  cases h with
  | @space c hc =>
    apply ne_zero_ofText (l := [c])
    rintro d hd rfl
    rw [← List.mem_singleton.mp hd] at hc
    exact absurd hc (by decide)
  | str hpieces =>
    simp only [List.mem_cons, List.mem_append, List.not_mem_nil, or_false]
    rintro c (rfl | hc | rfl)
    · decide
    · exact units_ne_zero hpieces c hc
    · decide
  | @punct c t hc =>
    apply ne_zero_ofText (l := [c])
    rintro d hd rfl
    rw [← List.mem_singleton.mp hd] at hc
    rw [show Json.punct '\x00' = none by decide +kernel] at hc
    cases hc
  | @word w hw =>
    apply ne_zero_ofText
    simp only [words, List.mem_cons, List.not_mem_nil, or_false] at hw
    rcases hw with rfl | rfl | rfl | rfl | rfl | rfl <;> simp
  | int hl => exact ne_zero_ofText fun c hc => isNumberChar_ne_zero (hl c hc)
  | float hl => exact ne_zero_ofText fun c hc => isNumberChar_ne_zero (hl c hc)

/-- A token begins with an ASCII character. -/
theorem token_head {s : PyStr} {x : Tok} {n : ℕ} (h : token s = some (x, n)) :
    ∃ c t, s = .scalar c :: t ∧ c.toNat < 0x80 := by
  match s with
  | [] => simp [token] at h
  | .lone k :: t => simp [token] at h
  | .scalar c :: t =>
    refine ⟨c, t, rfl, ?_⟩
    simp only [token] at h
    split at h
    · next hspace =>
      simp only [isSpace, Bool.or_eq_true, beq_iff_eq] at hspace
      rcases hspace with ((rfl | rfl) | rfl) | rfl <;> decide
    split at h
    · next hquote =>
      subst hquote
      decide
    split at h
    · next t' hpunct =>
      obtain ⟨front, back, hentry, -⟩ := List.lookup_eq_some_iff.mp hpunct
      have hall : ∀ p ∈ [('{', Tok.lbrace), ('}', Tok.rbrace), ('[', Tok.lbracket),
          (']', Tok.rbracket), (',', Tok.comma), (':', Tok.colon)], p.1.toNat < 0x80 := by decide
      rw [hentry] at hall
      exact hall (c, t') (by simp)
    · rcases Option.or_eq_some_iff.mp h with hword | ⟨-, hnumber⟩
      · obtain ⟨w, hfind, -⟩ := Option.map_eq_some_iff.mp hword
        have hmem := List.mem_of_find?_eq_some hfind
        have hstarts : w.1 <+: c :: chars t := by simpa using List.find?_some hfind
        simp only [words, List.mem_cons, List.not_mem_nil, or_false] at hmem
        rcases hmem with rfl | rfl | rfl | rfl | rfl | rfl <;>
          · obtain ⟨rfl, -⟩ := List.cons_prefix_cons.mp hstarts
            decide
      · obtain ⟨p, hscan, -⟩ := Option.map_eq_some_iff.mp hnumber
        rcases scanNumber_head hscan with hdigit | ⟨rfl, -⟩
        · simp only [Char.isDigit, Bool.and_eq_true, decide_eq_true_eq] at hdigit
          have h57 : c.toNat ≤ 57 := hdigit.2
          omega
        · decide

/-! ## The strings of a value come from its text -/

section Strings

variable {F : Type} {P : PyStr → Prop}

def Frame.Strings (P : PyStr → Prop) : Frame F → Prop
  | .item done => ∀ x ∈ done, x.Strings P
  | .field done name => P name ∧ ∀ e ∈ done, P e.1 ∧ e.2.Strings P

def State.Strings (P : PyStr → Prop) : State F → Prop
  | .value stack | .arrStart stack | .objStart stack => ∀ fr ∈ stack, fr.Strings P
  | .key done stack => (∀ e ∈ done, P e.1 ∧ e.2.Strings P) ∧ ∀ fr ∈ stack, fr.Strings P
  | .colon done name stack =>
      P name ∧ (∀ e ∈ done, P e.1 ∧ e.2.Strings P) ∧ ∀ fr ∈ stack, fr.Strings P
  | .after v stack => v.Strings P ∧ ∀ fr ∈ stack, fr.Strings P

theorem strings_set {fields : Fields F} (h : ∀ e ∈ fields, P e.1 ∧ e.2.Strings P) {k : PyStr}
    {v : Json F} (hk : P k) (hv : v.Strings P) : ∀ e ∈ fields.set k v, P e.1 ∧ e.2.Strings P := by
  intro e he
  unfold Fields.set at he
  split at he
  · obtain ⟨e', he', rfl⟩ := List.mem_map.mp he
    split
    · exact ⟨(h e' he').1, hv⟩
    · exact h e' he'
  · rcases List.mem_append.mp he with hold | hnew
    · exact h e hold
    · rw [List.mem_singleton.mp hnew]
      exact ⟨hk, hv⟩

theorem strings_ofPairs {pairs : Fields F} (h : ∀ e ∈ pairs, P e.1 ∧ e.2.Strings P) :
    (Json.obj (Fields.ofPairs pairs)).Strings P := by
  have hupdate : ∀ fields : Fields F, (∀ e ∈ fields, P e.1 ∧ e.2.Strings P) →
      ∀ e ∈ Fields.update fields pairs, P e.1 ∧ e.2.Strings P := by
    induction pairs with
    | nil => exact fun fields hfields => hfields
    | cons p pairs ih =>
      obtain ⟨hp, hpairs⟩ := List.forall_mem_cons.mp h
      exact fun fields hfields => ih hpairs _ (strings_set hfields hp.1 hp.2)
  have hpairs := hupdate [] (by simp)
  exact .obj (fun e he => (hpairs e he).1) fun e he => (hpairs e he).2

variable [Floats F]

theorem valueStep_strings {stack : List (Frame F)} {t : Tok} {st : State F}
    (h : valueStep stack t = .ok st) (hstack : ∀ fr ∈ stack, fr.Strings P)
    (ht : ∀ s, t = .str s → P s) : st.Strings P := by
  cases t with
  | lbracket | lbrace =>
    cases h
    exact hstack
  | str s =>
    cases h
    exact ⟨.str (ht s rfl), hstack⟩
  | int l =>
    simp only [valueStep] at h
    split at h
    · cases h
      exact ⟨.int _, hstack⟩
    · cases h
  | float l =>
    cases h
    exact ⟨.float _, hstack⟩
  | bool b =>
    cases h
    exact ⟨.bool b, hstack⟩
  | null =>
    cases h
    exact ⟨.null, hstack⟩
  | rbrace | rbracket | comma | colon | space => cases h

/-- One token brings in at most its own string. -/
theorem step_strings {st st' : State F} {t : Tok} (h : step st t = .ok st') (hst : st.Strings P)
    (ht : ∀ s, t = .str s → P s) : st'.Strings P := by
  unfold step at h
  split at h
  · cases h
    exact hst
  · exact valueStep_strings h hst ht
  · cases h
    exact ⟨.arr (by simp), hst⟩
  · refine valueStep_strings h (List.forall_mem_cons.mpr ⟨?_, hst⟩) ht
    simp [Frame.Strings]
  · cases h
    exact ⟨.obj (by simp) (by simp), hst⟩
  · cases h
    exact ⟨ht _ rfl, by simp, hst⟩
  · cases h
    exact ⟨ht _ rfl, hst⟩
  · cases h
    obtain ⟨hname, hdone, hstack⟩ := hst
    exact List.forall_mem_cons.mpr ⟨⟨hname, hdone⟩, hstack⟩
  · cases h
    obtain ⟨hv, hstack⟩ := hst
    obtain ⟨hdone, hstack'⟩ := List.forall_mem_cons.mp hstack
    exact List.forall_mem_cons.mpr
      ⟨List.forall_mem_append.mpr ⟨hdone, by simpa using hv⟩, hstack'⟩
  · cases h
    obtain ⟨hv, hstack⟩ := hst
    obtain ⟨hdone, hstack'⟩ := List.forall_mem_cons.mp hstack
    exact ⟨.arr (List.forall_mem_append.mpr ⟨hdone, by simpa using hv⟩), hstack'⟩
  · cases h
    obtain ⟨hv, hstack⟩ := hst
    obtain ⟨⟨hname, hdone⟩, hstack'⟩ := List.forall_mem_cons.mp hstack
    exact ⟨List.forall_mem_append.mpr ⟨hdone, by simpa using ⟨hname, hv⟩⟩, hstack'⟩
  · cases h
    obtain ⟨hv, hstack⟩ := hst
    obtain ⟨⟨hname, hdone⟩, hstack'⟩ := List.forall_mem_cons.mp hstack
    exact ⟨strings_ofPairs (List.forall_mem_append.mpr ⟨hdone, by simpa using ⟨hname, hv⟩⟩),
      hstack'⟩
  · cases h

theorem steps_strings {st st' : State F} {ts : List Tok} (h : steps st ts = .ok st')
    (hst : st.Strings P) (hts : ∀ s, Tok.str s ∈ ts → P s) : st'.Strings P := by
  refine steps_invariant (fun t ht st st' hstep hst => step_strings hstep hst ?_) h hst
  rintro s rfl
  exact hts s ht

/-- **An accepted text** is the pieces of its tokens, and what holds of the strings among them
holds of the strings of its value. -/
theorem loads_pieces {text : PyStr} {j : Json F} (h : loads text = .ok j) :
    ∃ toks pieces, toks ≠ [] ∧ text = pieces.flatten ∧ List.Forall₂ Lexed toks pieces ∧
      ∀ P : PyStr → Prop, (∀ s, Tok.str s ∈ toks → P s) → j.Strings P := by
  unfold loads at h
  obtain ⟨pieces, htext, hread⟩ := drain_pieces token_proper text
  cases hsteps : steps (.value ([] : List (Frame F))) (drain token text).1 with
  | error e =>
    rw [hsteps] at h
    cases h
  | ok st =>
    rw [hsteps] at h
    simp only [bind, Except.bind] at h
    split at h
    · next v hrest =>
      cases h
      rw [hrest, List.append_nil] at htext
      refine ⟨_, pieces, ?_, htext, hread.imp fun t piece ⟨more, hp⟩ => lexed_of_read hp, ?_⟩
      · intro hnil
        rw [hnil] at hsteps
        cases hsteps
      · intro P hP
        exact (steps_strings hsteps (by simp [State.Strings]) hP).1
    · cases h

/-- An accepted text begins with an ASCII character. -/
theorem loads_head {text : PyStr} {j : Json F} (h : loads text = .ok j) :
    ∃ c t, text = .scalar c :: t ∧ c.toNat < 0x80 := by
  cases hread : token text with
  | none =>
    rw [loads, drain_of_none token_proper hread] at h
    cases text <;> cases h
  | some p => exact token_head hread

end Strings

/-! ## Strings that stand in the text -/

/-- The characters that no one-letter escape stands for. -/
def Plain (s : PyStr) : Prop := ∀ c ∈ s, ∀ p ∈ simpleEscapes, c ≠ .scalar p.2

/-- Without `\u` escapes, a plain string was read from itself. -/
theorem flatten_of_plain {s : PyStr} {pieces : List PyStr}
    (h : List.Forall₂ UnitPiece s pieces) (hs : Plain s)
    (hu : ¬ [.scalar '\\', .scalar 'u'] <:+: pieces.flatten) : pieces.flatten = s := by
  induction h with
  | nil => rfl
  | @cons x piece s pieces hunit hrest ih =>
    have hpiece : piece = [x] := by
      cases hunit with
      | plain _ _ => rfl
      | @simple e d hed => exact absurd rfl (hs _ List.mem_cons_self _ hed)
      | @hex _ digits _ =>
        exact absurd ⟨[], ofText digits ++ pieces.flatten, by simp⟩ hu
    rw [List.flatten_cons, hpiece, ih (fun c hc => hs c (List.mem_cons_of_mem x hc))]
    · rfl
    · intro hwithin
      apply hu
      rw [List.flatten_cons]
      exact hwithin.trans (List.suffix_append piece _).isInfix

/-- **A plain string of an accepted text** stands in it as it is, unless there is a `\u`
escape somewhere. -/
theorem literal_of_str {text s : PyStr} {toks : List Tok} {pieces : List PyStr}
    (htext : text = pieces.flatten) (hread : List.Forall₂ Lexed toks pieces)
    (hs : Plain s) (hmem : Tok.str s ∈ toks)
    (hu : ¬ [.scalar '\\', .scalar 'u'] <:+: text) : s <:+: text := by
  subst htext
  induction hread with
  | nil => cases hmem
  | @cons t piece toks pieces hlexed hrest ih =>
    rw [List.flatten_cons] at hu ⊢
    have hlater : pieces.flatten <:+: piece ++ pieces.flatten :=
      (List.suffix_append piece _).isInfix
    have hnow : piece <:+: piece ++ pieces.flatten := (List.prefix_append piece _).isInfix
    rcases List.mem_cons.mp hmem with hstr | hmem
    · obtain ⟨units, hunits, rfl⟩ := hlexed.str_inv hstr.symm
      have hinner : units.flatten <:+: .scalar '"' :: (units.flatten ++ [.scalar '"']) :=
        ⟨[.scalar '"'], [.scalar '"'], by simp⟩
      have hflat := flatten_of_plain hunits hs fun hwithin =>
        hu ((hwithin.trans hinner).trans hnow)
      rw [← hflat]
      exact hinner.trans hnow
    · exact (ih hmem fun hwithin => hu (hwithin.trans hlater)).trans hlater

end Json
