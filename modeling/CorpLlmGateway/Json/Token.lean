import CorpLlmGateway.Data.Framing
import CorpLlmGateway.Text.PyStr

/-!
# JSON tokens

The lexical level of JSON as `json.loads` and `json.dumps` know it: string units and
their escapes, number literals, the constants `NaN` and `Infinity`, and white space.
An escape that names half of a surrogate pair alone stands for a lone surrogate.

* `unit_escapeChar` — an escaped character is read back; with `ensure_ascii` this holds
  of the scalar values, since the escapes of two lone surrogates can be read as a pair;
* `lex_text` — the text of a list of tokens is read back as these tokens, when no two
  numbers stand side by side.
-/

namespace Json

open Framing PyStr

/-! ## Strings -/

/-- The one-letter escapes and what they stand for. -/
def simpleEscapes : List (Char × Char) :=
  [('"', '"'), ('\\', '\\'), ('/', '/'), ('b', '\x08'), ('f', '\x0c'), ('n', '\n'), ('r', '\r'),
    ('t', '\t')]

/-- The value of a hexadecimal digit. -/
def hexValue (c : Char) : Option ℕ :=
  if '0' ≤ c ∧ c ≤ '9' then some (c.toNat - 48)
  else if 'a' ≤ c ∧ c ≤ 'f' then some (c.toNat - 87)
  else if 'A' ≤ c ∧ c ≤ 'F' then some (c.toNat - 55)
  else none

/-- The value of four hexadecimal digits. -/
def hexValue4 : List Char → Option ℕ
  | a :: b :: c :: d :: _ => do
      let a ← hexValue a
      let b ← hexValue b
      let c ← hexValue c
      let d ← hexValue d
      some (a * 4096 + b * 256 + c * 16 + d)
  | _ => none

/-- The character of a surrogate pair with the high half `u`, if its low half follows. -/
def surrogatePair (u : ℕ) : List Char → Option Char
  | '\\' :: 'u' :: s =>
      match hexValue4 s with
      | some v =>
          if 0xDC00 ≤ v ∧ v < 0xE000 then
            some (Char.ofNat (0x10000 + (u - 0xD800) * 0x400 + (v - 0xDC00)))
          else none
      | none => none
  | _ => none

/-- The escape of the 16-bit unit `u`, in front of `s`. -/
def hexUnit (u : ℕ) (s : List Char) : PyChar × ℕ :=
  if 0xD800 ≤ u ∧ u < 0xE000 then
    match if u < 0xDC00 then surrogatePair u s else none with
    | some c => (.scalar c, 12)
    | none => (.lone (Fin.ofNat 2048 (u - 0xD800)), 6)
  else (.scalar (Char.ofNat u), 6)

/-- An escape, from the letter behind its backslash on. -/
def escapeUnit : List Char → Option (PyChar × ℕ)
  | [] => none
  | c :: s =>
      if c = 'u' then (hexValue4 s).map fun u => hexUnit u (s.drop 4)
      else (simpleEscapes.lookup c).map fun d => (.scalar d, 2)

/-- The next character of a string; nothing at its end or where it is malformed. -/
def unit : Reader PyChar PyChar
  | [] => none
  | .lone k :: _ => some (.lone k, 1)
  | .scalar c :: s =>
      if c = '\\' then escapeUnit (chars s)
      else if c = '"' ∨ c.toNat < 0x20 then none
      else some (.scalar c, 1)

/-- A string behind its opening quote: its characters, and how far it reaches. -/
def readString (s : PyStr) : Option (PyStr × ℕ) :=
  match drain unit s with
  | (cs, .scalar '"' :: rest) => some (cs, s.length - rest.length)
  | _ => none

def hexDigit (n : ℕ) : Char := "0123456789abcdef".toList.getD n '0'

/-- The escape of a 16-bit unit. -/
def hexEscape (u : ℕ) : List Char :=
  ['\\', 'u', hexDigit (u / 4096 % 16), hexDigit (u / 256 % 16), hexDigit (u / 16 % 16),
    hexDigit (u % 16)]

/-- How a scalar value is written; `ascii` is `ensure_ascii`. -/
def escapeScalar (ascii : Bool) (c : Char) : List Char :=
  if c = '"' then ['\\', '"']
  else if c = '\\' then ['\\', '\\']
  else if c = '\x08' then ['\\', 'b']
  else if c = '\x0c' then ['\\', 'f']
  else if c = '\n' then ['\\', 'n']
  else if c = '\r' then ['\\', 'r']
  else if c = '\t' then ['\\', 't']
  else if c.toNat < 0x20 ∨ ascii = true ∧ 0x7E < c.toNat then
    if c.toNat < 0x10000 then hexEscape c.toNat
    else hexEscape (0xD800 + (c.toNat - 0x10000) / 0x400) ++
      hexEscape (0xDC00 + (c.toNat - 0x10000) % 0x400)
  else [c]

/-- How a character is written. -/
def escapeChar (ascii : Bool) : PyChar → PyStr
  | .scalar c => ofText (escapeScalar ascii c)
  | .lone k => if ascii then ofText (hexEscape (0xD800 + k)) else [.lone k]

def escape (ascii : Bool) (s : PyStr) : PyStr := s.flatMap (escapeChar ascii)

/-! ## Numbers -/

/-- How many digits a text starts with. -/
def digitRun (s : List Char) : ℕ := (s.takeWhile Char.isDigit).length

/-- `0|[1-9][0-9]*`. -/
def intLen : List Char → Option ℕ
  | [] => none
  | c :: s => if c = '0' then some 1 else if c.isDigit then some (digitRun (c :: s)) else none

/-- `(\.[0-9]+)?`. -/
def fracLen : List Char → ℕ
  | [] => 0
  | c :: s => if c = '.' ∧ 0 < digitRun s then 1 + digitRun s else 0

def signLen : List Char → ℕ
  | [] => 0
  | c :: _ => if c = '+' ∨ c = '-' then 1 else 0

/-- `([eE][-+]?[0-9]+)?`. -/
def expLen : List Char → ℕ
  | [] => 0
  | c :: s =>
      if (c = 'e' ∨ c = 'E') ∧ 0 < digitRun (s.drop (signLen s)) then
        1 + signLen s + digitRun (s.drop (signLen s))
      else 0

def minusLen : List Char → ℕ
  | [] => 0
  | c :: _ => if c = '-' then 1 else 0

/-- A number: how far it reaches, and whether it has a fraction or an exponent. -/
def scanNumber (s : List Char) : Option (ℕ × Bool) :=
  (intLen (s.drop (minusLen s))).map fun n =>
    let rest := (s.drop (minusLen s)).drop n
    let more := fracLen rest + expLen (rest.drop (fracLen rest))
    (minusLen s + n + more, decide (0 < more))

/-! ## Tokens -/

inductive Tok where
  | lbrace
  | rbrace
  | lbracket
  | rbracket
  | comma
  | colon
  | str (s : PyStr)
  | int (literal : List Char)
  | float (literal : List Char)
  | bool (b : Bool)
  | null
  | space
deriving DecidableEq, Repr

def isSpace (c : Char) : Bool := c == ' ' || c == '\t' || c == '\n' || c == '\r'

def punct (c : Char) : Option Tok :=
  [('{', Tok.lbrace), ('}', Tok.rbrace), ('[', Tok.lbracket), (']', Tok.rbracket),
    (',', Tok.comma), (':', Tok.colon)].lookup c

/-- The tokens that are written as words. -/
def words : List (List Char × Tok) :=
  [("null".toList, .null), ("true".toList, .bool true), ("false".toList, .bool false),
    ("NaN".toList, .float "NaN".toList), ("Infinity".toList, .float "Infinity".toList),
    ("-Infinity".toList, .float "-Infinity".toList)]

def readWord (s : List Char) : Option (Tok × ℕ) :=
  (words.find? fun w => w.1.isPrefixOf s).map fun w => (w.2, w.1.length)

def readNumber (s : List Char) : Option (Tok × ℕ) :=
  (scanNumber s).map fun p => (if p.2 then .float (s.take p.1) else .int (s.take p.1), p.1)

/-- The next token of a text. -/
def token : Reader PyChar Tok
  | .scalar c :: s =>
      if isSpace c then some (.space, 1)
      else if c = '"' then (readString s).map fun p => (.str p.1, p.2 + 1)
      else
        match punct c with
        | some t => some (t, 1)
        | none => (readWord (c :: chars s)).or (readNumber (c :: chars s))
  | _ => none

/-- How a token other than a string is written. -/
def Tok.literal : Tok → List Char
  | .lbrace => ['{']
  | .rbrace => ['}']
  | .lbracket => ['[']
  | .rbracket => [']']
  | .comma => [',']
  | .colon => [':']
  | .str _ => []
  | .int literal => literal
  | .float literal => literal
  | .bool true => "true".toList
  | .bool false => "false".toList
  | .null => "null".toList
  | .space => [' ']

/-- How a token is written. -/
def Tok.text (ascii : Bool) : Tok → PyStr
  | .str s => .scalar '"' :: (escape ascii s ++ [.scalar '"'])
  | t => ofText t.literal

/-! ## Reading takes something -/

theorem hexValue4_length {s : List Char} {u : ℕ} (h : hexValue4 s = some u) : 4 ≤ s.length := by
  match s, h with
  | _ :: _ :: _ :: _ :: _, _ => simp

theorem surrogatePair_length {u : ℕ} {s : List Char} {c : Char}
    (h : surrogatePair u s = some c) : 6 ≤ s.length := by
  unfold surrogatePair at h
  split at h
  · next s =>
    split at h
    · next v hv =>
      have hlen := hexValue4_length hv
      simp only [List.length_cons]
      omega
    · simp at h
  · simp at h

theorem hexUnit_length (u : ℕ) (s : List Char) :
    0 < (hexUnit u s).2 ∧ (hexUnit u s).2 ≤ s.length + 6 := by
  unfold hexUnit
  split
  · split
    · next c hc =>
      split at hc
      · have hlen := surrogatePair_length hc
        simp only
        omega
      · simp at hc
    · simp
  · simp

theorem escapeUnit_length {s : List Char} {x : PyChar} {n : ℕ} (h : escapeUnit s = some (x, n)) :
    0 < n ∧ n ≤ s.length + 1 := by
  cases s with
  | nil => simp [escapeUnit] at h
  | cons c s =>
    simp only [escapeUnit, List.length_cons] at h ⊢
    split at h
    · obtain ⟨u, hu, hx⟩ := Option.map_eq_some_iff.mp h
      have hlen := hexValue4_length hu
      have hunit := hexUnit_length u (s.drop 4)
      rw [hx, List.length_drop] at hunit
      simp only at hunit
      omega
    · obtain ⟨d, -, hd⟩ := Option.map_eq_some_iff.mp h
      simp only [Prod.mk.injEq] at hd
      omega

theorem unit_proper : unit.Proper := by
  have hspec : ∀ {s x n}, unit s = some (x, n) → 0 < n ∧ n ≤ s.length := by
    intro s x n h
    match s with
    | [] => simp [unit] at h
    | .lone k :: s =>
      simp only [unit, Option.some.injEq, Prod.mk.injEq] at h
      simp only [List.length_cons]
      omega
    | .scalar c :: s =>
      have hchars := length_chars_le s
      simp only [unit, List.length_cons] at h ⊢
      split at h
      · have := escapeUnit_length h
        omega
      · split at h
        · simp at h
        · simp only [Option.some.injEq, Prod.mk.injEq] at h
          omega
  exact ⟨fun h => (hspec h).1, fun h => (hspec h).2⟩

/-! ## Escapes are read back -/

theorem hexValue_hexDigit : ∀ n < 16, hexValue (hexDigit n) = some n := by
  decide

theorem hexValue4_hexEscape {u : ℕ} (hu : u < 0x10000) (t : List Char) :
    hexValue4 ((hexEscape u ++ t).drop 2) = some u := by
  simp only [hexEscape, List.cons_append, List.nil_append, List.drop_succ_cons, List.drop_zero,
    hexValue4, hexValue_hexDigit _ (Nat.mod_lt _ (by omega : 0 < 16)), Option.bind_eq_bind,
    Option.bind_some]
  congr 1
  omega

/-- The escape of a 16-bit unit. -/
theorem unit_hexEscape {u : ℕ} (hu : u < 0x10000) (t : PyStr) :
    unit (ofText (hexEscape u) ++ t) = some (hexUnit u (chars t)) := by
  have hval := hexValue4_hexEscape hu (chars t)
  simp only [hexEscape, List.cons_append, List.nil_append, List.drop_succ_cons,
    List.drop_zero] at hval
  simp only [hexEscape, ofText_cons, ofText_nil, List.cons_append, List.nil_append, unit, if_true,
    chars_scalar, escapeUnit, hval, Option.map_some, List.drop_succ_cons, List.drop_zero]

/-- A character of the basic plane is written as one 16-bit unit. -/
theorem hexUnit_scalar (c : Char) (t : List Char) : hexUnit c.toNat t = (.scalar c, 6) := by
  have hvalid : c.toNat < 0xD800 ∨ 0xDFFF < c.toNat ∧ c.toNat < 0x110000 := c.valid
  rw [hexUnit, if_neg (by omega), Char.ofNat_toNat]

/-- A character beyond the basic plane is written as a surrogate pair. -/
theorem hexUnit_surrogates {c : Char} (hc : 0x10000 ≤ c.toNat) (t : List Char) :
    hexUnit (0xD800 + (c.toNat - 0x10000) / 0x400)
      (hexEscape (0xDC00 + (c.toNat - 0x10000) % 0x400) ++ t) = (.scalar c, 12) := by
  have hvalid : c.toNat < 0xD800 ∨ 0xDFFF < c.toNat ∧ c.toNat < 0x110000 := c.valid
  obtain ⟨u, hu⟩ : ∃ u, u = 0xD800 + (c.toNat - 0x10000) / 0x400 := ⟨_, rfl⟩
  obtain ⟨v, hv⟩ : ∃ v, v = 0xDC00 + (c.toNat - 0x10000) % 0x400 := ⟨_, rfl⟩
  have hval : 0x10000 + (u - 0xD800) * 0x400 + (v - 0xDC00) = c.toNat := by omega
  have hv4 := hexValue4_hexEscape (show v < 0x10000 by omega) t
  rw [← hu, ← hv, hexUnit, if_pos (by omega), if_pos (by omega)]
  simp only [hexEscape, List.cons_append, List.nil_append, List.drop_succ_cons,
    List.drop_zero] at hv4
  simp only [hexEscape, List.cons_append, List.nil_append, surrogatePair, hv4]
  rw [if_pos (by omega), hval, Char.ofNat_toNat]

theorem unit_escapeScalar (ascii : Bool) (c : Char) (t : PyStr) :
    unit (ofText (escapeScalar ascii c) ++ t) =
      some (.scalar c, (escapeScalar ascii c).length) := by
  unfold escapeScalar
  split_ifs with h1 h2 h3 h4 h5 h6 h7 h8 h9
  all_goals first
    | (subst_vars; rfl)
    | (rw [unit_hexEscape h9, hexUnit_scalar]; rfl)
    | skip
  · have hvalid : c.toNat < 0xD800 ∨ 0xDFFF < c.toNat ∧ c.toNat < 0x110000 := c.valid
    rw [ofText_append, List.append_assoc, unit_hexEscape (by omega), chars_ofText_append,
      hexUnit_surrogates (by omega)]
    rfl
  · simp only [ofText_cons, ofText_nil, List.cons_append, List.nil_append, unit]
    rw [if_neg h2, if_neg (by simp only [h1, false_or]; omega)]
    rfl

/-- An escaped character is read back. -/
theorem unit_escapeChar {ascii : Bool} {c : PyChar} (hc : ascii = true → ∃ d, c = .scalar d)
    (t : PyStr) : unit (escapeChar ascii c ++ t) = some (c, (escapeChar ascii c).length) := by
  cases c with
  | scalar c => simpa [escapeChar] using unit_escapeScalar ascii c t
  | lone k =>
    cases ascii with
    | true =>
      obtain ⟨d, hd⟩ := hc rfl
      cases hd
    | false => rfl

/-- A string that is read back after it was written: with `ensure_ascii`, one of scalar
values. -/
def Writable (ascii : Bool) (s : PyStr) : Prop := ascii = true → Scalar s

theorem drain_unit_escape {ascii : Bool} {s : PyStr} (hs : Writable ascii s) (rest : PyStr) :
    drain unit (escape ascii s ++ rest) = (s ++ (drain unit rest).1, (drain unit rest).2) := by
  induction s with
  | nil => rfl
  | cons c s ih =>
    have hsplit : escape ascii (c :: s) ++ rest =
        escapeChar ascii c ++ (escape ascii s ++ rest) := by
      simp [escape]
    have hc : ascii = true → ∃ d, c = .scalar d := fun h => hs h c List.mem_cons_self
    rw [hsplit, drain_of_some unit_proper (unit_escapeChar hc _), List.drop_left,
      ih fun h d hd => hs h d (List.mem_cons_of_mem _ hd), List.cons_append]

/-- A written string is read back. -/
theorem readString_escape {ascii : Bool} {s : PyStr} (hs : Writable ascii s) (rest : PyStr) :
    readString (escape ascii s ++ .scalar '"' :: rest) = some (s, (escape ascii s).length + 1) := by
  have hquote : drain unit (.scalar '"' :: rest) = ([], .scalar '"' :: rest) :=
    drain_of_none unit_proper rfl
  rw [readString, drain_unit_escape hs, hquote]
  simp only [List.append_nil, List.length_append, List.length_cons]
  congr 2
  omega

/-! ## Numbers are read back -/

/-- The characters that can go on with a number. -/
def isNumberChar (c : Char) : Bool :=
  c.isDigit || c == '.' || c == 'e' || c == 'E' || c == '+' || c == '-'

/-- A text that does not go on with a number. -/
def Stops (rest : List Char) : Prop := ∀ c, rest.head? = some c → isNumberChar c = false

section Numbers

variable {s rest : List Char} (hstop : Stops rest)

include hstop

theorem Stops.head (h : rest = c :: t) : c.isDigit = false ∧ c ≠ '.' ∧ c ≠ 'e' ∧ c ≠ 'E' ∧
    c ≠ '+' ∧ c ≠ '-' := by
  have hc := hstop c (by simp [h])
  simpa [isNumberChar, and_assoc] using hc

theorem digitRun_append (s : List Char) : digitRun (s ++ rest) = digitRun s := by
  have hrest : rest.takeWhile Char.isDigit = [] := by
    cases rest with
    | nil => rfl
    | cons c t => simp [(hstop.head rfl).1]
  unfold digitRun
  rw [List.takeWhile_append]
  split
  · next hall => simp [hrest, hall]
  · rfl

theorem intLen_append (h : s ≠ []) : intLen (s ++ rest) = intLen s := by
  cases s with
  | nil => exact absurd rfl h
  | cons c s =>
    have hrun := digitRun_append hstop (c :: s)
    simp only [List.cons_append] at hrun
    simp only [List.cons_append, intLen, hrun]

theorem fracLen_append (s : List Char) : fracLen (s ++ rest) = fracLen s := by
  cases s with
  | nil =>
    cases rest with
    | nil => rfl
    | cons c t => simp [fracLen, (hstop.head rfl).2.1]
  | cons c s => simp only [List.cons_append, fracLen, digitRun_append hstop]

theorem signLen_append (s : List Char) : signLen (s ++ rest) = signLen s := by
  cases s with
  | nil =>
    cases rest with
    | nil => rfl
    | cons c t => simp [signLen, (hstop.head rfl).2.2.2.2]
  | cons c s => rfl

omit hstop in
theorem signLen_le (s : List Char) : signLen s ≤ s.length := by
  cases s with
  | nil => exact Nat.le_refl _
  | cons c s =>
    simp only [signLen, List.length_cons]
    split <;> omega

theorem expLen_append (s : List Char) : expLen (s ++ rest) = expLen s := by
  cases s with
  | nil =>
    cases rest with
    | nil => rfl
    | cons c t => simp [expLen, (hstop.head rfl).2.2]
  | cons c s =>
    simp only [List.cons_append, expLen, signLen_append hstop,
      List.drop_append_of_le_length (signLen_le s), digitRun_append hstop]

omit hstop in
theorem digitRun_le (s : List Char) : digitRun s ≤ s.length := (List.takeWhile_prefix _).length_le

omit hstop in
theorem intLen_bounds {n : ℕ} (h : intLen s = some n) : 0 < n ∧ n ≤ s.length := by
  cases s with
  | nil => simp [intLen] at h
  | cons c s =>
    simp only [intLen] at h
    split at h
    · simp only [Option.some.injEq] at h
      simp only [List.length_cons]
      omega
    · split at h
      · next hc =>
        simp only [Option.some.injEq] at h
        rw [← h]
        exact ⟨by simp [digitRun, hc], digitRun_le _⟩
      · simp at h

omit hstop in
theorem fracLen_le (s : List Char) : fracLen s ≤ s.length := by
  cases s with
  | nil => exact Nat.le_refl _
  | cons c s =>
    have hrun := digitRun_le s
    simp only [fracLen, List.length_cons]
    split <;> omega

omit hstop in
theorem expLen_le (s : List Char) : expLen s ≤ s.length := by
  cases s with
  | nil => exact Nat.le_refl _
  | cons c s =>
    have hsign := signLen_le s
    have hrun := digitRun_le (s.drop (signLen s))
    simp only [List.length_drop] at hrun
    simp only [expLen, List.length_cons]
    split <;> omega

omit hstop in
theorem minusLen_le (s : List Char) : minusLen s ≤ s.length := by
  cases s with
  | nil => exact Nat.le_refl _
  | cons c s =>
    simp only [minusLen, List.length_cons]
    split <;> omega

omit hstop in
theorem minusLen_append (h : s ≠ []) : minusLen (s ++ rest) = minusLen s := by
  cases s with
  | nil => exact absurd rfl h
  | cons c s => rfl

omit hstop in
theorem scanNumber_bounds {n : ℕ} {b : Bool} (h : scanNumber s = some (n, b)) :
    0 < n ∧ n ≤ s.length := by
  obtain ⟨i, hi, hn⟩ := Option.map_eq_some_iff.mp h
  simp only [Prod.mk.injEq] at hn
  have hint := intLen_bounds hi
  have hminus := minusLen_le s
  have hfrac := fracLen_le ((s.drop (minusLen s)).drop i)
  have hexp := expLen_le (((s.drop (minusLen s)).drop i).drop
    (fracLen ((s.drop (minusLen s)).drop i)))
  simp only [List.length_drop] at hint hfrac hexp
  omega

/-- A number is read as far in front of a text that does not go on with it. -/
theorem scanNumber_append {n : ℕ} {b : Bool} (h : scanNumber s = some (n, b)) :
    scanNumber (s ++ rest) = some (n, b) := by
  have hs : s ≠ [] := by
    rintro rfl
    simp [scanNumber, intLen] at h
  obtain ⟨i, hi, -⟩ := Option.map_eq_some_iff.mp h
  have hint := intLen_bounds hi
  have hdigits : s.drop (minusLen s) ≠ [] := List.ne_nil_of_length_pos (by omega)
  rw [← h]
  simp only [scanNumber, minusLen_append hs, List.drop_append_of_le_length (minusLen_le s),
    intLen_append hstop hdigits, hi, Option.map_some, List.drop_append_of_le_length hint.2,
    fracLen_append hstop, List.drop_append_of_le_length (fracLen_le _), expLen_append hstop]

end Numbers

/-! ## Tokens are read back -/

/-- A literal that is read as a floating-point number. -/
def IsFloatLiteral (l : List Char) : Prop :=
  (l, Tok.float l) ∈ words ∨ scanNumber l = some (l.length, true)

/-- A literal that is read as an integer. -/
def IsIntLiteral (l : List Char) : Prop := scanNumber l = some (l.length, false)

/-- A token with a literal of its own kind. -/
def Tok.Ok : Tok → Prop
  | .int l => IsIntLiteral l
  | .float l => IsFloatLiteral l
  | _ => True

/-- A token that is read back after it was written. -/
def Tok.Writable (ascii : Bool) : Tok → Prop
  | .str s => Json.Writable ascii s
  | _ => True

def Tok.isNumber : Tok → Bool
  | .int _ | .float _ => true
  | _ => false

/-- A word is read whatever follows it. -/
theorem token_word {w : List Char × Tok} (hw : w ∈ words) (rest : PyStr) :
    token (ofText w.1 ++ rest) = some (w.2, w.1.length) := by
  simp only [words, List.mem_cons, List.not_mem_nil, or_false] at hw
  rcases hw with rfl | rfl | rfl | rfl | rfl | rfl <;> rfl

/-- How a number starts. -/
theorem scanNumber_head {c : Char} {s : List Char} {p : ℕ × Bool}
    (h : scanNumber (c :: s) = some p) :
    c.isDigit = true ∨ c = '-' ∧ ∃ d s', s = d :: s' ∧ d.isDigit = true := by
  obtain ⟨i, hi, -⟩ := Option.map_eq_some_iff.mp h
  by_cases hc : c = '-'
  · refine .inr ⟨hc, ?_⟩
    cases s with
    | nil => simp [minusLen, hc, intLen] at hi
    | cons d s =>
      refine ⟨d, s, rfl, ?_⟩
      simp only [minusLen, hc, if_true, List.drop_succ_cons, List.drop_zero, intLen] at hi
      split at hi
      · next hd => simp [hd]
      · split at hi
        · assumption
        · simp at hi
  · left
    simp only [minusLen, hc, if_false, List.drop_zero, intLen] at hi
    split at hi
    · next hd => simp [hd]
    · split at hi
      · assumption
      · simp at hi

theorem beq_digit {c : Char} (hc : c.isDigit = true) (x : Char) (hx : x.isDigit = false) :
    (x == c) = false ∧ c ≠ x := by
  have hne : c ≠ x := by
    rintro rfl
    simp [hc] at hx
  exact ⟨by simpa using hne.symm, hne⟩

/-- A number is neither white space, nor punctuation, nor a word. -/
theorem token_number {l : List Char} {s : PyStr} {p : ℕ × Bool}
    (h : scanNumber (l ++ chars s) = some p) (hl : l ≠ []) :
    token (ofText l ++ s) = readNumber (l ++ chars s) := by
  obtain ⟨c, l, rfl⟩ := List.exists_cons_of_ne_nil hl
  have hchars : chars (ofText l ++ s) = l ++ chars s := chars_ofText_append l s
  rw [List.cons_append] at h ⊢
  rcases scanNumber_head h with hc | ⟨rfl, d, l', hd', hd⟩
  · have hne := beq_digit hc
    have hspace : isSpace c = false := by
      simp [isSpace, (hne ' ' rfl).2, (hne '\t' rfl).2, (hne '\n' rfl).2, (hne '\r' rfl).2]
    have hpunct : punct c = none := by
      have hflip : ∀ x : Char, x.isDigit = false → (c == x) = false := fun x hx => by
        simpa using (hne x hx).2
      simp [punct, List.lookup, hflip]
    have hword : readWord (c :: (l ++ chars s)) = none := by
      simp [readWord, words, List.isPrefixOf, hne 'n' rfl, hne 't' rfl, hne 'f' rfl, hne 'N' rfl,
        hne 'I' rfl, hne '-' rfl]
    rw [ofText_cons, List.cons_append, token, if_neg (by simp [hspace]), if_neg (hne '"' rfl).2,
      hpunct, hchars, hword]
    rfl
  · have hword : readWord ('-' :: (l ++ chars s)) = none := by
      rw [hd']
      simp [readWord, words, List.isPrefixOf, beq_digit hd 'I' rfl]
    have hpunct : punct '-' = none := rfl
    rw [ofText_cons, List.cons_append, token, if_neg (by decide), if_neg (by decide), hpunct, hchars,
      hword]
    rfl

/-- The text of a token is read back. -/
theorem token_text {ascii : Bool} {t : Tok} (ht : t.Ok) (hw : t.Writable ascii) {rest : PyStr}
    (hrest : t.isNumber = true → Stops (chars rest)) :
    token (t.text ascii ++ rest) = some (t, (t.text ascii).length) := by
  -- a number is read to its end
  have hnum : ∀ {l : List Char} {b : Bool}, scanNumber l = some (l.length, b) →
      Stops (chars rest) →
        token (ofText l ++ rest) = some (if b then .float l else .int l, (ofText l).length) := by
    intro l b hl hstop
    have hread := scanNumber_append hstop hl
    have hne : l ≠ [] := by
      rintro rfl
      simp [scanNumber, intLen] at hl
    rw [token_number hread hne, readNumber, hread]
    simp
  -- a word is read whatever follows
  have hword : ∀ {l : List Char} {t : Tok}, (l, t) ∈ words →
      token (ofText l ++ rest) = some (t, (ofText l).length) := by
    intro l t hw
    rw [token_word hw, length_ofText]
  cases t with
  | str s =>
    have hread := readString_escape hw rest
    simp only [Tok.text, List.cons_append, List.append_assoc, List.nil_append, token]
    rw [if_neg (by decide), if_pos trivial, hread]
    simp
  | int l => exact hnum ht (hrest rfl)
  | float l =>
    rcases ht with hw | hl
    · exact hword hw
    · exact hnum hl (hrest rfl)
  | bool b =>
    cases b with
    | true => exact hword (by simp [words, Tok.literal])
    | false => exact hword (by simp [words, Tok.literal])
  | null => exact hword (by simp [words, Tok.literal])
  | _ => rfl

/-- A token that is not a number stops a number. -/
theorem stops_text (ascii : Bool) {t : Tok} (ht : t.isNumber = false) (rest : PyStr) :
    Stops (chars (t.text ascii ++ rest)) := by
  intro c hc
  cases t with
  | int l => simp [Tok.isNumber] at ht
  | float l => simp [Tok.isNumber] at ht
  | bool b =>
    cases b
    all_goals
      cases hc
      rfl
  | _ =>
    cases hc
    rfl

theorem readString_bounds {s cs : PyStr} {n : ℕ} (h : readString s = some (cs, n)) :
    n ≤ s.length := by
  unfold readString at h
  split at h
  · simp only [Option.some.injEq, Prod.mk.injEq] at h
    omega
  · simp at h

theorem readWord_bounds {s : List Char} {x : Tok} {n : ℕ} (h : readWord s = some (x, n)) :
    0 < n ∧ n ≤ s.length := by
  obtain ⟨w, hw, hx⟩ := Option.map_eq_some_iff.mp h
  have hmem := List.mem_of_find?_eq_some hw
  have hpre : w.1 <+: s := by simpa using List.find?_some hw
  have hpos : ∀ w ∈ words, 0 < w.1.length := by decide
  simp only [Prod.mk.injEq] at hx
  rw [← hx.2]
  exact ⟨hpos w hmem, hpre.length_le⟩

theorem token_proper : token.Proper := by
  have hspec : ∀ {s x n}, token s = some (x, n) → 0 < n ∧ n ≤ s.length := by
    intro s x n h
    match s with
    | [] => simp [token] at h
    | .lone k :: s => simp [token] at h
    | .scalar c :: s =>
      have hchars := length_chars_le s
      simp only [token, List.length_cons] at h ⊢
      split at h
      · simp only [Option.some.injEq, Prod.mk.injEq] at h
        omega
      · split at h
        · obtain ⟨p, hp, hx⟩ := Option.map_eq_some_iff.mp h
          have hbound := readString_bounds (show readString s = some (p.1, p.2) from hp)
          simp only [Prod.mk.injEq] at hx
          omega
        · split at h
          · simp only [Option.some.injEq, Prod.mk.injEq] at h
            omega
          · rcases Option.or_eq_some_iff.mp h with hw | ⟨-, hn⟩
            · have hbound := readWord_bounds hw
              simp only [List.length_cons] at hbound
              omega
            · obtain ⟨p, hp, hx⟩ := Option.map_eq_some_iff.mp hn
              have hbound := scanNumber_bounds (n := p.1) (b := p.2) hp
              simp only [Prod.mk.injEq, List.length_cons] at hx hbound
              omega
  exact ⟨fun h => (hspec h).1, fun h => (hspec h).2⟩

/-- Tokens are read back in front of any text, when no two numbers stand side by side and
the text does not go on with the last one. -/
theorem lex_text_append {ascii : Bool} {toks : List Tok} {rest : PyStr} (hok : ∀ t ∈ toks, t.Ok)
    (hw : ∀ t ∈ toks, t.Writable ascii)
    (hsep : toks.IsChain fun t t' => t.isNumber = true → t'.isNumber = false)
    (hrest : ∀ t, toks.getLast? = some t → t.isNumber = true → Stops (chars rest)) :
    drain token (toks.flatMap (Tok.text ascii) ++ rest) =
      (toks ++ (drain token rest).1, (drain token rest).2) := by
  induction toks with
  | nil => rfl
  | cons t toks ih =>
    have hstops : t.isNumber = true → Stops (chars (toks.flatMap (Tok.text ascii) ++ rest)) := by
      intro hnum
      cases toks with
      | nil => exact hrest t rfl hnum
      | cons t' toks =>
        rw [List.isChain_cons_cons] at hsep
        rw [List.flatMap_cons, List.append_assoc]
        exact stops_text ascii (hsep.1 hnum) _
    have htoken := token_text (hok t List.mem_cons_self) (hw t List.mem_cons_self) hstops
    have hlast : ∀ t', toks.getLast? = some t' → t'.isNumber = true → Stops (chars rest) := by
      intro t' ht'
      refine hrest t' ?_
      rw [List.getLast?_cons, ht']
      rfl
    rw [List.flatMap_cons, List.append_assoc, drain_of_some token_proper htoken, List.drop_left,
      ih (fun t' h => hok t' (List.mem_cons_of_mem _ h))
        (fun t' h => hw t' (List.mem_cons_of_mem _ h)) hsep.of_cons hlast, List.cons_append]

/-- **Tokens are read back**: the text of a list of tokens in which no two numbers stand
side by side. -/
theorem lex_text {ascii : Bool} {toks : List Tok} (hok : ∀ t ∈ toks, t.Ok)
    (hw : ∀ t ∈ toks, t.Writable ascii)
    (hsep : toks.IsChain fun t t' => t.isNumber = true → t'.isNumber = false) :
    drain token (toks.flatMap (Tok.text ascii)) = (toks, []) := by
  have hend : drain token [] = ([], []) := drain_of_none token_proper rfl
  have happ := @lex_text_append ascii toks [] hok hw hsep fun _ _ _ => by simp [Stops]
  rwa [List.append_nil, hend, List.append_nil] at happ

/-! ## No control characters -/

theorem isNumberChar_of_isDigit {c : Char} (h : c.isDigit = true) : isNumberChar c = true := by
  simp [isNumberChar, h]

theorem mem_take_digitRun {s : List Char} {c : Char} (h : c ∈ s.take (digitRun s)) :
    isNumberChar c = true := by
  have htake : s.take (digitRun s) = s.takeWhile Char.isDigit :=
    (List.prefix_iff_eq_take.mp (List.takeWhile_prefix _)).symm
  rw [htake] at h
  exact isNumberChar_of_isDigit (List.all_eq_true.mp List.all_takeWhile c h)

/-- A prefix that is split: what holds of both parts holds of the whole. -/
theorem forall_mem_take_add {s : List Char} {n m : ℕ} {P : Char → Prop}
    (hn : ∀ c ∈ s.take n, P c) (hm : ∀ c ∈ (s.drop n).take m, P c) : ∀ c ∈ s.take (n + m), P c := by
  intro c hc
  rw [List.take_add, List.mem_append] at hc
  exact hc.elim (hn c) (hm c)

theorem mem_take_intLen {s : List Char} {n : ℕ} (h : intLen s = some n) :
    ∀ c ∈ s.take n, isNumberChar c = true := by
  cases s with
  | nil => simp
  | cons d s =>
    simp only [intLen] at h
    split at h
    · next hd =>
      cases h
      simp only [List.take_succ_cons, List.take_zero, List.mem_singleton]
      rintro c rfl
      exact isNumberChar_of_isDigit (by simp [hd])
    · split at h
      · cases h
        exact fun c hc => mem_take_digitRun hc
      · cases h

theorem mem_take_fracLen (s : List Char) : ∀ c ∈ s.take (fracLen s), isNumberChar c = true := by
  cases s with
  | nil => simp
  | cons d s =>
    simp only [fracLen]
    split
    · next hd =>
      refine forall_mem_take_add ?_ fun c hc => mem_take_digitRun hc
      simp [hd.1, isNumberChar]
    · simp

theorem mem_take_signLen (s : List Char) : ∀ c ∈ s.take (signLen s), isNumberChar c = true := by
  cases s with
  | nil => simp
  | cons d s =>
    simp only [signLen]
    split
    · next hd => rcases hd with rfl | rfl <;> simp [isNumberChar]
    · simp

theorem mem_take_expLen (s : List Char) : ∀ c ∈ s.take (expLen s), isNumberChar c = true := by
  cases s with
  | nil => simp
  | cons d s =>
    simp only [expLen]
    split
    · next hd =>
      rw [Nat.add_assoc]
      refine forall_mem_take_add ?_ ?_
      · rcases hd.1 with rfl | rfl <;> simp [isNumberChar]
      · exact forall_mem_take_add (mem_take_signLen s) fun c hc => mem_take_digitRun hc
    · simp

theorem mem_take_minusLen (s : List Char) : ∀ c ∈ s.take (minusLen s), isNumberChar c = true := by
  cases s with
  | nil => simp
  | cons d s =>
    simp only [minusLen]
    split
    · next hd => simp [hd, isNumberChar]
    · simp

/-- What is read as a number consists of the characters of numbers. -/
theorem mem_take_scanNumber {s : List Char} {n : ℕ} {b : Bool} (h : scanNumber s = some (n, b)) :
    ∀ c ∈ s.take n, isNumberChar c = true := by
  obtain ⟨i, hi, hn⟩ := Option.map_eq_some_iff.mp h
  simp only [Prod.mk.injEq] at hn
  rw [← hn.1, Nat.add_assoc]
  exact forall_mem_take_add (mem_take_minusLen s) (forall_mem_take_add (mem_take_intLen hi)
    (forall_mem_take_add (mem_take_fracLen _) (mem_take_expLen _)))

/-- Printable, as far as JSON is concerned: no control character. -/
def Printable (c : PyChar) : Prop := 0x20 ≤ c.code

instance : DecidablePred Printable := fun c => inferInstanceAs (Decidable (0x20 ≤ c.code))

theorem printable_of_isNumberChar {c : Char} (h : isNumberChar c = true) :
    Printable (.scalar c) := by
  simp only [isNumberChar, Bool.or_eq_true, beq_iff_eq] at h
  rcases h with ((((h | rfl) | rfl) | rfl) | rfl) | rfl
  · have hlow : '0'.toNat ≤ c.toNat := (Char.isDigit_iff_toNat.mp h).1
    exact Nat.le_trans (by decide) hlow
  all_goals decide

theorem printable_hexDigit (n : ℕ) : Printable (.scalar (hexDigit n)) := by
  unfold hexDigit
  by_cases h : n < 16
  · have hall : ∀ n < 16, 0x20 ≤ ("0123456789abcdef".toList.getD n '0').toNat := by decide
    exact hall n h
  · rw [List.getD_eq_getElem?_getD, List.getElem?_eq_none (by simpa using h)]
    decide

theorem printable_hexEscape (u : ℕ) : ∀ c ∈ ofText (hexEscape u), Printable c := by
  intro c hc
  simp only [hexEscape, ofText_cons, ofText_nil, List.mem_cons, List.not_mem_nil, or_false] at hc
  rcases hc with rfl | rfl | rfl | rfl | rfl | rfl
  · decide
  · decide
  all_goals exact printable_hexDigit _

theorem printable_escapeScalar (ascii : Bool) (c : Char) :
    ∀ d ∈ ofText (escapeScalar ascii c), Printable d := by
  unfold escapeScalar
  split_ifs with h1 h2 h3 h4 h5 h6 h7 h8
  all_goals first
    | decide
    | exact printable_hexEscape _
    | skip
  · rw [ofText_append]
    exact List.forall_mem_append.mpr ⟨printable_hexEscape _, printable_hexEscape _⟩
  · intro d hd
    rw [List.mem_singleton.mp hd]
    show 0x20 ≤ c.toNat
    omega

theorem printable_escapeChar (ascii : Bool) (c : PyChar) :
    ∀ d ∈ escapeChar ascii c, Printable d := by
  cases c with
  | scalar c => exact printable_escapeScalar ascii c
  | lone k =>
    show ∀ d ∈ if ascii then ofText (hexEscape (0xD800 + k)) else [.lone k], Printable d
    split
    · exact printable_hexEscape _
    · intro d hd
      rw [List.mem_singleton.mp hd]
      show 0x20 ≤ 0xD800 + (k : ℕ)
      omega

/-- What holds of the characters of numbers, of words and of punctuation holds of every
token that is not a string. -/
theorem forall_mem_literal {P : Char → Prop} (hnum : ∀ c, isNumberChar c = true → P c)
    (hwords : ∀ w ∈ words, ∀ c ∈ w.1, P c) (hpunct : ∀ c ∈ "\x7b\x7d[],: ".toList, P c) {t : Tok}
    (ht : t.Ok) : ∀ c ∈ t.literal, P c := by
  have hlit : ∀ {l : List Char} {b : Bool}, scanNumber l = some (l.length, b) →
      ∀ c ∈ l, P c := by
    intro l b hl c hc
    exact hnum c (mem_take_scanNumber hl c (by simpa using hc))
  have hword : ∀ {t : Tok}, (t.literal, t) ∈ words → ∀ c ∈ t.literal, P c :=
    fun hw => hwords _ hw
  cases t with
  | str s => simp [Tok.literal]
  | int l => exact hlit ht
  | float l =>
    rcases ht with hw | hl
    · exact hwords _ hw
    · exact hlit hl
  | bool b =>
    cases b with
    | true => exact hword (by decide)
    | false => exact hword (by decide)
  | null => exact hword (by decide)
  | _ =>
    intro c hc
    cases List.mem_singleton.mp hc
    exact hpunct _ (by decide)

/-- A token is written without control characters. -/
theorem printable_text (ascii : Bool) {t : Tok} (ht : t.Ok) :
    ∀ c ∈ t.text ascii, Printable c := by
  have hliteral : ∀ c ∈ ofText t.literal, Printable c := by
    intro c hc
    obtain ⟨d, hd, rfl⟩ := List.mem_map.mp hc
    exact forall_mem_literal (P := fun d => Printable (.scalar d))
      (fun _ h => printable_of_isNumberChar h) (by simp [words, Printable, PyChar.code])
      (by simp [Printable, PyChar.code]) ht d hd
  cases t with
  | str s =>
    intro c hc
    simp only [Tok.text, escape, List.mem_cons, List.mem_append, List.mem_flatMap,
      List.not_mem_nil, or_false] at hc
    rcases hc with rfl | ⟨d, -, hd⟩ | rfl
    · decide
    · exact printable_escapeChar ascii d c hd
    · decide
  | _ => exact hliteral

end Json
