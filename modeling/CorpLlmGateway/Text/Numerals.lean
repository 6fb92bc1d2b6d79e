import CorpLlmGateway.Text.Scan
import CorpLlmGateway.Text.Unicode

/-!
# Numbers as text

`int(text)` and `str(n)`. The interpreter converts no number of more than 4300 digits, in
either direction.

* `parseInt_intText` — a number that can be written is read back;
* `shortInt_of_parseInt` — a number that was read can be written.
-/

namespace Numerals

open TextScan Unicode

/-- `sys.get_int_max_str_digits()`. -/
def maxStrDigits : ℕ := 4300

/-! ## Writing -/

/-- `str(n)`. -/
def intText (n : ℤ) : List Char :=
  if n < 0 then '-' :: Nat.toDigits 10 n.natAbs else Nat.toDigits 10 n.natAbs

/-- An integer that the interpreter converts from and to text. -/
def ShortInt (n : ℤ) : Prop := (Nat.toDigits 10 n.natAbs).length ≤ maxStrDigits

instance (n : ℤ) : Decidable (ShortInt n) := inferInstanceAs (Decidable (_ ≤ _))

theorem shortInt_iff {n : ℤ} : ShortInt n ↔ n.natAbs < 10 ^ maxStrDigits :=
  Nat.length_toDigits_le_iff (by decide) (by decide)

/-! ## Reading -/

/-- The number that decimal digits stand for. -/
def numeral (digits : List Char) : ℕ := digits.foldl (fun n c => 10 * n + digitValue c) 0

/-- The white space that `int` ignores: U+001C to U+001F are spaces of `str` only. -/
def isIntSpace (c : Char) : Bool := isSpace c && !(28 ≤ c.toNat && c.toNat ≤ 31)

/-- The digits behind the first one; an underscore may stand before each of them. -/
def moreDigits : List Char → Option (List Char)
  | [] => some []
  | '_' :: c :: s => if isDecimal c then (moreDigits s).map (c :: ·) else none
  | c :: s => if isDecimal c then (moreDigits s).map (c :: ·) else none

/-- A number without a sign. -/
def unsignedInt : List Char → Option ℕ
  | [] => none
  | c :: s =>
      if isDecimal c then
        match moreDigits s with
        | some ds => if ds.length < maxStrDigits then some (numeral (c :: ds)) else none
        | none => none
      else none

/-- `int(text)`; `none` for a `ValueError`. -/
def parseInt (text : List Char) : Option ℤ :=
  match strip isIntSpace text with
  | '+' :: s => (unsignedInt s).map fun n : ℕ => (n : ℤ)
  | '-' :: s => (unsignedInt s).map fun n : ℕ => -(n : ℤ)
  | s => (unsignedInt s).map fun n : ℕ => (n : ℤ)

example : parseInt " -1_0\n".toList = some (-10) ∧ parseInt "\x1c5".toList = none := by decide

/-! ## What is read can be written -/

theorem digitValue_lt (c : Char) : digitValue c < 10 := by
  unfold digitValue
  split
  · next z hz =>
    have hfound := List.find?_some hz
    simp only [Bool.and_eq_true, decide_eq_true_eq] at hfound
    omega
  · omega

theorem numeral_append_singleton (s : List Char) (c : Char) :
    numeral (s ++ [c]) = 10 * numeral s + digitValue c := by
  simp [numeral]

theorem numeral_lt (s : List Char) : numeral s < 10 ^ s.length := by
  induction s using List.reverseRecOn with
  | nil => decide
  | append_singleton s c ih =>
    have hc := digitValue_lt c
    rw [numeral_append_singleton, List.length_append, List.length_singleton, pow_succ]
    omega

theorem unsignedInt_lt {s : List Char} {n : ℕ} (h : unsignedInt s = some n) :
    n < 10 ^ maxStrDigits := by
  unfold unsignedInt at h
  split at h
  · cases h
  · split at h
    · split at h
      · next c s _ ds _ =>
        split at h
        · next hlen =>
          cases h
          exact (numeral_lt _).trans_le (Nat.pow_le_pow_right (by decide) hlen)
        · cases h
      · cases h
    · cases h

theorem shortInt_of_parseInt {s : List Char} {n : ℤ} (h : parseInt s = some n) : ShortInt n := by
  rw [shortInt_iff]
  unfold parseInt at h
  split at h
  all_goals
    obtain ⟨k, hk, rfl⟩ := Option.map_eq_some_iff.mp h
    simpa using unsignedInt_lt hk

/-! ## What is written is read back -/

theorem digitValue_digitChar {d : ℕ} (h : d < 10) : digitValue (Nat.digitChar d) = d := by
  interval_cases d <;> decide

theorem isIntSpace_of_isDigit {c : Char} (h : c.isDigit = true) : isIntSpace c = false := by
  have hrange : 48 ≤ c.toNat ∧ c.toNat ≤ 57 := by
    simp only [Char.isDigit, Bool.and_eq_true, decide_eq_true_eq] at h
    exact h
  simp only [isIntSpace, isSpace, Bool.and_eq_false_iff, Bool.or_eq_false_iff,
    decide_eq_false_iff_not, beq_eq_false_iff_ne]
  omega

theorem moreDigits_eq {s : List Char} (h : ∀ c ∈ s, isDecimal c = true) : moreDigits s = some s := by
  induction s with
  | nil => rfl
  | cons c s ih =>
    obtain ⟨hc, h⟩ := List.forall_mem_cons.mp h
    rw [moreDigits, if_pos hc, ih h, Option.map_some]
    rintro _ _ rfl
    exact absurd hc (by decide)

/-- Decimal digits are read unless they are too many. -/
theorem unsignedInt_eq {s : List Char} (hne : s ≠ []) (h : ∀ c ∈ s, isDecimal c = true) :
    unsignedInt s = if s.length ≤ maxStrDigits then some (numeral s) else none := by
  cases s with
  | nil => exact absurd rfl hne
  | cons c s =>
    obtain ⟨hc, h⟩ := List.forall_mem_cons.mp h
    simp only [unsignedInt, hc, moreDigits_eq h, if_true, List.length_cons, Nat.succ_le_iff]

theorem numeral_toDigits (n : ℕ) : numeral (Nat.toDigits 10 n) = n := by
  induction n using Nat.strong_induction_on with
  | _ n ih =>
    by_cases hn : n < 10
    · rw [Nat.toDigits_of_lt_base hn]
      exact (numeral_append_singleton [] _).trans (by simp [numeral, digitValue_digitChar hn])
    · rw [Nat.toDigits_of_base_le (by decide) (by omega), numeral_append_singleton,
        ih _ (by omega), digitValue_digitChar (by omega)]
      omega

theorem unsignedInt_toDigits (n : ℕ) :
    unsignedInt (Nat.toDigits 10 n) = if ShortInt n then some n else none := by
  have hdigits : ∀ c ∈ Nat.toDigits 10 n, isDecimal c = true := fun c hc =>
    isDecimal_of_isDigit (Nat.isDigit_of_mem_toDigits (by decide) (by decide) hc)
  rw [unsignedInt_eq Nat.toDigits_ne_nil hdigits, numeral_toDigits]
  rfl

/-- A text of digits, with or without a sign, has no white space around it. -/
theorem strip_intText (n : ℤ) : strip isIntSpace (intText n) = intText n := by
  have hspace : ∀ c ∈ intText n, isIntSpace c = false := by
    intro c hc
    have hdigit : c ∈ Nat.toDigits 10 n.natAbs → isIntSpace c = false := fun hc =>
      isIntSpace_of_isDigit (Nat.isDigit_of_mem_toDigits (by decide) (by decide) hc)
    unfold intText at hc
    split at hc
    · rcases List.mem_cons.mp hc with rfl | hc
      · decide
      · exact hdigit hc
    · exact hdigit hc
  exact strip_eq_self hspace

/-- A text of digits has no sign. -/
theorem ne_sign_cons {s t : List Char} {c : Char} (hs : ∀ d ∈ s, d.isDigit = true)
    (hc : c.isDigit = false) : s ≠ c :: t := by
  rintro rfl
  exact absurd (hs c List.mem_cons_self) (by simp [hc])

/-- **Reading back**: of the text of a number `int` reads the number, unless it has too many
digits. -/
theorem parseInt_intText (n : ℤ) : parseInt (intText n) = if ShortInt n then some n else none := by
  have hread : unsignedInt (Nat.toDigits 10 n.natAbs) = if ShortInt n then some n.natAbs else none :=
    unsignedInt_toDigits n.natAbs
  have hdigits : ∀ c ∈ Nat.toDigits 10 n.natAbs, c.isDigit = true := fun c hc =>
    Nat.isDigit_of_mem_toDigits (by decide) (by decide) hc
  unfold parseInt
  rw [strip_intText]
  unfold intText
  by_cases hn : n < 0
  · simp only [if_pos hn, hread]
    split
    · simp only [Option.map_some, Option.some.injEq]
      omega
    · rfl
  · rw [if_neg hn]
    split
    · next s hs => exact absurd hs (ne_sign_cons hdigits (by decide))
    · next s hs => exact absurd hs (ne_sign_cons hdigits (by decide))
    · rw [hread]
      split
      · rw [Option.map_some, Int.natAbs_of_nonneg (by omega)]
      · rfl

end Numerals
