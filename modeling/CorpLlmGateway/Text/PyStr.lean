import CorpLlmGateway.Text.Unicode

/-!
# Strings with lone surrogates

A Python `str` is a sequence of code points, and a code point may be half of a surrogate
pair: an escape of a JSON text can name one. Such a string has no UTF-8 encoding.

* `chars` — the scalar values that a string starts with; `chars_ofText_append`;
* `encode_eq_some` — a string is encoded exactly if it holds no lone surrogate.
-/

/-- A code point of a `str`: a Unicode scalar value, or half of a surrogate pair, counted
from U+D800 on. -/
inductive PyChar where
  | scalar (c : Char)
  | lone (k : Fin 2048)
deriving DecidableEq, Repr

namespace PyChar

/-- `ord(c)`. -/
def code : PyChar → ℕ
  | .scalar c => c.toNat
  | .lone k => 0xD800 + k

theorem code_injective : Function.Injective code := by
  intro a b h
  cases a with
  | scalar c =>
    cases b with
    | scalar d => rw [Char.toNat_inj.mp h]
    | lone k =>
      have hvalid : c.toNat < 0xD800 ∨ 0xDFFF < c.toNat ∧ c.toNat < 0x110000 := c.valid
      have hk := k.isLt
      simp only [code] at h
      omega
  | lone k =>
    have hk := k.isLt
    cases b with
    | scalar d =>
      have hvalid : d.toNat < 0xD800 ∨ 0xDFFF < d.toNat ∧ d.toNat < 0x110000 := d.valid
      simp only [code] at h
      omega
    | lone k' =>
      simp only [code] at h
      rw [Fin.ext (by omega : k.val = k'.val)]

/-- Strings compare by code point. -/
instance : LinearOrder PyChar where
  le a b := a.code ≤ b.code
  le_refl a := Nat.le_refl a.code
  le_trans a b c := Nat.le_trans
  le_antisymm a b hab hba := code_injective (Nat.le_antisymm hab hba)
  le_total a b := Nat.le_total a.code b.code
  toDecidableLE a b := inferInstanceAs (Decidable (a.code ≤ b.code))
  toDecidableEq := inferInstance

/-- Is the code point a scalar value of the class? -/
def any (p : Char → Bool) : PyChar → Bool
  | .scalar c => p c
  | .lone _ => false

@[simp] theorem any_scalar (p : Char → Bool) (c : Char) : any p (.scalar c) = p c := rfl

@[simp] theorem any_lone (p : Char → Bool) (k : Fin 2048) : any p (.lone k) = false := rfl

/-- `c.isspace()`. -/
def isSpace : PyChar → Bool := any Unicode.isSpace

end PyChar

/-- A `str`. -/
abbrev PyStr := List PyChar

instance PyStr.lawfulBEq : LawfulBEq PyStr := inferInstance

namespace PyStr

/-- A text of scalar values as a `str`. -/
def ofText (s : List Char) : PyStr := s.map .scalar

@[simp] theorem ofText_nil : ofText [] = [] := rfl

@[simp] theorem ofText_cons (c : Char) (s : List Char) : ofText (c :: s) = .scalar c :: ofText s := rfl

@[simp] theorem ofText_append (s t : List Char) : ofText (s ++ t) = ofText s ++ ofText t :=
  List.map_append

@[simp] theorem length_ofText (s : List Char) : (ofText s).length = s.length := List.length_map _

theorem ofText_injective : Function.Injective ofText :=
  List.map_injective_iff.mpr fun _ _ h => PyChar.scalar.inj h

@[simp] theorem ofText_inj {s t : List Char} : ofText s = ofText t ↔ s = t :=
  ofText_injective.eq_iff

/-! ## The scalar values at the front -/

/-- The scalar values that a string starts with. -/
def chars : PyStr → List Char
  | .scalar c :: s => c :: chars s
  | _ => []

@[simp] theorem chars_nil : chars [] = [] := rfl

@[simp] theorem chars_scalar (c : Char) (s : PyStr) : chars (.scalar c :: s) = c :: chars s := rfl

@[simp] theorem chars_lone (k : Fin 2048) (s : PyStr) : chars (.lone k :: s) = [] := rfl

@[simp] theorem chars_ofText_append (s : List Char) (t : PyStr) :
    chars (ofText s ++ t) = s ++ chars t := by
  induction s with
  | nil => rfl
  | cons c s ih => simp [ih]

@[simp] theorem chars_ofText (s : List Char) : chars (ofText s) = s := by
  simpa using chars_ofText_append s []

theorem length_chars_le (s : PyStr) : (chars s).length ≤ s.length := by
  induction s with
  | nil => exact Nat.le_refl _
  | cons c s ih => cases c <;> simp [ih]

/-! ## Strings of scalar values -/

/-- A string without lone surrogates. -/
def Scalar (s : PyStr) : Prop := ∀ c ∈ s, ∃ d, c = .scalar d

instance : DecidablePred Scalar := fun s =>
  decidable_of_iff (∀ c ∈ s, PyChar.any (fun _ => true) c = true) (by
    refine forall₂_congr fun c _ => ?_
    cases c <;> simp)

theorem scalar_ofText (s : List Char) : Scalar (ofText s) := by
  intro c hc
  obtain ⟨d, -, rfl⟩ := List.mem_map.mp hc
  exact ⟨d, rfl⟩

theorem Scalar.ofText_chars {s : PyStr} (h : Scalar s) : ofText (chars s) = s := by
  induction s with
  | nil => rfl
  | cons c s ih =>
    obtain ⟨⟨d, rfl⟩, hs⟩ := List.forall_mem_cons.mp h
    simp [ih hs]

/-- `s.encode("utf-8")`; nothing stands for the `UnicodeEncodeError`. -/
def encode (s : PyStr) : Option (List UInt8) :=
  if Scalar s then some (Unicode.utf8 (chars s)) else none

@[simp] theorem encode_ofText (s : List Char) : encode (ofText s) = some (Unicode.utf8 s) := by
  rw [encode, if_pos (scalar_ofText s), chars_ofText]

theorem encode_eq_none {s : PyStr} : encode s = none ↔ ¬Scalar s := by
  unfold encode
  split
  · next h => simp [h]
  · next h => simp [h]

/-- What can be encoded is a text of scalar values. -/
theorem encode_eq_some {s : PyStr} {b : List UInt8} :
    encode s = some b ↔ ∃ t, s = ofText t ∧ b = Unicode.utf8 t := by
  constructor
  · intro h
    have hs : Scalar s := by
      by_contra hnot
      rw [encode_eq_none.mpr hnot] at h
      cases h
    rw [encode, if_pos hs] at h
    exact ⟨chars s, hs.ofText_chars.symm, (Option.some.inj h).symm⟩
  · rintro ⟨t, rfl, rfl⟩
    exact encode_ofText t

theorem encode_inj {s t : PyStr} {b : List UInt8} (hs : encode s = some b)
    (ht : encode t = some b) : s = t := by
  obtain ⟨u, rfl, rfl⟩ := encode_eq_some.mp hs
  obtain ⟨v, rfl, huv⟩ := encode_eq_some.mp ht
  rw [Unicode.utf8_injective huv]

theorem scalar_append {s t : PyStr} : Scalar (s ++ t) ↔ Scalar s ∧ Scalar t := List.forall_mem_append

theorem encode_append (s t : PyStr) :
    encode (s ++ t) = (encode s).bind fun x => (encode t).map (x ++ ·) := by
  by_cases hs : Scalar s
  · by_cases ht : Scalar t
    · rw [← hs.ofText_chars, ← ht.ofText_chars, ← ofText_append]
      simp only [encode_ofText, Unicode.utf8_append]
      rfl
    · rw [encode_eq_none.mpr ht, encode_eq_none.mpr fun h => ht (scalar_append.mp h).2]
      simp
  · rw [encode_eq_none.mpr hs, encode_eq_none.mpr fun h => hs (scalar_append.mp h).1]
    simp

end PyStr

/-- A literal of the source. -/
def String.py (s : String) : PyStr := PyStr.ofText s.toList

@[simp] theorem String.py_eq (s : String) : s.py = PyStr.ofText s.toList := rfl

/-- Two literals are compared as Lean strings: `simp` decides that without spelling them out. -/
theorem String.py_inj {s t : String} : s.py = t.py ↔ s = t := by
  rw [String.py_eq, String.py_eq, PyStr.ofText_inj]
  exact String.toList_inj
