import CorpLlmGateway.Data.Framing
import CorpLlmGateway.Text.Unicode

/-!
# Decoding UTF-8

The incremental UTF-8 decoder with the error handler `replace`: each maximal part of
a sequence that cannot be completed becomes one U+FFFD, and a sequence that may still be
completed is held until more bytes arrive or the input ends.

* `decodeOne_stable` — what has been decoded does not depend on later bytes;
* `decode_utf8` — decoding the bytes of a text gives the text back.
-/

namespace Utf8

open Framing
open Unicode (utf8 utf8_cons)

abbrev Bytes := List UInt8

/-- U+FFFD. -/
def replacement : Char := '�'

/-- The second bytes that may follow the first byte `a` of a sequence. -/
def isSecond (a b : ℕ) : Bool :=
  (if a = 0xE0 then 0xA0 else if a = 0xF0 then 0x90 else 0x80) ≤ b &&
    b ≤ (if a = 0xED then 0x9F else if a = 0xF4 then 0x8F else 0xBF)

/-- A continuation byte. -/
def isTail (b : ℕ) : Bool := 0x80 ≤ b && b ≤ 0xBF

/-- The fourth byte of a sequence. -/
def decodeFourth (a b c : ℕ) : Bytes → Option (Char × ℕ)
  | [] => none
  | d :: _ =>
      if isTail d.toNat then
        some (Char.ofNat ((a - 0xF0) * 0x40000 + (b - 0x80) * 0x1000 + (c - 0x80) * 0x40 +
          (d.toNat - 0x80)), 4)
      else some (replacement, 3)

/-- The third byte of a sequence. -/
def decodeThird (a b : ℕ) : Bytes → Option (Char × ℕ)
  | [] => none
  | c :: s =>
      if isTail c.toNat then
        if a < 0xF0 then
          some (Char.ofNat ((a - 0xE0) * 0x1000 + (b - 0x80) * 0x40 + (c.toNat - 0x80)), 3)
        else decodeFourth a b c.toNat s
      else some (replacement, 2)

/-- The second byte of a sequence. -/
def decodeSecond (a : ℕ) : Bytes → Option (Char × ℕ)
  | [] => none
  | b :: s =>
      if isSecond a b.toNat then
        if a < 0xE0 then some (Char.ofNat ((a - 0xC0) * 0x40 + (b.toNat - 0x80)), 2)
        else decodeThird a b.toNat s
      else some (replacement, 1)

/-- The next character of a stream of bytes; nothing when its sequence is not complete. -/
def decodeOne : Reader UInt8 Char
  | [] => none
  | a :: s =>
      if a.toNat < 0x80 then some (Char.ofNat a.toNat, 1)
      else if a.toNat < 0xC2 || 0xF4 < a.toNat then some (replacement, 1)
      else decodeSecond a.toNat s

/-- What the decoder makes of the bytes it still holds when the input ends. -/
def finish (held : Bytes) : List Char := if held = [] then [] else [replacement]

/-- `bytes.decode("utf-8", "replace")`. -/
def decode (s : Bytes) : List Char :=
  (drain decodeOne s).1 ++ finish (drain decodeOne s).2

/-! ## The decoder is stable -/

section Stable

variable {a b c : ℕ} {s : Bytes} {x : Char} {n : ℕ}

theorem decodeFourth_spec (h : decodeFourth a b c s = some (x, n)) :
    0 < n ∧ n ≤ s.length + 3 ∧ ∀ t, decodeFourth a b c (s ++ t) = some (x, n) := by
  cases s with
  | nil => simp [decodeFourth] at h
  | cons d s =>
    refine ⟨?_, ?_, fun t => h⟩
    all_goals
      simp only [decodeFourth] at h
      split at h
      all_goals
        obtain ⟨rfl, rfl⟩ := Prod.mk.inj (Option.some.inj h)
        simp

theorem decodeThird_spec (h : decodeThird a b s = some (x, n)) :
    0 < n ∧ n ≤ s.length + 2 ∧ ∀ t, decodeThird a b (s ++ t) = some (x, n) := by
  cases s with
  | nil => simp [decodeThird] at h
  | cons c s =>
    simp only [decodeThird, List.cons_append, List.length_cons] at h ⊢
    split at h
    · next hc =>
      split at h
      · next ha =>
        obtain ⟨rfl, rfl⟩ := Prod.mk.inj (Option.some.inj h)
        simp [hc, ha]
      · next ha =>
        have hspec := decodeFourth_spec h
        simp only [hc, ha, if_true, if_false]
        exact ⟨hspec.1, by omega, hspec.2.2⟩
    · next hc =>
      obtain ⟨rfl, rfl⟩ := Prod.mk.inj (Option.some.inj h)
      simp [hc]

theorem decodeSecond_spec (h : decodeSecond a s = some (x, n)) :
    0 < n ∧ n ≤ s.length + 1 ∧ ∀ t, decodeSecond a (s ++ t) = some (x, n) := by
  cases s with
  | nil => simp [decodeSecond] at h
  | cons b s =>
    simp only [decodeSecond, List.cons_append, List.length_cons] at h ⊢
    split at h
    · next hb =>
      split at h
      · next ha =>
        obtain ⟨rfl, rfl⟩ := Prod.mk.inj (Option.some.inj h)
        simp [hb, ha]
      · next ha =>
        have hspec := decodeThird_spec h
        simp only [hb, ha, if_true, if_false]
        exact ⟨hspec.1, by omega, hspec.2.2⟩
    · next hb =>
      obtain ⟨rfl, rfl⟩ := Prod.mk.inj (Option.some.inj h)
      simp [hb]

theorem decodeOne_spec (h : decodeOne s = some (x, n)) :
    0 < n ∧ n ≤ s.length ∧ ∀ t, decodeOne (s ++ t) = some (x, n) := by
  cases s with
  | nil => simp [decodeOne] at h
  | cons a s =>
    simp only [decodeOne, List.cons_append, List.length_cons] at h ⊢
    split at h
    · next ha =>
      obtain ⟨rfl, rfl⟩ := Prod.mk.inj (Option.some.inj h)
      simp [ha]
    · next ha =>
      split at h
      · next hlead =>
        obtain ⟨rfl, rfl⟩ := Prod.mk.inj (Option.some.inj h)
        simp [ha, hlead]
      · next hlead =>
        have hspec := decodeSecond_spec h
        simp only [ha, hlead, if_false]
        exact ⟨hspec.1, by omega, hspec.2.2⟩

end Stable

/-- A character that has been decoded stays what it is. -/
theorem decodeOne_stable : decodeOne.Stable where
  pos h := (decodeOne_spec h).1
  le h := (decodeOne_spec h).2.1
  append h := (decodeOne_spec h).2.2

theorem decodeOne_nil : decodeOne [] = none := rfl

/-! ## The bytes of a text -/

theorem toNat_byte {n : ℕ} (h : n < 256) : (UInt8.ofNat n).toNat = n := by
  rw [UInt8.toNat_ofNat', Nat.mod_eq_of_lt h]

theorem isSecond_of {a b : ℕ} (h : 0x80 ≤ b ∧ b ≤ 0xBF ∧ (a = 0xE0 → 0xA0 ≤ b) ∧
    (a = 0xF0 → 0x90 ≤ b) ∧ (a = 0xED → b ≤ 0x9F) ∧ (a = 0xF4 → b ≤ 0x8F)) :
    isSecond a b = true := by
  simp only [isSecond, Bool.and_eq_true, decide_eq_true_eq]
  constructor <;> split_ifs <;> omega

/-- The sequence of a character decodes to it. -/
theorem decodeOne_encode (c : Char) (t : Bytes) :
    decodeOne (String.utf8EncodeChar c ++ t) = some (c, (String.utf8EncodeChar c).length) := by
  have hc : Char.ofNat c.val.toNat = c := Char.ofNat_toNat c
  have hvalid : c.val.toNat < 0xD800 ∨ 0xDFFF < c.val.toNat ∧ c.val.toNat < 0x110000 := c.valid
  simp only [String.utf8EncodeChar]
  generalize c.val.toNat = v at hc hvalid
  split_ifs with h1 h2 h3
  · simp only [List.cons_append, decodeOne, toNat_byte (show v < 256 by omega)]
    rw [if_pos (by omega), hc]
    rfl
  · have ha := toNat_byte (show v / 64 % 0x20 + 0xc0 < 256 by omega)
    have hb := toNat_byte (show v % 0x40 + 0x80 < 256 by omega)
    have hv : (v / 64 % 0x20 + 0xc0 - 0xC0) * 0x40 + (v % 0x40 + 0x80 - 0x80) = v := by omega
    simp only [List.cons_append, List.nil_append, decodeOne, decodeSecond, ha, hb, hv, hc]
    rw [if_neg (by omega), if_neg (by simp; omega), if_pos (isSecond_of (by omega)),
      if_pos (by omega)]
    rfl
  · have ha := toNat_byte (show v / 4096 % 0x10 + 0xe0 < 256 by omega)
    have hb := toNat_byte (show v / 64 % 0x40 + 0x80 < 256 by omega)
    have hd := toNat_byte (show v % 0x40 + 0x80 < 256 by omega)
    have hv : (v / 4096 % 0x10 + 0xe0 - 0xE0) * 0x1000 + (v / 64 % 0x40 + 0x80 - 0x80) * 0x40 +
        (v % 0x40 + 0x80 - 0x80) = v := by omega
    simp only [List.cons_append, List.nil_append, decodeOne, decodeSecond, decodeThird, ha, hb,
      hd, hv, hc]
    rw [if_neg (by omega), if_neg (by simp; omega), if_pos (isSecond_of (by omega)),
      if_neg (by omega), if_pos (by simp [isTail]; omega), if_pos (by omega)]
    rfl
  · have ha := toNat_byte (show v / 262144 % 0x08 + 0xf0 < 256 by omega)
    have hb := toNat_byte (show v / 4096 % 0x40 + 0x80 < 256 by omega)
    have hd := toNat_byte (show v / 64 % 0x40 + 0x80 < 256 by omega)
    have he := toNat_byte (show v % 0x40 + 0x80 < 256 by omega)
    have hv : (v / 262144 % 0x08 + 0xf0 - 0xF0) * 0x40000 +
        (v / 4096 % 0x40 + 0x80 - 0x80) * 0x1000 + (v / 64 % 0x40 + 0x80 - 0x80) * 0x40 +
        (v % 0x40 + 0x80 - 0x80) = v := by omega
    simp only [List.cons_append, List.nil_append, decodeOne, decodeSecond, decodeThird,
      decodeFourth, ha, hb, hd, he, hv, hc]
    rw [if_neg (by omega), if_neg (by simp; omega), if_pos (isSecond_of (by omega)),
      if_neg (by omega), if_pos (by simp [isTail]; omega), if_neg (by omega),
      if_pos (by simp [isTail]; omega)]
    rfl

/-- The decoder reads the text in front of it, and goes on behind. -/
theorem drain_utf8 (text : List Char) (t : Bytes) :
    drain decodeOne (utf8 text ++ t) =
      (text ++ (drain decodeOne t).1, (drain decodeOne t).2) := by
  induction text with
  | nil => rfl
  | cons c text ih =>
    rw [utf8_cons, List.append_assoc,
      drain_of_some decodeOne_stable.toProper (decodeOne_encode c _), List.drop_left, ih]
    rfl

@[simp] theorem decode_utf8 (text : List Char) : decode (utf8 text) = text := by
  have h := drain_utf8 text []
  rw [List.append_nil, drain_of_none decodeOne_stable.toProper decodeOne_nil] at h
  simp [decode, h, finish]

end Utf8
