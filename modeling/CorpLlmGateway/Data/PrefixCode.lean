import Mathlib

/-!
# Prefix codes

A code is prefix-free when a code word in front of an open rest fixes both the word and the
rest. Prefix-freeness is inherited by lists that end in a stop symbol, and by parts that carry
their length in a field of fixed width.

* `PrefixFree.terminated` — lists of code words, closed by a symbol that starts none of them;
* `PrefixFree.flatMap_inj` — a concatenation of non-empty code words fixes its words;
* `prefixFree_lengthPrefixed` — a part behind its big-endian length.
-/

namespace PrefixCode

variable {α β : Type*} {p : α → Prop} {code : α → List β} {stop : β}

/-- Among the words that satisfy `p`, a code word and what follows it can be told apart. -/
def PrefixFree (p : α → Prop) (code : α → List β) : Prop :=
  ∀ a b s t, p a → p b → code a ++ s = code b ++ t → a = b ∧ s = t

/-- No code word is empty or starts with `stop`. -/
def Avoids (p : α → Prop) (code : α → List β) (stop : β) : Prop :=
  ∀ a, p a → ∃ c w, code a = c :: w ∧ c ≠ stop

/-- The code words of a list, closed by `stop`. -/
def terminated (code : α → List β) (stop : β) (l : List α) : List β :=
  l.flatMap code ++ [stop]

theorem terminated_nil : terminated code stop [] = [stop] := rfl

theorem terminated_cons (a : α) (l : List α) :
    terminated code stop (a :: l) = code a ++ terminated code stop l := by
  simp [terminated]

theorem PrefixFree.terminated (h : PrefixFree p code) (hstop : Avoids p code stop) :
    PrefixFree (fun l : List α => ∀ a ∈ l, p a) (terminated code stop) := by
  intro l
  induction l with
  | nil =>
    intro m s t _ hm heq
    cases m with
    | nil => simpa [terminated_nil] using heq
    | cons b m =>
      -- one list is over where the other goes on: the next symbol tells them apart
      obtain ⟨c, w, hcode, hne⟩ := hstop b (hm b List.mem_cons_self)
      rw [terminated_nil, terminated_cons, hcode] at heq
      simp only [List.cons_append, List.cons.injEq] at heq
      exact absurd heq.1.symm hne
  | cons a l ih =>
    intro m s t hl hm heq
    obtain ⟨ha, hl⟩ := List.forall_mem_cons.mp hl
    cases m with
    | nil =>
      obtain ⟨c, w, hcode, hne⟩ := hstop a ha
      rw [terminated_nil, terminated_cons, hcode] at heq
      simp only [List.cons_append, List.cons.injEq] at heq
      exact absurd heq.1 hne
    | cons b m =>
      obtain ⟨hb, hm'⟩ := List.forall_mem_cons.mp hm
      rw [terminated_cons, terminated_cons, List.append_assoc, List.append_assoc] at heq
      obtain ⟨rfl, hrest⟩ := h a b _ _ ha hb heq
      obtain ⟨rfl, rfl⟩ := ih m s t hl hm' hrest
      exact ⟨rfl, rfl⟩

theorem terminated_ne_nil (l : List α) : terminated code stop l ≠ [] := by
  simp [terminated]

theorem PrefixFree.flatMap_inj (h : PrefixFree p code) (hne : ∀ a, p a → code a ≠ [])
    {l m : List α} (hl : ∀ a ∈ l, p a) (hm : ∀ a ∈ m, p a)
    (heq : l.flatMap code = m.flatMap code) : l = m := by
  induction l generalizing m with
  | nil =>
    cases m with
    | nil => rfl
    | cons b m =>
      have hnil : code b = [] := by
        rw [List.flatMap_nil, List.flatMap_cons] at heq
        exact (List.append_eq_nil_iff.mp heq.symm).1
      exact absurd hnil (hne b (hm b List.mem_cons_self))
  | cons a l ih =>
    obtain ⟨ha, hl⟩ := List.forall_mem_cons.mp hl
    cases m with
    | nil =>
      have hnil : code a = [] := by
        rw [List.flatMap_nil, List.flatMap_cons] at heq
        exact (List.append_eq_nil_iff.mp heq).1
      exact absurd hnil (hne a ha)
    | cons b m =>
      obtain ⟨hb, hm'⟩ := List.forall_mem_cons.mp hm
      rw [List.flatMap_cons, List.flatMap_cons] at heq
      obtain ⟨rfl, hrest⟩ := h a b _ _ ha hb heq
      rw [ih hl hm' hrest]

/-! ## Parts behind their length -/

/-- `k.to_bytes(width, "big")`. -/
def bigEndian : (width : ℕ) → (k : ℕ) → List UInt8
  | 0, _ => []
  | width + 1, k => UInt8.ofNat (k / 256 ^ width) :: bigEndian width k

theorem length_bigEndian (width k : ℕ) : (bigEndian width k).length = width := by
  induction width with
  | zero => rfl
  | succ width ih => simp [bigEndian, ih]

/-- The bytes fix the number modulo `256 ^ width`. -/
theorem mod_eq_of_bigEndian {width k l : ℕ} (h : bigEndian width k = bigEndian width l) :
    k % 256 ^ width = l % 256 ^ width := by
  induction width with
  | zero => simp [Nat.mod_one]
  | succ width ih =>
    simp only [bigEndian, List.cons.injEq] at h
    have hdigit : k / 256 ^ width % 256 = l / 256 ^ width % 256 := by
      simpa using congrArg UInt8.toNat h.1
    rw [Nat.pow_succ, Nat.mod_mul, Nat.mod_mul, ih h.2, hdigit]

theorem bigEndian_inj {width k l : ℕ} (hk : k < 256 ^ width) (hl : l < 256 ^ width)
    (h : bigEndian width k = bigEndian width l) : k = l := by
  have hmod := mod_eq_of_bigEndian h
  rwa [Nat.mod_eq_of_lt hk, Nat.mod_eq_of_lt hl] at hmod

/-- The bytes of a part behind the `width` bytes of its length. -/
def lengthPrefixed (width : ℕ) (part : List UInt8) : List UInt8 :=
  bigEndian width part.length ++ part

theorem prefixFree_lengthPrefixed (width : ℕ) :
    PrefixFree (fun part : List UInt8 => part.length < 256 ^ width) (lengthPrefixed width) := by
  intro a b s t ha hb heq
  unfold lengthPrefixed at heq
  rw [List.append_assoc, List.append_assoc] at heq
  have hwidth : (bigEndian width a.length).length = (bigEndian width b.length).length := by
    rw [length_bigEndian, length_bigEndian]
  obtain ⟨hfield, hrest⟩ := List.append_inj heq hwidth
  exact List.append_inj hrest (bigEndian_inj ha hb hfield)

/-- The first byte of a length field stays zero as long as the lengths fit one byte less. -/
theorem avoids_lengthPrefixed (width : ℕ) {stop : UInt8} (hstop : stop ≠ 0) :
    Avoids (fun part : List UInt8 => part.length < 256 ^ width) (lengthPrefixed (width + 1))
      stop := by
  intro part hpart
  refine ⟨0, bigEndian width part.length ++ part, ?_, hstop.symm⟩
  simp [lengthPrefixed, bigEndian, Nat.div_eq_of_lt hpart]

end PrefixCode
