import Mathlib

/-!
# SHA-256

`hashlib.sha256`: the digest of a list of bytes and its hexadecimal form.

* `Digest` — the 64 hexadecimal digits that `hexdigest` returns.
-/

namespace Hash

/-! ## Compression -/

abbrev Word := BitVec 32

def roundConstants : List Word :=
  [0x428a2f98, 0x71374491, 0xb5c0fbcf, 0xe9b5dba5, 0x3956c25b, 0x59f111f1,
    0x923f82a4, 0xab1c5ed5, 0xd807aa98, 0x12835b01, 0x243185be, 0x550c7dc3,
    0x72be5d74, 0x80deb1fe, 0x9bdc06a7, 0xc19bf174, 0xe49b69c1, 0xefbe4786,
    0x0fc19dc6, 0x240ca1cc, 0x2de92c6f, 0x4a7484aa, 0x5cb0a9dc, 0x76f988da,
    0x983e5152, 0xa831c66d, 0xb00327c8, 0xbf597fc7, 0xc6e00bf3, 0xd5a79147,
    0x06ca6351, 0x14292967, 0x27b70a85, 0x2e1b2138, 0x4d2c6dfc, 0x53380d13,
    0x650a7354, 0x766a0abb, 0x81c2c92e, 0x92722c85, 0xa2bfe8a1, 0xa81a664b,
    0xc24b8b70, 0xc76c51a3, 0xd192e819, 0xd6990624, 0xf40e3585, 0x106aa070,
    0x19a4c116, 0x1e376c08, 0x2748774c, 0x34b0bcb5, 0x391c0cb3, 0x4ed8aa4a,
    0x5b9cca4f, 0x682e6ff3, 0x748f82ee, 0x78a5636f, 0x84c87814, 0x8cc70208,
    0x90befffa, 0xa4506ceb, 0xbef9a3f7, 0xc67178f2]

/-- The eight chaining words. -/
structure State where
  a : Word
  b : Word
  c : Word
  d : Word
  e : Word
  f : Word
  g : Word
  h : Word

def State.initial : State :=
  ⟨0x6a09e667, 0xbb67ae85, 0x3c6ef372, 0xa54ff53a,
    0x510e527f, 0x9b05688c, 0x1f83d9ab, 0x5be0cd19⟩

def State.add (s t : State) : State :=
  ⟨s.a + t.a, s.b + t.b, s.c + t.c, s.d + t.d, s.e + t.e, s.f + t.f, s.g + t.g, s.h + t.h⟩

def State.round (s : State) (k w : Word) : State :=
  let sum1 := s.e.rotateRight 6 ^^^ s.e.rotateRight 11 ^^^ s.e.rotateRight 25
  let ch := (s.e &&& s.f) ^^^ (~~~s.e &&& s.g)
  let t1 := s.h + sum1 + ch + k + w
  let sum0 := s.a.rotateRight 2 ^^^ s.a.rotateRight 13 ^^^ s.a.rotateRight 22
  let maj := (s.a &&& s.b) ^^^ (s.a &&& s.c) ^^^ (s.b &&& s.c)
  ⟨t1 + (sum0 + maj), s.a, s.b, s.c, s.d + t1, s.e, s.f, s.g⟩

/-- The next word of the message schedule from the last sixteen. -/
def nextWord (ws : List Word) : Word :=
  let w1 := ws.getD 1 0
  let w14 := ws.getD 14 0
  let sigma0 := w1.rotateRight 7 ^^^ w1.rotateRight 18 ^^^ w1 >>> 3
  let sigma1 := w14.rotateRight 17 ^^^ w14.rotateRight 19 ^^^ w14 >>> 10
  ws.getD 0 0 + sigma0 + ws.getD 9 0 + sigma1

/-- The rounds of one block; `ws` are the sixteen schedule words from here on. -/
def rounds : List Word → State → List Word → State
  | [], s, _ => s
  | k :: ks, s, ws => rounds ks (s.round k (ws.getD 0 0)) (ws.drop 1 ++ [nextWord ws])

def compress (s : State) (block : List Word) : State := s.add (rounds roundConstants s block)

/-! ## Digests -/

/-- The message with its padding: `0x80`, zeros, and the bit length in eight bytes. -/
def padded (bytes : List UInt8) : List UInt8 :=
  let bits := 8 * bytes.length
  bytes ++ 0x80 :: List.replicate ((119 - bytes.length % 64) % 64) 0 ++
    (List.range 8).map fun i => UInt8.ofNat (bits / 256 ^ (7 - i))

def wordsOf : List UInt8 → List Word
  | a :: b :: c :: d :: rest =>
      BitVec.ofNat 32 (((a.toNat * 256 + b.toNat) * 256 + c.toNat) * 256 + d.toNat) :: wordsOf rest
  | _ => []

def compressBlocks : ℕ → State → List Word → State
  | 0, s, _ => s
  | n + 1, s, ws => compressBlocks n (compress s (ws.take 16)) (ws.drop 16)

/-- `hashlib.sha256(bytes)`, as its eight words. -/
def sha256 (bytes : List UInt8) : State :=
  let ws := wordsOf (padded bytes)
  compressBlocks (ws.length / 16) State.initial ws

def State.words (s : State) : List Word := [s.a, s.b, s.c, s.d, s.e, s.f, s.g, s.h]

def hexDigits : List Char := "0123456789abcdef".toList

def hexDigit (n : ℕ) : Char := hexDigits.getD n '0'

def Word.hex (w : Word) : List Char :=
  (List.range 8).map fun i => hexDigit (w.toNat / 16 ^ (7 - i) % 16)

/-- The 64 hexadecimal digits of a digest. -/
structure Digest where
  digits : List Char
  length : digits.length = 64
  hex : digits.all (· ∈ hexDigits) = true
deriving DecidableEq

theorem hexDigit_mem (n : ℕ) : hexDigit n ∈ hexDigits := by
  unfold hexDigit
  by_cases hn : n < hexDigits.length
  · rw [List.getD_eq_getElem _ _ hn]
    exact List.getElem_mem hn
  · rw [List.getD_eq_default _ _ (Nat.le_of_not_lt hn)]
    decide

/-- `h.hexdigest()`. -/
def State.hexdigest (s : State) : Digest where
  digits := s.words.flatMap Word.hex
  length := by simp [State.words, Word.hex]
  hex := by
    rw [List.all_eq_true]
    intro c hc
    rcases List.mem_flatMap.mp hc with ⟨w, _, hw⟩
    rcases List.mem_map.mp hw with ⟨i, _, rfl⟩
    exact decide_eq_true (hexDigit_mem _)

example : (sha256 [97, 98, 99]).hexdigest.digits =
    "ba7816bf8f01cfea414140de5dae2223b00361a396177a9cb410ff61f20015ad".toList := by
  decide +kernel

/-- `int.from_bytes(h.digest()[:8], "big")`. -/
def State.leading (s : State) : ℕ := s.a.toNat * 2 ^ 32 + s.b.toNat

end Hash
