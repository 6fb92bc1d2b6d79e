import CorpLlmGateway.Hash.Sha256
import CorpLlmGateway.Text.Unicode
import CorpLlmGateway.Profiles.Extends
import CorpLlmGateway.Text.Literal

/-!
# Bundle integrity

The model of `compute_content_hash` and `verify_integrity` of `profiles/manifest.py` and of
`content_hash_for_dir` of `profiles/file_loader.py`. The files of a bundle are hashed in
the order of their names, each as its name and its bytes with a zero byte behind either.
A name has no zero byte, but the bytes of a file may, so the stream does not say where a
file ends.

* `nulFree_stream_injective` — it does when no file has a zero byte;
* `integrity_iff` — which bundles are the only ones with their stream, and therefore the
  only ones that pass with their hash.
-/

namespace CorpLlmGateway.Profiles

open TextScan Hash CorpLlmGateway.Sanitizer
open Unicode (utf8 utf8_injective zero_notMem_utf8)

/-! ## Hashing and checking -/

/-- A relative file name and the bytes of the file. -/
abbrev Part := Text × List UInt8

/-- What one file adds to the digest. -/
def partBytes (part : Part) : List UInt8 := utf8 part.1 ++ 0 :: (part.2 ++ [0])

/-- `sorted(parts, key=lambda part: part[0])`. -/
def sortedParts (parts : List Part) : List Part := parts.insertionSort fun a b => a.1 ≤ b.1

/-- The bytes that `compute_content_hash` feeds to SHA-256. -/
def hashedStream (parts : List Part) : List UInt8 := (sortedParts parts).flatMap partBytes

/-- `compute_content_hash(parts)`. -/
def computeContentHash (parts : List Part) : Text := (sha256 (hashedStream parts)).hexdigest.digits

/-- `path.name`. -/
def fileName (path : Text) : Text := (path.reverse.takeWhile (· != '/')).reverse

/-- `content_hash_for_dir(profile_dir)`, for the files under the directory. -/
def contentHashForDir (files : List Part) : Text :=
  computeContentHash (files.filter fun part => fileName part.1 ≠ "profile.toml".toList)

/-- `ProfileIntegrityError` and `ProfileSignatureError`. -/
inductive IntegrityError where
  | mismatch (name manifestHash computedHash : Text)
  | signature
deriving DecidableEq, Repr

/-- The text of an error; `repr` is Python's. -/
def IntegrityError.message (repr : Text → Text) : IntegrityError → Text
  | .mismatch name manifestHash computedHash =>
      "profile ".toList ++ repr name ++ " content-hash mismatch: manifest=".toList ++
        repr manifestHash ++ " computed=".toList ++ repr computedHash
  | .signature =>
      ("CORP_PROFILE_REQUIRE_SIGNATURE is set but detached-signature " ++
        "verification is not implemented — blocked on the offline cosign/PKI " ++
        "decision; unset the flag until verification keys exist").toList

/-- `verify_signature(manifest, require=require)`. -/
def verifySignature (require : Bool) : Except IntegrityError Unit :=
  if require then .error .signature else .ok ()

/-- `verify_integrity(manifest, computed_hash)`; `require` is the configuration flag. -/
def verifyIntegrity (require : Bool) (manifest : ProfileManifest) (computedHash : Text) :
    Except IntegrityError Unit :=
  match manifest.contentHash with
  | none => verifySignature require
  | some manifestHash =>
      if manifestHash ≠ computedHash then
        .error (.mismatch manifest.name manifestHash computedHash)
      else verifySignature require

/-! ## Bundles -/

/-- The files of a bundle: distinct names without a zero byte. -/
structure Bundle where
  parts : List Part
  names : (parts.map Prod.fst).Nodup
  nulFree : ∀ part ∈ parts, '\x00' ∉ part.1

def Bundle.stream (b : Bundle) : List UInt8 := hashedStream b.parts

def SameFiles (a b : Bundle) : Prop := ∀ part, part ∈ a.parts ↔ part ∈ b.parts

theorem sameFiles_of_sorted {a b : Bundle} (h : sortedParts a.parts = sortedParts b.parts) :
    SameFiles a b := by
  intro part
  rw [← List.mem_insertionSort (fun a b : Part => a.1 ≤ b.1), ← sortedParts, h, sortedParts,
    List.mem_insertionSort]

/-- The names of a bundle in order. -/
theorem Bundle.sorted (b : Bundle) : (sortedParts b.parts).Pairwise fun p q => p.1 < q.1 := by
  have hle : (sortedParts b.parts).Pairwise fun p q => p.1 ≤ q.1 := by
    have : Std.Total fun p q : Part => p.1 ≤ q.1 := ⟨fun p q => le_total p.1 q.1⟩
    have : IsTrans Part fun p q => p.1 ≤ q.1 := ⟨fun _ _ _ => le_trans⟩
    exact List.pairwise_insertionSort _ _
  have hne : (sortedParts b.parts).Pairwise fun p q => p.1 ≠ q.1 := by
    refine (List.perm_insertionSort _ _).symm.pairwise (List.pairwise_map.mp b.names) ?_
    intro p q h
    exact Ne.symm h
  exact (hle.and hne).imp fun h => lt_of_le_of_ne h.1 h.2

theorem Bundle.mem_sorted {b : Bundle} {part : Part} :
    part ∈ sortedParts b.parts ↔ part ∈ b.parts :=
  List.mem_insertionSort _

/-! ## Reading the stream -/

theorem cut_at_zero {w w' rest rest' : List UInt8} (hw : 0 ∉ w) (hw' : 0 ∉ w')
    (h : w ++ 0 :: rest = w' ++ 0 :: rest') : w = w' ∧ rest = rest' := by
  have heq := TextScan.middle_unique hw hw' h
  subst heq
  exact ⟨rfl, (List.cons.inj (List.append_cancel_left h)).2⟩

theorem flatMap_partBytes_cons (n : Text) (d : List UInt8) (rest : List Part) :
    ((n, d) :: rest).flatMap partBytes = utf8 n ++ 0 :: (d ++ 0 :: rest.flatMap partBytes) := by
  simp [partBytes]

/-- Streams that are not empty end in a zero byte. -/
theorem flatMap_partBytes_ends {parts : List Part} (h : parts ≠ []) :
    ∃ y, parts.flatMap partBytes = y ++ [0] := by
  obtain ⟨init, last, rfl⟩ := List.eq_nil_or_concat parts |>.resolve_left h
  exact ⟨init.flatMap partBytes ++ (utf8 last.1 ++ 0 :: last.2), by simp [partBytes]⟩

/-- The first name can be read off a stream. -/
theorem first_name_unique {n n' : Text} {d d' : List UInt8} {rest rest' : List Part}
    (hn : '\x00' ∉ n) (hn' : '\x00' ∉ n')
    (h : ((n, d) :: rest).flatMap partBytes = ((n', d') :: rest').flatMap partBytes) :
    n = n' ∧ d ++ 0 :: rest.flatMap partBytes = d' ++ 0 :: rest'.flatMap partBytes := by
  rw [flatMap_partBytes_cons, flatMap_partBytes_cons] at h
  obtain ⟨hname, hdata⟩ := cut_at_zero (zero_notMem_utf8 hn) (zero_notMem_utf8 hn') h
  exact ⟨utf8_injective hname, hdata⟩

/-- Without zero bytes in the files the whole stream can be read. -/
theorem flatMap_partBytes_injective {parts parts' : List Part}
    (hn : ∀ part ∈ parts, '\x00' ∉ part.1) (hd : ∀ part ∈ parts, 0 ∉ part.2)
    (hn' : ∀ part ∈ parts', '\x00' ∉ part.1) (hd' : ∀ part ∈ parts', 0 ∉ part.2)
    (h : parts.flatMap partBytes = parts'.flatMap partBytes) : parts = parts' := by
  induction parts generalizing parts' with
  | nil =>
    cases parts' with
    | nil => rfl
    | cons part' rest' => simp [partBytes] at h
  | cons part rest ih =>
    cases parts' with
    | nil => simp [partBytes] at h
    | cons part' rest' =>
      rw [List.forall_mem_cons] at hn hd hn' hd'
      obtain ⟨hname, hrest⟩ := first_name_unique hn.1 hn'.1 h
      obtain ⟨hdata, hrest⟩ := cut_at_zero hd.1 hd'.1 hrest
      rw [Prod.ext hname hdata, ih hn.2 hd.2 hn'.2 hd'.2 hrest]

/-- Bundles whose files have no zero byte are told apart. -/
theorem nulFree_stream_injective {a b : Bundle} (ha : ∀ part ∈ a.parts, 0 ∉ part.2)
    (hb : ∀ part ∈ b.parts, 0 ∉ part.2) (h : a.stream = b.stream) : SameFiles a b := by
  refine sameFiles_of_sorted (flatMap_partBytes_injective ?_ ?_ ?_ ?_ h)
  · exact fun part hpart => a.nulFree part (Bundle.mem_sorted.mp hpart)
  · exact fun part hpart => ha part (Bundle.mem_sorted.mp hpart)
  · exact fun part hpart => b.nulFree part (Bundle.mem_sorted.mp hpart)
  · exact fun part hpart => hb part (Bundle.mem_sorted.mp hpart)

/-! ## Bundles with the same stream -/

/-- The bytes of a file hold a text between zero bytes that could be the name of a further
file: one that sorts behind the name of the file. -/
def HoldsName (n : Text) (d : List UInt8) : Prop :=
  ∃ (x : List UInt8) (m : Text) (y : List UInt8),
    '\x00' ∉ m ∧ n < m ∧ d = x ++ 0 :: (utf8 m ++ 0 :: y)

/-- The bundle has no file, or one whose bytes hold no name. -/
def Bundle.Undivided (b : Bundle) : Prop :=
  b.parts = [] ∨ ∃ n d, b.parts = [(n, d)] ∧ ¬ HoldsName n d

/-- Two files or more can be taken for one. -/
theorem exists_merged {a : Bundle} {n : Text} {d : List UInt8} {part : Part} {rest : List Part}
    (h : sortedParts a.parts = (n, d) :: part :: rest) :
    ∃ b : Bundle, b.stream = a.stream ∧ ¬ SameFiles a b := by
  obtain ⟨y, hy⟩ := flatMap_partBytes_ends (List.cons_ne_nil part rest)
  have hmem : ∀ q ∈ (n, d) :: part :: rest, q ∈ a.parts := fun q hq =>
    Bundle.mem_sorted.mp (h ▸ hq)
  refine ⟨⟨[(n, d ++ 0 :: y)], by simp, ?_⟩, ?_, ?_⟩
  · intro q hq
    rw [List.mem_singleton.mp hq]
    exact a.nulFree (n, d) (hmem _ List.mem_cons_self)
  · rw [Bundle.stream, Bundle.stream, hashedStream, hashedStream, h, flatMap_partBytes_cons, hy]
    simp [sortedParts, partBytes]
  · -- the second name is gone
    intro hsame
    have hpart : part ∈ a.parts := hmem _ (by simp)
    have hname : part.1 = n := congrArg Prod.fst (List.mem_singleton.mp ((hsame part).mp hpart))
    have hsorted := a.sorted
    rw [h, List.pairwise_cons] at hsorted
    have hlt : n < part.1 := hsorted.1 part List.mem_cons_self
    rw [hname] at hlt
    exact lt_irrefl n hlt

/-- A file that holds a name can be taken for two. -/
theorem exists_split {a : Bundle} {n : Text} {d : List UInt8} (h : a.parts = [(n, d)])
    (hholds : HoldsName n d) : ∃ b : Bundle, b.stream = a.stream ∧ ¬ SameFiles a b := by
  obtain ⟨x, m, y, hm, hlt, rfl⟩ := hholds
  have hn : '\x00' ∉ n := a.nulFree (n, _) (by rw [h]; exact List.mem_singleton_self _)
  refine ⟨⟨[(n, x), (m, y)], by simp [hlt.ne], ?_⟩, ?_, ?_⟩
  · intro q hq
    rcases List.mem_pair.mp hq with rfl | rfl
    · exact hn
    · exact hm
  · simp [Bundle.stream, hashedStream, h, sortedParts, partBytes, hlt.le]
  · intro hsame
    have hpart : (m, y) ∈ a.parts := (hsame (m, y)).mpr (by simp)
    rw [h] at hpart
    exact hlt.ne' (congrArg Prod.fst (List.mem_singleton.mp hpart))

/-- An undivided bundle is the only one with its stream. -/
theorem Bundle.Undivided.unique {a : Bundle} (h : a.Undivided) (b : Bundle)
    (hstream : b.stream = a.stream) : SameFiles a b := by
  refine (sameFiles_of_sorted ?_)
  unfold Bundle.stream hashedStream at hstream
  rcases h with hnil | ⟨n, d, hone, hno⟩
  · rw [hnil] at hstream ⊢
    cases hb : sortedParts b.parts with
    | nil => rfl
    | cons part rest =>
      rw [hb] at hstream
      simp [sortedParts, partBytes] at hstream
  · have hsort : sortedParts a.parts = [(n, d)] := by rw [hone]; rfl
    have hn : '\x00' ∉ n := a.nulFree (n, d) (by rw [hone]; exact List.mem_singleton_self _)
    rw [hsort] at hstream ⊢
    cases hb : sortedParts b.parts with
    | nil =>
      rw [hb] at hstream
      simp [partBytes] at hstream
    | cons part rest =>
      have hmem : ∀ q ∈ part :: rest, q ∈ b.parts := fun q hq => Bundle.mem_sorted.mp (hb ▸ hq)
      rw [hb] at hstream
      obtain ⟨hname, hdata⟩ := first_name_unique (b.nulFree part (hmem _ List.mem_cons_self)) hn hstream
      cases rest with
      | nil =>
        have hbytes : part.2 = d := List.append_cancel_right hdata
        have hpart : part = (n, d) := Prod.ext hname hbytes
        rw [hpart]
      | cons next rest =>
        -- the second file of `b` would be a name inside the file of `a`
        obtain ⟨y, hy⟩ : ∃ y, next.2 ++ 0 :: rest.flatMap partBytes = y ++ [0] := by
          rcases eq_or_ne rest [] with rfl | hrest
          · exact ⟨next.2, rfl⟩
          · obtain ⟨y, hy⟩ := flatMap_partBytes_ends hrest
            exact ⟨next.2 ++ 0 :: y, by simp [hy]⟩
        have hsorted := b.sorted
        rw [hb, List.pairwise_cons] at hsorted
        have hlt : n < next.1 := hname ▸ hsorted.1 next List.mem_cons_self
        refine absurd ⟨part.2, next.1, y, b.nulFree next (hmem _ (by simp)), hlt, ?_⟩ hno
        rw [flatMap_partBytes_cons next.1 next.2, hy] at hdata
        have hdata' : (part.2 ++ 0 :: (utf8 next.1 ++ 0 :: y)) ++ [0] = d ++ [0] := by
          simpa using hdata
        exact (List.append_cancel_right hdata').symm

/-- Any other bundle has a bundle with the same stream and other files. -/
theorem exists_same_stream {a : Bundle} (h : ¬ a.Undivided) :
    ∃ b : Bundle, b.stream = a.stream ∧ ¬ SameFiles a b := by
  have hperm : (sortedParts a.parts).Perm a.parts := List.perm_insertionSort _ _
  cases hsort : sortedParts a.parts with
  | nil =>
    rw [hsort] at hperm
    exact absurd (Or.inl hperm.nil_eq.symm) h
  | cons part rest =>
    cases rest with
    | nil =>
      rw [hsort] at hperm
      have hone : a.parts = [(part.1, part.2)] := List.singleton_perm.mp hperm |>.symm
      refine exists_split hone ?_
      by_contra hno
      exact h (Or.inr ⟨part.1, part.2, hone, hno⟩)
    | cons next rest => exact exists_merged hsort

/-- A bundle that was sealed as `a` and has other files now is refused, unless the hash has a
collision. -/
def RefusesTampered (a : Bundle) : Prop :=
  ∀ (b : Bundle) (require : Bool) (name : Text) (extended : List Text), ¬ SameFiles a b →
    (computeContentHash a.parts = computeContentHash b.parts → a.stream = b.stream) →
    verifyIntegrity require ⟨name, extended, some (computeContentHash a.parts)⟩
        (computeContentHash b.parts) =
      .error (.mismatch name (computeContentHash a.parts) (computeContentHash b.parts))

theorem refusesTampered_iff (a : Bundle) : RefusesTampered a ↔ a.Undivided := by
  constructor
  · intro hrefuses
    by_contra hno
    obtain ⟨b, hstream, hdiff⟩ := exists_same_stream hno
    have hhash : computeContentHash a.parts = computeContentHash b.parts :=
      congrArg (fun bytes => (sha256 bytes).hexdigest.digits) hstream.symm
    have hresult := hrefuses b false [] [] hdiff fun _ => hstream.symm
    simp only [verifyIntegrity, hhash, ne_eq, not_true_eq_false, if_false, verifySignature] at hresult
    cases hresult
  · intro hone b require name extended hdiff hcollision
    have hhash : computeContentHash a.parts ≠ computeContentHash b.parts := by
      intro heq
      exact hdiff (hone.unique b (hcollision heq).symm)
    simp only [verifyIntegrity]
    rw [if_pos hhash]

/-- **Bundle integrity.** A bundle is the only one with its stream, and its seal refuses every
other one, exactly if it has at most one file and that file holds no further name. Bundles
without zero bytes in their files are told apart. -/
theorem integrity_iff (a : Bundle) :
    ((∀ b : Bundle, b.stream = a.stream → SameFiles a b) ↔ a.Undivided) ∧
      (RefusesTampered a ↔ a.Undivided) ∧
      ∀ b : Bundle, (∀ part ∈ a.parts, 0 ∉ part.2) → (∀ part ∈ b.parts, 0 ∉ part.2) →
        a.stream = b.stream → SameFiles a b := by
  refine ⟨⟨?_, fun h => h.unique⟩, refusesTampered_iff a, fun b => nulFree_stream_injective⟩
  intro hall
  by_contra hno
  obtain ⟨b, hstream, hdiff⟩ := exists_same_stream hno
  exact hdiff (hall b hstream)

/-- One file with zero bytes. -/
def sealedBundle : Bundle :=
  ⟨[("a".toList, utf8 "x".toList ++ 0 :: (utf8 "b".toList ++ 0 :: utf8 "y".toList))],
    by simp, by simp⟩

/-- The file in two. -/
def tamperedBundle : Bundle :=
  ⟨[("a".toList, utf8 "x".toList), ("b".toList, utf8 "y".toList)], by simp, by simp⟩

/-- The seal of one bundle lets another one pass. -/
theorem tampered_bundle_passes :
    sealedBundle.stream = tamperedBundle.stream ∧ ¬ SameFiles sealedBundle tamperedBundle ∧
      verifyIntegrity false ⟨"p".toList, [], some (computeContentHash sealedBundle.parts)⟩
        (computeContentHash tamperedBundle.parts) = .ok () := by
  have hstream : sealedBundle.stream = tamperedBundle.stream := by decide
  have hhash : computeContentHash sealedBundle.parts = computeContentHash tamperedBundle.parts :=
    congrArg (fun bytes => (sha256 bytes).hexdigest.digits) hstream
  refine ⟨hstream, ?_, ?_⟩
  · intro hsame
    have hmem := (hsame ("b".toList, utf8 "y".toList)).mpr (by simp [tamperedBundle])
    simp [sealedBundle] at hmem
  · simp [verifyIntegrity, hhash, verifySignature]

end CorpLlmGateway.Profiles
