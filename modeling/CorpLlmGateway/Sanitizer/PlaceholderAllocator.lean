import CorpLlmGateway.Data.Search
import CorpLlmGateway.Sanitizer.Placeholder

/-!
# The request placeholder allocator

The model of `sanitizer/placeholder_allocator.py`. One allocator serves a whole
request: each text segment's `(original, placeholder)` pairs go through `remap`,
which keeps one placeholder per original and mints a fresh label when two
originals ask for the same one. Originals that come from an operator rule are
exempt: those that share a configured replacement text share its placeholder.

* `mint_not_taken` — a minted label is free;
* `canonical_cases` — everything one assignment can do;
* `Tracks` — what the tables say about the claims seen so far, kept by every
  step (`Tracks.canonical`) and every run (`Tracks.remapAll`).
-/

namespace CorpLlmGateway.Sanitizer

/-! ## The model -/

/-- `_FALLBACK_FAMILY`. -/
def fallbackFamily : Text := "REDACTED".toList

/-- The decimal digits of an index, padded to three: the format `03d`. -/
def index03d (index : ℕ) : Text := List.leftpad 3 '0' (Nat.toDigits 10 index)

/-- The tables of a `RequestPlaceholderAllocator`. -/
structure RequestPlaceholderAllocator where
  byOriginal : Dict Text Text
  byPlaceholder : Dict Text Text
  forbidden : List Text
  familyNext : Dict Text ℕ
  /-- From the configured text of a rule to the token its originals share. -/
  exemptCanonical : Dict Text Text

namespace RequestPlaceholderAllocator

def init : RequestPlaceholderAllocator := ⟨.empty, .empty, [], .empty, .empty⟩

/-- Mark labels that must never be assigned. -/
def forbid (a : RequestPlaceholderAllocator) (labels : List Text) : RequestPlaceholderAllocator :=
  { a with forbidden := a.forbidden ++ labels }

def isTaken (a : RequestPlaceholderAllocator) (l : Text) : Bool :=
  (a.byPlaceholder.get? l).isSome || a.forbidden.contains l

/-- The family in which a fresh label is minted for a placeholder. -/
def mintFamily (placeholder : Text) : Text := (placeholderFamily placeholder).getD fallbackFamily

/-- The index the loop of `_mint` stops at. The bound on its steps exceeds the
number of taken labels, see `mint_not_taken`. -/
def mintIndex (a : RequestPlaceholderAllocator) (family : Text) : ℕ :=
  Search.firstFree (fun i => a.isTaken (label family (index03d i)))
    (a.byPlaceholder.keys.length + a.forbidden.length + 1) ((a.familyNext.get? family).getD 1)

/-- Allocate a fresh placeholder in the same label family. -/
def mint (a : RequestPlaceholderAllocator) (placeholder : Text) :
    Text × RequestPlaceholderAllocator :=
  let family := mintFamily placeholder
  let index := a.mintIndex family
  (label family (index03d index), { a with familyNext := a.familyNext.insert family (index + 1) })

/-- `_canonical(original, placeholder, exempt)`. -/
def canonical (a : RequestPlaceholderAllocator) (original placeholder : Text) (exempt : Bool) :
    Text × RequestPlaceholderAllocator :=
  match a.byOriginal.get? original with
  | some existing => (existing, a)
  | none =>
      let r : Text × RequestPlaceholderAllocator :=
        if exempt then
          match a.exemptCanonical.get? placeholder with
          | some chosen => (chosen, a)
          | none =>
              let m := if a.isTaken placeholder then a.mint placeholder else (placeholder, a)
              (m.1, { m.2 with exemptCanonical := m.2.exemptCanonical.insert placeholder m.1 })
        else if a.isTaken placeholder then a.mint placeholder
        else (placeholder, a)
      (r.1, { r.2 with
        byOriginal := r.2.byOriginal.insert original r.1
        byPlaceholder := r.2.byPlaceholder.setdefault r.1 original })

/-- The request-canonical pairs of one segment, in input order. -/
def remap (a : RequestPlaceholderAllocator) (exempt : List Text) :
    List Pair → List Pair × RequestPlaceholderAllocator
  | [] => ([], a)
  | (original, placeholder) :: pairs =>
      let c := a.canonical original placeholder (exempt.contains original)
      let r := c.2.remap exempt pairs
      ((original, c.1) :: r.1, r.2)

/-- A `remap` call: the pairs of a segment and its exempt originals. -/
structure RemapCall where
  pairs : List Pair
  exempt : List Text := []

/-- The outputs of a sequence of `remap` calls. -/
def remapAll (a : RequestPlaceholderAllocator) :
    List RemapCall → List (List Pair) × RequestPlaceholderAllocator
  | [] => ([], a)
  | call :: calls =>
      let c := a.remap call.exempt call.pairs
      let r := c.2.remapAll calls
      (c.1 :: r.1, r.2)

/-- An allocator on which all `forbid` calls were made. -/
def forbidAll (forbids : List (List Text)) : RequestPlaceholderAllocator :=
  forbids.foldl forbid init

/-! ## Minting -/

theorem ofDigitChars_replicate_zero (n : ℕ) (ds : Text) :
    Nat.ofDigitChars 10 (List.replicate n '0' ++ ds) 0 = Nat.ofDigitChars 10 ds 0 := by
  induction n with
  | zero => rfl
  | succ n ih => simpa [List.replicate_succ, Nat.ofDigitChars_cons] using ih

/-- Padding keeps the value of the digits, so distinct indices print differently. -/
theorem index03d_injective : Function.Injective index03d := by
  intro i j hij
  have h := congrArg (fun ds => Nat.ofDigitChars 10 ds 0) hij
  simpa [index03d, List.leftpad, ofDigitChars_replicate_zero, Nat.ofDigitChars_ten_toDigits] using h

theorem label_index_injective (family : Text) :
    Function.Injective fun i => label family (index03d i) := by
  intro i j hij
  simp only [label, List.cons.injEq, true_and, List.append_cancel_left_eq,
    List.append_cancel_right_eq] at hij
  exact index03d_injective hij

theorem isTaken_iff {a : RequestPlaceholderAllocator} {l : Text} :
    a.isTaken l = true ↔ l ∈ a.byPlaceholder.keys ∨ l ∈ a.forbidden := by
  simp [isTaken, Dict.mem_keys]

/-- A minted label is neither assigned nor forbidden. -/
theorem mint_not_taken (a : RequestPlaceholderAllocator) (placeholder : Text) :
    a.isTaken (a.mint placeholder).1 = false := by
  refine Search.firstFree_free (label_index_injective (mintFamily placeholder)) a.isTaken
    (a.byPlaceholder.keys ++ a.forbidden) ?_ ?_ _
  · intro l hl
    exact List.mem_append.mpr (isTaken_iff.mp hl)
  · rw [List.length_append]
    omega

theorem index03d_isDecimal (i : ℕ) : ∀ d ∈ index03d i, Unicode.isDecimal d = true := by
  intro d hd
  apply Unicode.isDecimal_of_isDigit
  rcases List.mem_append.mp hd with hd | hd
  · rw [(List.mem_replicate.mp hd).2]
    decide
  · exact Nat.isDigit_of_mem_toDigits (by omega) (by omega) hd

theorem three_le_length_index03d (i : ℕ) : 3 ≤ (index03d i).length := by
  simp only [index03d, List.leftpad, List.length_append, List.length_replicate]
  omega

/-- A label minted for a placeholder `[FAMILY_NNN]` has that form again. -/
theorem mint_isPlaceholder (a : RequestPlaceholderAllocator) {placeholder : Text}
    (h : IsPlaceholder placeholder) : IsPlaceholder (a.mint placeholder).1 := by
  rcases h with ⟨fam, digits, hfam, hlen, hdig, rfl⟩
  have hne : digits ≠ [] := by
    rintro rfl
    simp at hlen
  have hmint : mintFamily (label fam digits) = fam := by
    rw [mintFamily, placeholderFamily_label hfam hne hdig, Option.getD_some]
  refine ⟨fam, index03d (a.mintIndex fam), hfam, three_le_length_index03d _,
    index03d_isDecimal _, ?_⟩
  simp only [mint, hmint]

/-! ## One assignment -/

/-- A claim: an original asks for a placeholder text, as an exempt one or not. -/
structure Claim where
  original : Text
  placeholder : Text
  exempt : Bool
deriving DecidableEq, Repr

/-- The first claim of an original. -/
def firstClaim (claims : List Claim) (original : Text) : Option Claim :=
  claims.find? fun c => c.original == original

/-- `r` is free, and is the text asked for or a label minted for it. -/
def Fresh (a : RequestPlaceholderAllocator) (placeholder r : Text) : Prop :=
  a.isTaken r = false ∧ (r = placeholder ∨ r = (a.mint placeholder).1)

/-- The text asked for if it is free, a minted label otherwise. -/
theorem claimed_cases (a : RequestPlaceholderAllocator) (placeholder : Text) :
    ∃ r next, (if a.isTaken placeholder then a.mint placeholder else (placeholder, a)) =
        (r, { a with familyNext := next }) ∧ Fresh a placeholder r := by
  by_cases h : a.isTaken placeholder = true
  · rw [if_pos h]
    exact ⟨_, _, rfl, mint_not_taken a placeholder, Or.inr rfl⟩
  · rw [if_neg h]
    exact ⟨placeholder, a.familyNext, rfl, by simpa using h, Or.inl rfl⟩

/-- The three ways a new original gets its placeholder `r`, with the exempt table
afterwards: it joins the token of its configured text, it settles that token, or it
takes a free label of its own. -/
inductive Choice (a : RequestPlaceholderAllocator) (placeholder r : Text) :
    Bool → Dict Text Text → Prop
  | joins (h : a.exemptCanonical.get? placeholder = some r) :
      Choice a placeholder r true a.exemptCanonical
  | settles (h : a.exemptCanonical.get? placeholder = none) (hfree : Fresh a placeholder r) :
      Choice a placeholder r true (a.exemptCanonical.insert placeholder r)
  | owns (hfree : Fresh a placeholder r) : Choice a placeholder r false a.exemptCanonical

/-- Everything one assignment can do: reuse the placeholder of a known original and
change nothing, or choose one for a new original and store it in both tables. -/
theorem canonical_cases (a : RequestPlaceholderAllocator) (original placeholder : Text)
    (exempt : Bool) :
    (∃ r, a.byOriginal.get? original = some r ∧ a.canonical original placeholder exempt = (r, a)) ∨
    (a.byOriginal.get? original = none ∧ ∃ r next table,
      a.canonical original placeholder exempt =
        (r, ⟨a.byOriginal.insert original r, a.byPlaceholder.setdefault r original, a.forbidden,
          next, table⟩) ∧ Choice a placeholder r exempt table) := by
  unfold canonical
  cases ho : a.byOriginal.get? original with
  | some existing => exact Or.inl ⟨existing, rfl, rfl⟩
  | none =>
    refine Or.inr ⟨rfl, ?_⟩
    rcases claimed_cases a placeholder with ⟨r, next, heq, hfree⟩
    cases exempt with
    | false =>
      refine ⟨r, next, a.exemptCanonical, ?_, .owns hfree⟩
      simp only [Bool.false_eq_true, if_false, heq]
    | true =>
      cases he : a.exemptCanonical.get? placeholder with
      | some chosen =>
        exact ⟨chosen, a.familyNext, a.exemptCanonical, rfl, .joins he⟩
      | none =>
        refine ⟨r, next, a.exemptCanonical.insert placeholder r, ?_, .settles he hfree⟩
        simp only [if_true, heq]

/-! ## What the tables say about a run -/

/-- The tables of an allocator after the claims `claims` were answered by `out`. -/
structure Tracks (forbidden : List Text) (claims : List Claim) (out : List Pair)
    (a : RequestPlaceholderAllocator) : Prop where
  forbidden_eq : a.forbidden = forbidden
  byOriginal_eq : ∀ o, a.byOriginal.get? o = out.lookup o
  byPlaceholder_eq : ∀ p, a.byPlaceholder.get? p = (out.map Prod.swap).lookup p
  originals_eq : out.map Prod.fst = claims.map Claim.original
  /-- An original carries one placeholder. -/
  functional : ∀ o p, (o, p) ∈ out → out.lookup o = some p
  allowed : ∀ o p, (o, p) ∈ out → p ∉ forbidden
  /-- A placeholder with two originals is the token of a configured text. -/
  shared : ∀ o₁ o₂ p, (o₁, p) ∈ out → (o₂, p) ∈ out → o₁ ≠ o₂ →
    ∃ t, a.exemptCanonical.get? t = some p
  /-- The token of a configured text is in use, and only by originals that first
  came as exempt claims of that text. -/
  exempt : ∀ t p, a.exemptCanonical.get? t = some p →
    (∃ o, (o, p) ∈ out) ∧ ∀ o, (o, p) ∈ out → firstClaim claims o = some ⟨o, t, true⟩
  /-- A property of the texts asked for that minting keeps holds of every answer. -/
  minted : ∀ P : Text → Prop, (∀ b q, P q → P (mint b q).1) → (∀ c ∈ claims, P c.placeholder) →
    ∀ o p, (o, p) ∈ out → P p

section Step

variable {forbidden : List Text} {claims : List Claim} {out : List Pair}
  {a : RequestPlaceholderAllocator} {o p r : Text} {exempt : Bool}

theorem firstClaim_append {c c' : Claim} (h : firstClaim claims o = some c) :
    firstClaim (claims ++ [c']) o = some c := by
  have h' : claims.find? (fun c => c.original == o) = some c := h
  rw [firstClaim, List.find?_append, h', Option.some_or]

/-- An original that is not in the table has no claim yet. -/
theorem Tracks.firstClaim_new (h : Tracks forbidden claims out a)
    (ho : a.byOriginal.get? o = none) :
    firstClaim (claims ++ [⟨o, p, exempt⟩]) o = some ⟨o, p, exempt⟩ := by
  have hmem : o ∉ claims.map Claim.original := by
    rw [h.byOriginal_eq] at ho
    rw [← h.originals_eq, ← Dict.isSome_lookup, ho]
    simp
  have hnone : claims.find? (fun c => c.original == o) = none := by
    rw [List.find?_eq_none]
    intro c hc hco
    exact hmem (List.mem_map.mpr ⟨c, hc, by simpa using hco⟩)
  rw [firstClaim, List.find?_append, hnone]
  simp

/-- A free label has no original yet and is not forbidden. -/
theorem Tracks.of_fresh (h : Tracks forbidden claims out a) (hfree : Fresh a p r) :
    (∀ x, (x, r) ∉ out) ∧ r ∉ forbidden := by
  have hnot : ¬ (r ∈ a.byPlaceholder.keys ∨ r ∈ a.forbidden) := by
    rw [← isTaken_iff, hfree.1]
    simp
  constructor
  · intro x hx
    apply hnot
    left
    rw [Dict.mem_keys, h.byPlaceholder_eq, Dict.isSome_lookup]
    simp only [List.map_map, List.mem_map, Function.comp_apply]
    exact ⟨(x, r), hx, rfl⟩
  · intro hr
    exact hnot (Or.inr (h.forbidden_eq ▸ hr))

theorem lookup_append_known {l : List Pair} {k v : Text} (hk : k ∈ l.map Prod.fst) (x : Text) :
    (l ++ [(k, v)]).lookup x = l.lookup x := by
  rw [List.lookup_append]
  by_cases hx : x = k
  · rcases Option.isSome_iff_exists.mp (Dict.isSome_lookup.mpr hk) with ⟨w, hw⟩
    rw [hx, hw, Option.some_or]
  · cases l.lookup x <;> simp [hx]

theorem lookup_append_new {l : List Pair} {k v : Text} (hk : l.lookup k = none) (x : Text) :
    (l ++ [(k, v)]).lookup x = if x == k then some v else l.lookup x := by
  rw [List.lookup_append]
  by_cases hx : x = k
  · simp [hx, hk]
  · cases l.lookup x <;> simp [hx]

theorem mem_of_lookup {l : List Pair} {k v : Text} (h : l.lookup k = some v) : (k, v) ∈ l := by
  rcases List.lookup_eq_some_iff.mp h with ⟨l₁, l₂, rfl, _⟩
  simp

/-- A known original: the answer repeats a pair that is already there. -/
theorem Tracks.reuse (h : Tracks forbidden claims out a) (ho : a.byOriginal.get? o = some r) :
    Tracks forbidden (claims ++ [⟨o, p, exempt⟩]) (out ++ [(o, r)]) a := by
  have hmem : (o, r) ∈ out := mem_of_lookup (h.byOriginal_eq o ▸ ho)
  have hout : ∀ {x q}, (x, q) ∈ out ++ [(o, r)] → (x, q) ∈ out := by
    intro x q hx
    rcases List.mem_append.mp hx with hx | hx
    · exact hx
    · rwa [List.mem_singleton.mp hx]
  have hlook : ∀ x, (out ++ [(o, r)]).lookup x = out.lookup x :=
    lookup_append_known (List.mem_map.mpr ⟨_, hmem, rfl⟩)
  refine ⟨h.forbidden_eq, ?_, ?_, ?_, ?_, fun x q hx => h.allowed x q (hout hx), ?_, ?_, ?_⟩
  · intro x
    rw [hlook, h.byOriginal_eq]
  · intro q
    rw [List.map_append, h.byPlaceholder_eq]
    refine (lookup_append_known ?_ q).symm
    simp only [List.map_map, List.mem_map, Function.comp_apply]
    exact ⟨(o, r), hmem, rfl⟩
  · simp [h.originals_eq]
  · intro x q hx
    rw [hlook]
    exact h.functional x q (hout hx)
  · intro o₁ o₂ q h₁ h₂
    exact h.shared o₁ o₂ q (hout h₁) (hout h₂)
  · intro t q ht
    rcases h.exempt t q ht with ⟨⟨x, hx⟩, hall⟩
    refine ⟨⟨x, List.mem_append_left _ hx⟩, ?_⟩
    intro y hy
    exact firstClaim_append (hall y (hout hy))
  · intro P hP hclaims x q hx
    refine h.minted P hP ?_ x q (hout hx)
    intro c hc
    exact hclaims c (List.mem_append_left _ hc)

/-- Entries of the exempt table stay. -/
theorem Choice.table_extends {table : Dict Text Text} (hc : Choice a p r exempt table)
    {t q : Text} (ht : a.exemptCanonical.get? t = some q) : table.get? t = some q := by
  cases hc with
  | joins _ => exact ht
  | owns _ => exact ht
  | settles hnone _ =>
    rw [Dict.get?_insert]
    have htp : t ≠ p := by
      rintro rfl
      simp [hnone] at ht
    simpa [htp] using ht

/-- A new placeholder is free unless the claim joins a token in use. -/
theorem Tracks.choice_cases {table : Dict Text Text} (h : Tracks forbidden claims out a)
    (hc : Choice a p r exempt table) :
    (exempt = true ∧ a.exemptCanonical.get? p = some r ∧ table = a.exemptCanonical ∧
      ∃ x, (x, r) ∈ out) ∨
    (Fresh a p r ∧ (∀ x, (x, r) ∉ out) ∧ r ∉ forbidden) := by
  cases hc with
  | joins he => exact Or.inl ⟨rfl, he, rfl, (h.exempt p r he).1⟩
  | settles _ hfree => exact Or.inr ⟨hfree, h.of_fresh hfree⟩
  | owns hfree => exact Or.inr ⟨hfree, h.of_fresh hfree⟩

/-- Who uses the token of a configured text once a new original has joined. -/
theorem Tracks.exempt_assign {table : Dict Text Text} (h : Tracks forbidden claims out a)
    (ho : a.byOriginal.get? o = none) (hc : Choice a p r exempt table) {t q : Text}
    (ht : table.get? t = some q) :
    (∃ x, (x, q) ∈ out ++ [(o, r)]) ∧ ∀ x, (x, q) ∈ out ++ [(o, r)] →
      firstClaim (claims ++ [⟨o, p, exempt⟩]) x = some ⟨x, t, true⟩ := by
  have hold : a.exemptCanonical.get? t = some q → (q = r → exempt = true ∧ t = p) →
      (∃ x, (x, q) ∈ out ++ [(o, r)]) ∧ ∀ x, (x, q) ∈ out ++ [(o, r)] →
        firstClaim (claims ++ [⟨o, p, exempt⟩]) x = some ⟨x, t, true⟩ := by
    intro ht hqr
    rcases h.exempt t q ht with ⟨⟨x, hx⟩, hall⟩
    refine ⟨⟨x, List.mem_append_left _ hx⟩, ?_⟩
    intro y hy
    rcases List.mem_append.mp hy with hy | hy
    · exact firstClaim_append (hall y hy)
    · rcases Prod.mk.inj (List.mem_singleton.mp hy) with ⟨rfl, rfl⟩
      rcases hqr rfl with ⟨rfl, rfl⟩
      exact h.firstClaim_new ho
  have hfresh : Fresh a p r → a.exemptCanonical.get? t = some q → q ≠ r := by
    rintro hfree ht rfl
    rcases (h.exempt t q ht).1 with ⟨x, hx⟩
    exact (h.of_fresh hfree).1 x hx
  cases hc with
  | joins he =>
    refine hold ht ?_
    rintro rfl
    -- the token has a user, whose first claim names one configured text
    rcases (h.exempt t q ht).1 with ⟨x, hx⟩
    have h₁ := (h.exempt t q ht).2 x hx
    have h₂ := (h.exempt p q he).2 x hx
    rw [h₁] at h₂
    simpa using h₂
  | owns hfree => exact hold ht fun hq => absurd hq (hfresh hfree ht)
  | settles hnone hfree =>
    rw [Dict.get?_insert] at ht
    by_cases htp : t = p
    · have hqr : r = q := by simpa [htp] using ht
      subst htp hqr
      refine ⟨⟨o, by simp⟩, ?_⟩
      intro x hx
      rcases List.mem_append.mp hx with hx | hx
      · exact absurd hx ((h.of_fresh hfree).1 x)
      · rcases Prod.mk.inj (List.mem_singleton.mp hx) with ⟨rfl, _⟩
        exact h.firstClaim_new ho
    · have ht' : a.exemptCanonical.get? t = some q := by simpa [htp] using ht
      exact hold ht' fun hq => absurd hq (hfresh hfree ht')

/-- A new original: its placeholder is stored in both tables. -/
theorem Tracks.assign {table : Dict Text Text} {next : Dict Text ℕ}
    (h : Tracks forbidden claims out a) (ho : a.byOriginal.get? o = none)
    (hc : Choice a p r exempt table) :
    Tracks forbidden (claims ++ [⟨o, p, exempt⟩]) (out ++ [(o, r)])
      ⟨a.byOriginal.insert o r, a.byPlaceholder.setdefault r o, a.forbidden, next, table⟩ := by
  have hlook : out.lookup o = none := h.byOriginal_eq o ▸ ho
  have hnew : ∀ {q}, (o, q) ∉ out := by
    intro q hq
    have hs := h.functional o q hq
    simp [hlook] at hs
  refine ⟨h.forbidden_eq, ?_, ?_, ?_, ?_, ?_, ?_, fun t q => h.exempt_assign ho hc, ?_⟩
  · intro x
    rw [Dict.get?_insert, lookup_append_new hlook, h.byOriginal_eq]
  · intro q
    rw [Dict.get?_setdefault, List.map_append, List.lookup_append, ← h.byPlaceholder_eq]
    by_cases hq : q = r
    · subst hq
      cases a.byPlaceholder.get? q <;> simp
    · cases a.byPlaceholder.get? q <;> simp [hq]
  · simp [h.originals_eq]
  · intro x q hx
    rw [lookup_append_new hlook]
    rcases List.mem_append.mp hx with hold | hx
    · have hxo : x ≠ o := by
        rintro rfl
        exact hnew hold
      simpa [hxo] using h.functional x q hold
    · rcases Prod.mk.inj (List.mem_singleton.mp hx) with ⟨rfl, rfl⟩
      simp
  · intro x q hx
    rcases List.mem_append.mp hx with hx | hx
    · exact h.allowed x q hx
    · rcases Prod.mk.inj (List.mem_singleton.mp hx) with ⟨rfl, rfl⟩
      rcases h.choice_cases hc with ⟨_, _, _, y, hy⟩ | ⟨_, _, hr⟩
      · exact h.allowed y q hy
      · exact hr
  · -- only an exempt claim can meet a placeholder in use
    have hjoin : ∀ x, (x, r) ∈ out → ∃ t, table.get? t = some r := by
      intro x hx
      rcases h.choice_cases hc with ⟨_, he, rfl, _⟩ | ⟨_, hno, _⟩
      · exact ⟨p, he⟩
      · exact absurd hx (hno x)
    intro o₁ o₂ q hm₁ hm₂ hne
    rcases List.mem_append.mp hm₁ with h₁ | h₁ <;> rcases List.mem_append.mp hm₂ with h₂ | h₂
    · rcases h.shared o₁ o₂ q h₁ h₂ hne with ⟨t, ht⟩
      exact ⟨t, hc.table_extends ht⟩
    · rcases Prod.mk.inj (List.mem_singleton.mp h₂) with ⟨_, rfl⟩
      exact hjoin o₁ h₁
    · rcases Prod.mk.inj (List.mem_singleton.mp h₁) with ⟨_, rfl⟩
      exact hjoin o₂ h₂
    · rcases Prod.mk.inj (List.mem_singleton.mp h₁) with ⟨rfl, _⟩
      rcases Prod.mk.inj (List.mem_singleton.mp h₂) with ⟨rfl, _⟩
      exact absurd rfl hne
  · intro P hP hclaims x q hx
    have hold := h.minted P hP fun c hc => hclaims c (List.mem_append_left _ hc)
    rcases List.mem_append.mp hx with hx | hx
    · exact hold x q hx
    · rcases Prod.mk.inj (List.mem_singleton.mp hx) with ⟨rfl, rfl⟩
      have hp : P p := hclaims ⟨x, p, exempt⟩ (by simp)
      rcases h.choice_cases hc with ⟨_, _, _, y, hy⟩ | ⟨hfree, _, _⟩
      · exact hold y q hy
      · rcases hfree.2 with rfl | rfl
        · exact hp
        · exact hP a p hp

/-- One assignment keeps the tables in step with the claims. -/
theorem Tracks.canonical (h : Tracks forbidden claims out a) (o p : Text) (exempt : Bool) :
    Tracks forbidden (claims ++ [⟨o, p, exempt⟩])
      (out ++ [(o, (a.canonical o p exempt).1)]) (a.canonical o p exempt).2 := by
  rcases canonical_cases a o p exempt with ⟨r, ho, heq⟩ | ⟨ho, r, next, table, heq, hc⟩
  · rw [heq]
    exact h.reuse ho
  · rw [heq]
    exact h.assign ho hc

end Step

/-! ## Runs -/

/-- The claims a `remap` call makes. -/
def RemapCall.claims (call : RemapCall) : List Claim :=
  call.pairs.map fun e => ⟨e.1, e.2, call.exempt.contains e.1⟩

/-- The `forbid` calls fill the forbidden set and touch nothing else. -/
theorem forbidAll_eq (forbids : List (List Text)) :
    forbidAll forbids = { init with forbidden := forbids.flatten } := by
  have h : ∀ l, forbids.foldl forbid { init with forbidden := l } =
      { init with forbidden := l ++ forbids.flatten } := by
    induction forbids with
    | nil =>
      intro l
      simp
    | cons labels forbids ih =>
      intro l
      simpa [forbid] using ih (l ++ labels)
  exact h []

theorem Tracks.init (forbids : List (List Text)) :
    Tracks forbids.flatten [] [] (forbidAll forbids) := by
  rw [forbidAll_eq]
  constructor <;> simp [RequestPlaceholderAllocator.init]

/-- A `remap` call keeps the tables in step. -/
theorem Tracks.remap {forbidden : List Text} {claims : List Claim} {out : List Pair}
    {a : RequestPlaceholderAllocator} (h : Tracks forbidden claims out a) (exempt : List Text)
    (pairs : List Pair) :
    Tracks forbidden (claims ++ RemapCall.claims ⟨pairs, exempt⟩)
      (out ++ (a.remap exempt pairs).1) (a.remap exempt pairs).2 := by
  induction pairs generalizing claims out a with
  | nil => simpa [RemapCall.claims, RequestPlaceholderAllocator.remap] using h
  | cons e pairs ih =>
    have hstep := ih (h.canonical e.1 e.2 (exempt.contains e.1))
    simpa [RemapCall.claims, RequestPlaceholderAllocator.remap] using hstep

/-- A whole run of `remap` calls keeps the tables in step. -/
theorem Tracks.remapAll {forbidden : List Text} {claims : List Claim} {out : List Pair}
    {a : RequestPlaceholderAllocator} (h : Tracks forbidden claims out a)
    (calls : List RemapCall) :
    Tracks forbidden (claims ++ calls.flatMap RemapCall.claims)
      (out ++ (a.remapAll calls).1.flatten) (a.remapAll calls).2 := by
  induction calls generalizing claims out a with
  | nil => simpa [RequestPlaceholderAllocator.remapAll] using h
  | cons call calls ih =>
    have hstep := ih (h.remap call.exempt call.pairs)
    simpa [RequestPlaceholderAllocator.remapAll] using hstep

/-- The tables after any run in which the `forbid` calls come first. -/
theorem tracks_run (forbids : List (List Text)) (calls : List RemapCall) :
    Tracks forbids.flatten (calls.flatMap RemapCall.claims)
      ((forbidAll forbids).remapAll calls).1.flatten ((forbidAll forbids).remapAll calls).2 := by
  simpa using (Tracks.init forbids).remapAll calls

/-- A placeholder in use is restored to the original of the first pair that has it. -/
theorem first_assigned {out : List Pair} {o p : Text} (h : (o, p) ∈ out) :
    ∃ o₀ before after, out = before ++ (o₀, p) :: after ∧ (∀ e ∈ before, e.2 ≠ p) ∧
      (out.map Prod.swap).lookup p = some o₀ := by
  have hsome : ((out.map Prod.swap).lookup p).isSome = true := by
    rw [Dict.isSome_lookup]
    simp only [List.map_map, List.mem_map, Function.comp_apply]
    exact ⟨(o, p), h, rfl⟩
  rcases Option.isSome_iff_exists.mp hsome with ⟨o₀, ho₀⟩
  rcases List.lookup_eq_some_iff.mp ho₀ with ⟨l₁, l₂, heq, hno⟩
  rcases List.map_eq_append_iff.mp heq with ⟨before, rest, rfl, rfl, hrest⟩
  rcases List.map_eq_cons_iff.mp hrest with ⟨⟨x, y⟩, after, rfl, hxy, rfl⟩
  rcases Prod.mk.inj hxy with ⟨rfl, rfl⟩
  refine ⟨x, before, after, rfl, ?_, ho₀⟩
  intro e he hep
  have := hno e.swap (List.mem_map.mpr ⟨e, he, rfl⟩)
  simp [hep] at this

/-- **The allocator keeps a bijection.** After any `forbid` calls and then any
`remap` calls, with any pairs and exempt sets: an original carries one placeholder;
two originals share one only if both first came as exempt claims of one configured
text; no forbidden label is assigned; and the reverse substituter of the outputs
restores a placeholder to the first original that was assigned it. -/
theorem allocator_bijection (forbids : List (List Text)) (calls : List RemapCall) :
    let claims := calls.flatMap RemapCall.claims
    let run := (forbidAll forbids).remapAll calls
    let outs := run.1.flatten
    (∀ o p q, (o, p) ∈ outs → (o, q) ∈ outs → p = q) ∧
    (∀ o₁ o₂ p, (o₁, p) ∈ outs → (o₂, p) ∈ outs → o₁ ≠ o₂ →
      ∃ t, firstClaim claims o₁ = some ⟨o₁, t, true⟩ ∧ firstClaim claims o₂ = some ⟨o₂, t, true⟩) ∧
    (∀ o p, (o, p) ∈ outs → ∀ labels ∈ forbids, p ∉ labels) ∧
    (∀ o p, (o, p) ∈ outs → ∃ o₀ before after,
      outs = before ++ (o₀, p) :: after ∧ (∀ e ∈ before, e.2 ≠ p) ∧
      run.2.byPlaceholder.get? p = some o₀ ∧ ⟨p, o₀⟩ ∈ reverseEntries outs ∧
      ∀ e ∈ reverseEntries outs, e.placeholder = p → e.replacement = o₀) := by
  intro claims run outs
  have h : Tracks forbids.flatten claims outs run.2 := tracks_run forbids calls
  refine ⟨?_, ?_, ?_, ?_⟩
  · intro o p q hp hq
    have hsome := (h.functional o p hp).symm.trans (h.functional o q hq)
    exact Option.some.inj hsome
  · intro o₁ o₂ p h₁ h₂ hne
    rcases h.shared o₁ o₂ p h₁ h₂ hne with ⟨t, ht⟩
    exact ⟨t, (h.exempt t p ht).2 o₁ h₁, (h.exempt t p ht).2 o₂ h₂⟩
  · intro o p hp labels hl hpl
    exact h.allowed o p hp (List.mem_flatten.mpr ⟨labels, hl, hpl⟩)
  · intro o p hp
    rcases first_assigned hp with ⟨o₀, before, after, hsplit, hbefore, hlook⟩
    refine ⟨o₀, before, after, hsplit, hbefore, ?_, mem_reverseEntries.mpr hlook, ?_⟩
    · rw [h.byPlaceholder_eq, hlook]
    · rintro ⟨q, r⟩ he rfl
      exact Option.some.inj ((mem_reverseEntries.mp he).symm.trans hlook)

end RequestPlaceholderAllocator

end CorpLlmGateway.Sanitizer
