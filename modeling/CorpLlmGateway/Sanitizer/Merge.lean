import CorpLlmGateway.Data.Results
import CorpLlmGateway.Detectors.Finding
import CorpLlmGateway.Sanitizer.PlaceholderAllocator
import CorpLlmGateway.Text.Numerals

/-!
# Merging findings into pairs

The model of `_merge_local` of `sanitizer/orchestrator.py` and of
`sanitizer/allowlist.py`. The base pairs stay as they are; every text that a finding
adds gets the next free placeholder of its label. The allowlist then drops the
pairs of known test data, unless their label is that of a secret. The merge reads the
numbers of the base placeholders and writes those of the new ones, and fails on a number
with more digits than the interpreter converts.

* `mergeLocal_merged` — the pairs added are new on both sides, and every text found
  has a pair;
* `mergeLocal_returns_iff` — which base pairs and findings are merged;
* `mergeLocal_bijection_iff` — which pairs are added, and under which labels;
* `mem_filterPairs` — what the allowlist keeps.
-/

namespace CorpLlmGateway.Sanitizer

open TextScan Numerals Results CorpLlmGateway.Detectors

/-! ## Labels -/

namespace Merge

/-- `[A-Z_]`. -/
def isLabelChar (c : Char) : Bool := c.isUpper || c == '_'

/-- The groups of `_PLACEHOLDER_LABEL_RE` of the orchestrator: `^\[([A-Z_]+)_(\d+)\]$`. -/
def labelDigits (placeholder : Text) : Option (Text × Text) := labelGroups isLabelChar placeholder

/-- The `ValueError` of a number with too many digits: of `int(digits)`, or of `f"{n:03d}"`. -/
inductive DigitsError where
  | reading (digits : ℕ)
  | writing
deriving DecidableEq, Repr

def DigitsError.message : DigitsError → String
  | .reading digits =>
      "Exceeds the limit (4300 digits) for integer string conversion: value has " ++
        toString digits ++ " digits; use sys.set_int_max_str_digits() to increase the limit"
  | .writing =>
      "Exceeds the limit (4300 digits) for integer string conversion; " ++
        "use sys.set_int_max_str_digits() to increase the limit"

/-- The sort key `(-score, -(end - start))`. -/
def sortKey (f : Finding) : ℚ ×ₗ ℤ := toLex (-f.score, -((f.stop : ℤ) - f.start))

def findingLe (f g : Finding) : Prop := sortKey f ≤ sortKey g

instance : DecidableRel findingLe := fun f g =>
  inferInstanceAs (Decidable (sortKey f ≤ sortKey g))

/-- The variables of the loop of `_merge_local`. -/
structure State where
  seenOriginals : List Text
  usedPlaceholders : List Text
  labelMax : Dict Text ℕ
  newPairs : List Pair

/-- The largest number of each label, with one more base pair. -/
def seed (labelMax : Dict Text ℕ) (pair : Pair) : Except DigitsError (Dict Text ℕ) :=
  match labelDigits pair.2 with
  | none => .ok labelMax
  | some (l, digits) =>
      match unsignedInt digits with
      | none => .error (.reading digits.length)
      | some n => .ok (if (labelMax.get? l).getD 0 < n then labelMax.insert l n else labelMax)

def State.init (pairs : List Pair) (labelMax : Dict Text ℕ) : State :=
  ⟨pairs.map Prod.fst, pairs.map Prod.snd, labelMax, []⟩

/-- The largest number that a label has. -/
def State.max (s : State) (l : Text) : ℕ := (s.labelMax.get? l).getD 0

/-- The number the `while` loop stops at; its bound is never reached, see `fresh_placeholder`. -/
def State.freeNumber (s : State) (l : Text) : ℕ :=
  Search.firstFree (fun n => s.usedPlaceholders.contains (label l (index03d n)))
    (s.usedPlaceholders.length + 1) (s.max l + 1)

/-- A new pair, with the number `n`. -/
def State.add (s : State) (finding : Finding) (n : ℕ) : State :=
  let placeholder := label finding.label (index03d n)
  { seenOriginals := s.seenOriginals ++ [finding.text]
    usedPlaceholders := s.usedPlaceholders ++ [placeholder]
    labelMax := s.labelMax.insert finding.label n
    newPairs := s.newPairs ++ [(finding.text, placeholder)] }

/-- The body of the loop. -/
def State.step (s : State) (finding : Finding) : Except DigitsError State :=
  if finding.text ∈ s.seenOriginals then .ok s
  else
    -- every number that is tried is written, the one found last
    let n := s.freeNumber finding.label
    if ShortInt n then .ok (s.add finding n) else .error .writing

end Merge

/-- `_merge_local(oracle_pairs, local_findings)`. -/
def mergeLocal (oraclePairs : List Pair) (localFindings : List Finding) :
    Except Merge.DigitsError (List Pair) := do
  let labelMax ← oraclePairs.foldlM Merge.seed .empty
  let s ← (localFindings.insertionSort Merge.findingLe).foldlM Merge.State.step
    (.init oraclePairs labelMax)
  return oraclePairs ++ s.newPairs

/-! ## The allowlist -/

namespace Allowlist

def secretLabels : List Text :=
  ["API_KEY", "TOKEN", "PASSWORD", "JWT", "PEM_PRIVATE_KEY", "SECRET"].map String.toList

/-- The label of a placeholder, by `_LABEL_RE`: `^\[([A-Z_]+)_\d+\]$`. It is the pattern of the
merge, with its digits not captured. -/
def labelOf (placeholder : Text) : Option Text :=
  (labelGroups Merge.isLabelChar placeholder).map Prod.fst

/-- The test of the loop of `filter_pairs`. -/
def keeps (allowed : List Text) (pair : Pair) : Bool :=
  !allowed.contains pair.1 || (labelOf pair.2).any secretLabels.contains

/-- `filter_pairs(pairs)`. -/
def filterPairs (allowed : List Text) (pairs : List Pair) : List Pair :=
  if allowed.isEmpty then pairs else pairs.filter (keeps allowed)

/-- The shortcut for an empty allowlist changes nothing. -/
theorem mem_filterPairs {allowed : List Text} {pairs : List Pair} {e : Pair} :
    e ∈ filterPairs allowed pairs ↔ e ∈ pairs ∧ keeps allowed e = true := by
  unfold filterPairs
  split
  · next hnil =>
    have hall : keeps allowed e = true := by simp [keeps, List.isEmpty_iff.mp hnil]
    simp [hall]
  · exact List.mem_filter

end Allowlist

/-! ## What the merge adds -/

/-- `out` extends the pairs `base` by new pairs for the texts that were found. -/
structure Merged (base : List Pair) (found : List Finding) (out : List Pair) : Prop where
  extends_base : ∃ new, out = base ++ new ∧
    (new.map Prod.fst).Nodup ∧ (∀ o ∈ new.map Prod.fst, o ∉ base.map Prod.fst) ∧
    (new.map Prod.snd).Nodup ∧ (∀ p ∈ new.map Prod.snd, p ∉ base.map Prod.snd)
  covers : ∀ f ∈ found, f.text ∈ out.map Prod.fst

namespace Merge

/-- The placeholder of a step is unused. -/
theorem fresh_placeholder (s : State) (l : Text) :
    label l (index03d (s.freeNumber l)) ∉ s.usedPlaceholders := by
  have hfree := Search.firstFree_free (RequestPlaceholderAllocator.label_index_injective l)
    s.usedPlaceholders.contains s.usedPlaceholders (fun x hx => by simpa using hx)
    (Nat.lt_succ_self _) (s.max l + 1)
  simpa [State.freeNumber] using hfree

/-- The `while` loop stops: the number is free, and every number before it was tried and
taken. -/
theorem freeNumber_spec (s : State) (l : Text) :
    s.max l + 1 ≤ s.freeNumber l ∧ label l (index03d (s.freeNumber l)) ∉ s.usedPlaceholders ∧
      ∀ n, s.max l + 1 ≤ n → n < s.freeNumber l → label l (index03d n) ∈ s.usedPlaceholders := by
  refine ⟨Search.le_firstFree _ _ _, fresh_placeholder s l, ?_⟩
  intro n hle hlt
  simpa using Search.taken_of_lt_firstFree hle hlt

/-- What a step does: nothing, for a text that has a pair; or it adds one. -/
theorem State.step_cases {s s' : State} {f : Finding} (h : s.step f = .ok s') :
    (f.text ∈ s.seenOriginals ∧ s' = s) ∨
      (f.text ∉ s.seenOriginals ∧ ShortInt (s.freeNumber f.label) ∧
        s' = s.add f (s.freeNumber f.label)) := by
  unfold State.step at h
  split at h
  · next hseen =>
    cases h
    exact .inl ⟨hseen, rfl⟩
  · next hnew =>
    simp only at h
    split at h
    · next hshort =>
      cases h
      exact .inr ⟨hnew, hshort, rfl⟩
    · cases h

/-- The loop invariant: the sets hold the two sides of all pairs, and the new pairs
repeat nothing. -/
structure State.Ok (base : List Pair) (s : State) : Prop where
  seen_eq : s.seenOriginals = (base ++ s.newPairs).map Prod.fst
  used_eq : s.usedPlaceholders = (base ++ s.newPairs).map Prod.snd
  originals : (s.newPairs.map Prod.fst).Nodup ∧
    ∀ o ∈ s.newPairs.map Prod.fst, o ∉ base.map Prod.fst
  placeholders : (s.newPairs.map Prod.snd).Nodup ∧
    ∀ p ∈ s.newPairs.map Prod.snd, p ∉ base.map Prod.snd

theorem State.init_ok (base : List Pair) (labelMax : Dict Text ℕ) :
    (State.init base labelMax).Ok base :=
  ⟨by simp [State.init], by simp [State.init], by simp [State.init], by simp [State.init]⟩

/-- Appending a value that is on neither list keeps both apart. -/
theorem nodup_append_new {base new : List Text} {x : Text} (hx : x ∉ base ++ new)
    (h : new.Nodup ∧ ∀ o ∈ new, o ∉ base) :
    (new ++ [x]).Nodup ∧ ∀ o ∈ new ++ [x], o ∉ base := by
  rw [List.mem_append, not_or] at hx
  constructor
  · rw [List.nodup_append]
    refine ⟨h.1, List.nodup_singleton x, ?_⟩
    intro a ha b hb hab
    rw [List.mem_singleton.mp hb] at hab
    exact hx.2 (hab ▸ ha)
  · intro o ho
    rcases List.mem_append.mp ho with ho | ho
    · exact h.2 o ho
    · rw [List.mem_singleton.mp ho]
      exact hx.1

theorem State.Ok.step {base : List Pair} {s s' : State} {f : Finding} (h : s.Ok base)
    (hstep : s.step f = .ok s') :
    s'.Ok base ∧ ∀ o, o ∈ s'.seenOriginals ↔ o ∈ s.seenOriginals ∨ f.text = o := by
  obtain ⟨hseen, rfl⟩ | ⟨hnew, -, rfl⟩ := State.step_cases hstep
  · refine ⟨h, fun o => ⟨Or.inl, ?_⟩⟩
    rintro (ho | rfl)
    · exact ho
    · exact hseen
  · have hfresh := fresh_placeholder s f.label
    rw [h.seen_eq, List.map_append] at hnew
    rw [h.used_eq, List.map_append] at hfresh
    refine ⟨⟨by simp [State.add, h.seen_eq], by simp [State.add, h.used_eq], ?_, ?_⟩, ?_⟩
    · simpa only [State.add, List.map_append, List.map_cons, List.map_nil] using
        nodup_append_new hnew h.originals
    · simpa only [State.add, List.map_append, List.map_cons, List.map_nil] using
        nodup_append_new hfresh h.placeholders
    · simp [State.add, eq_comm]

/-- A whole run of the loop. -/
theorem State.Ok.run {base : List Pair} {findings : List Finding} {s s' : State} (h : s.Ok base)
    (hrun : findings.foldlM State.step s = .ok s') :
    s'.Ok base ∧
      ∀ o, o ∈ s'.seenOriginals ↔ o ∈ s.seenOriginals ∨ ∃ f ∈ findings, f.text = o := by
  induction findings generalizing s with
  | nil =>
    cases hrun
    exact ⟨h, fun o => by simp⟩
  | cons f findings ih =>
    obtain ⟨t, hstep, hrest⟩ := bind_eq_ok hrun
    obtain ⟨hok, hseen⟩ := h.step hstep
    obtain ⟨hok', hseen'⟩ := ih hok hrest
    refine ⟨hok', fun o => ?_⟩
    rw [hseen', hseen]
    simp only [List.mem_cons, exists_eq_or_imp, or_assoc]

end Merge

/-- The two loops of a merge that returns. -/
theorem mergeLocal_eq_ok {base out : List Pair} {found : List Finding}
    (h : mergeLocal base found = .ok out) :
    ∃ labelMax s, base.foldlM Merge.seed .empty = .ok labelMax ∧
      (found.insertionSort Merge.findingLe).foldlM Merge.State.step (.init base labelMax) = .ok s ∧
      out = base ++ s.newPairs := by
  obtain ⟨labelMax, hseed, h⟩ := bind_eq_ok h
  obtain ⟨s, hrun, h⟩ := bind_eq_ok h
  exact ⟨labelMax, s, hseed, hrun, (Except.ok.inj h).symm⟩

/-- `_merge_local` keeps the base pairs, and gives every other text that was found one
placeholder that nothing else has. -/
theorem mergeLocal_merged {base out : List Pair} {found : List Finding}
    (h : mergeLocal base found = .ok out) : Merged base found out := by
  obtain ⟨labelMax, s, -, hrun, rfl⟩ := mergeLocal_eq_ok h
  obtain ⟨hok, hseen⟩ := (Merge.State.init_ok base labelMax).run hrun
  refine ⟨⟨_, rfl, hok.originals.1, hok.originals.2, hok.placeholders.1, hok.placeholders.2⟩, ?_⟩
  intro f hf
  rw [← hok.seen_eq, hseen]
  exact Or.inr ⟨f, (List.mem_insertionSort _).mpr hf, rfl⟩

namespace Merge

/-! ## Which merges return -/

/-- A number that a new pair of a label may get: it is larger than those of the base pairs with
the label, and no base placeholder has it. -/
def Free (base : List Pair) (l : Text) (n : ℕ) : Prop :=
  0 < n ∧ (∀ e ∈ base, ∀ x ∈ labelDigits e.2, x.1 = l → numeral x.2 < n) ∧
    label l (index03d n) ∉ base.map Prod.snd

instance (base : List Pair) (l : Text) : DecidablePred (Free base l) := fun _ =>
  inferInstanceAs (Decidable (_ ∧ _ ∧ _))

/-- The findings that bring a new text, in the order of the loop. -/
def newcomers : List Text → List Finding → List Finding
  | _, [] => []
  | seen, f :: findings =>
      if f.text ∈ seen then newcomers seen findings
      else f :: newcomers (seen ++ [f.text]) findings

/-- The interpreter converts every number of the merge: those of the base placeholders, and for
each label as many free ones as there are new texts. -/
structure Convertible (base : List Pair) (found : List Finding) : Prop where
  base_digits : ∀ e ∈ base, ∀ x ∈ labelDigits e.2, x.2.length ≤ maxStrDigits
  room : ∀ l, (newcomers (base.map Prod.fst) (found.insertionSort findingLe)).countP
    (fun f => f.label = l) ≤ Nat.count (Free base l) (10 ^ maxStrDigits)

theorem label_index_inj {l l' : Text} {n n' : ℕ}
    (h : label l (index03d n) = label l' (index03d n')) : l' = l ∧ n' = n := by
  obtain ⟨-, hindex, hlabel⟩ :=
    label_split_unique (RequestPlaceholderAllocator.index03d_isDecimal n)
      (RequestPlaceholderAllocator.index03d_isDecimal n') (.inl rfl) h
  exact ⟨hlabel, RequestPlaceholderAllocator.index03d_injective hindex⟩

/-! ### Seeding -/

theorem unsignedInt_labelDigits {p : Text} {x : Text × Text} (h : labelDigits p = some x) :
    unsignedInt x.2 = if x.2.length ≤ maxStrDigits then some (numeral x.2) else none := by
  obtain ⟨-, -, -, hne, hdigits⟩ := labelGroups_sound h
  exact unsignedInt_eq hne hdigits

/-- One base pair is read, if its number is not too long, and raises the maximum of its label. -/
theorem seed_eq (d : Dict Text ℕ) (e : Pair) :
    ((∃ d', seed d e = .ok d') ↔ ∀ x ∈ labelDigits e.2, x.2.length ≤ maxStrDigits) ∧
      ∀ d', seed d e = .ok d' → ∀ l n, (d'.get? l).getD 0 < n ↔
        (d.get? l).getD 0 < n ∧ ∀ x ∈ labelDigits e.2, x.1 = l → numeral x.2 < n := by
  unfold seed
  cases hx : labelDigits e.2 with
  | none => simp
  | some x =>
    obtain ⟨k, digits⟩ := x
    have hread := unsignedInt_labelDigits hx
    simp only at hread ⊢
    by_cases hlen : digits.length ≤ maxStrDigits
    · simp only [hread, if_pos hlen]
      refine ⟨by simp [hlen], ?_⟩
      rintro _ ⟨⟩ l n
      simp only [Option.mem_def, Option.some.injEq, forall_eq']
      split
      · next hlt =>
        rw [Dict.get?_insert]
        by_cases hl : k = l
        · subst hl
          simp only [beq_self_eq_true, if_true, Option.getD_some, forall_const]
          omega
        · simp [hl, Ne.symm hl]
      · next hge =>
        refine ⟨fun h => ⟨h, ?_⟩, And.left⟩
        rintro rfl
        omega
    · simp [hread, hlen]

/-- All base pairs. -/
theorem seeds_eq (pairs : List Pair) (d : Dict Text ℕ) :
    ((∃ d', pairs.foldlM seed d = .ok d') ↔
        ∀ e ∈ pairs, ∀ x ∈ labelDigits e.2, x.2.length ≤ maxStrDigits) ∧
      ∀ d', pairs.foldlM seed d = .ok d' → ∀ l n, (d'.get? l).getD 0 < n ↔
        (d.get? l).getD 0 < n ∧ ∀ e ∈ pairs, ∀ x ∈ labelDigits e.2, x.1 = l → numeral x.2 < n := by
  induction pairs generalizing d with
  | nil =>
    refine ⟨by simp [pure, Except.pure], ?_⟩
    rintro _ ⟨⟩ l n
    simp
  | cons e pairs ih =>
    obtain ⟨hreads, hmax⟩ := seed_eq d e
    rw [List.forall_mem_cons, ← hreads, List.foldlM_cons]
    constructor
    · constructor
      · rintro ⟨d', h⟩
        obtain ⟨d₁, h₁, hrest⟩ := bind_eq_ok h
        exact ⟨⟨d₁, h₁⟩, (ih d₁).1.mp ⟨d', hrest⟩⟩
      · rintro ⟨⟨d₁, h₁⟩, hrest⟩
        rw [h₁]
        exact (ih d₁).1.mpr hrest
    · intro d' h l n
      obtain ⟨d₁, h₁, hrest⟩ := bind_eq_ok h
      rw [(ih d₁).2 d' hrest, hmax d₁ h₁, List.forall_mem_cons, and_assoc]

/-! ### Numbering -/

/-- What the loop knows of numbers: beyond the largest one of a label, the free ones are those
that no placeholder has. -/
structure State.Numbered (base : List Pair) (s : State) : Prop where
  free_iff : ∀ l n, s.max l < n →
    (Free base l n ↔ label l (index03d n) ∉ s.usedPlaceholders)
  short : ∀ l, s.max l < 10 ^ maxStrDigits

theorem State.init_numbered {base : List Pair} {labelMax : Dict Text ℕ}
    (h : base.foldlM seed .empty = .ok labelMax) :
    (State.init base labelMax).Numbered base ∧
      ∀ l, Nat.count (Free base l) ((State.init base labelMax).max l + 1) = 0 := by
  obtain ⟨hreads, hmax⟩ := seeds_eq base .empty
  have hdigits := hreads.mp ⟨labelMax, h⟩
  have hlt : ∀ l n, (State.init base labelMax).max l < n ↔
      0 < n ∧ ∀ e ∈ base, ∀ x ∈ labelDigits e.2, x.1 = l → numeral x.2 < n := fun l n => by
    simpa [State.max, State.init] using hmax labelMax h l n
  refine ⟨⟨?_, ?_⟩, ?_⟩
  · intro l n hn
    obtain ⟨hpos, hbase⟩ := (hlt l n).mp hn
    exact ⟨fun hfree => hfree.2.2, fun hnot => ⟨hpos, hbase, hnot⟩⟩
  · intro l
    refine (hlt l _).mpr ⟨by positivity, ?_⟩
    intro e he x hx _
    exact (numeral_lt x.2).trans_le (Nat.pow_le_pow_right (by decide) (hdigits e he x hx))
  · intro l
    refine Nat.count_of_forall_not fun n hn hfree => ?_
    exact absurd ((hlt l n).mpr ⟨hfree.1, hfree.2.1⟩) (by omega)

/-- The number found is the next free one. -/
theorem State.Numbered.count_freeNumber {base : List Pair} {s : State} (h : s.Numbered base)
    (l : Text) :
    Nat.count (Free base l) (s.freeNumber l) = Nat.count (Free base l) (s.max l + 1) ∧
      Free base l (s.freeNumber l) := by
  obtain ⟨hle, hfree, hbefore⟩ := freeNumber_spec s l
  refine ⟨?_, (h.free_iff l _ hle).mpr hfree⟩
  obtain ⟨k, hk⟩ := Nat.exists_eq_add_of_le hle
  have hnone : Nat.count (fun i => Free base l (s.max l + 1 + i)) k = 0 :=
    Nat.count_of_forall_not fun i hi hfree' =>
      (h.free_iff l _ (by omega)).mp hfree' (hbefore _ (by omega) (by omega))
  rw [hk, Nat.count_add, hnone, Nat.add_zero]

theorem State.max_add (s : State) (f : Finding) (n : ℕ) (l : Text) :
    (s.add f n).max l = if l = f.label then n else s.max l := by
  simp only [State.max, State.add, Dict.get?_insert, beq_iff_eq]
  split <;> rfl

theorem State.Numbered.add {base : List Pair} {s : State} (h : s.Numbered base) (f : Finding)
    (hshort : ShortInt (s.freeNumber f.label)) :
    (s.add f (s.freeNumber f.label)).Numbered base := by
  have hle := (freeNumber_spec s f.label).1
  constructor
  · intro l n hn
    rw [State.max_add] at hn
    have hmax : s.max l < n ∧ ¬(f.label = l ∧ s.freeNumber f.label = n) := by
      split at hn
      · next hl =>
        subst hl
        omega
      · next hl => exact ⟨hn, fun hsame => hl hsame.1.symm⟩
    rw [h.free_iff l n hmax.1]
    simp only [State.add, List.mem_append, List.mem_singleton, not_or, iff_self_and]
    exact fun _ heq => hmax.2 (label_index_inj heq)
  · intro l
    rw [State.max_add]
    split
    · simpa [shortInt_iff] using hshort
    · exact h.short l

/-- The loop returns if every label has room for its newcomers. -/
theorem State.Numbered.returns_iff {base : List Pair} {findings : List Finding} {s : State}
    (h : s.Numbered base) :
    (∃ s', findings.foldlM State.step s = .ok s') ↔
      ∀ l, Nat.count (Free base l) (s.max l + 1) +
          (newcomers s.seenOriginals findings).countP (fun f => f.label = l) ≤
        Nat.count (Free base l) (10 ^ maxStrDigits) := by
  induction findings generalizing s with
  | nil =>
    refine iff_of_true ⟨s, rfl⟩ fun l => ?_
    exact Nat.count_monotone _ (Nat.succ_le_of_lt (h.short l))
  | cons f findings ih =>
    rw [List.foldlM_cons, State.step, newcomers]
    split
    · exact ih h
    · obtain ⟨hcount, hfree⟩ := h.count_freeNumber f.label
      simp only
      split
      · next hshort =>
        -- the number is given out: one free number and one newcomer less
        refine (ih (h.add f hshort)).trans (forall_congr' fun l => ?_)
        rw [State.max_add, List.countP_cons]
        by_cases hl : l = f.label
        · subst hl
          simp only [if_true, Nat.count_succ, hcount, if_pos hfree, decide_true]
          rw [show (s.add f _).seenOriginals = s.seenOriginals ++ [f.text] from rfl]
          omega
        · simp only [hl, Ne.symm hl, if_false, decide_false]
          rfl
      · next hlong =>
        refine iff_of_false (by rintro ⟨_, ⟨⟩⟩) fun hroom => ?_
        have hbound : 10 ^ maxStrDigits ≤ s.freeNumber f.label := by
          rw [shortInt_iff] at hlong
          simpa using hlong
        have hall := hroom f.label
        rw [← hcount, List.countP_cons_of_pos (by simp)] at hall
        have hmono := Nat.count_monotone (Free base f.label) hbound
        omega

end Merge

/-- **Which merges return**: those whose numbers can be read and written. -/
theorem mergeLocal_returns_iff (base : List Pair) (found : List Finding) :
    (∃ out, mergeLocal base found = .ok out) ↔ Merge.Convertible base found := by
  have hseeds := (Merge.seeds_eq base .empty).1
  constructor
  · rintro ⟨out, h⟩
    obtain ⟨labelMax, s, hseed, hrun, -⟩ := mergeLocal_eq_ok h
    obtain ⟨hnumbered, hnone⟩ := Merge.State.init_numbered hseed
    refine ⟨hseeds.mp ⟨labelMax, hseed⟩, fun l => ?_⟩
    have hroom := hnumbered.returns_iff.mp ⟨s, hrun⟩ l
    rwa [hnone, Nat.zero_add] at hroom
  · intro h
    obtain ⟨labelMax, hseed⟩ := hseeds.mpr h.base_digits
    obtain ⟨hnumbered, hnone⟩ := Merge.State.init_numbered hseed
    obtain ⟨s, hrun⟩ := hnumbered.returns_iff.mpr fun l => by
      rw [hnone, Nat.zero_add]
      exact h.room l
    exact ⟨_, by rw [mergeLocal, hseed]; simp only [bind, Except.bind, hrun]; rfl⟩

namespace Merge

/-! ## What is added -/

/-- The first finding of a text in the order of the loop. -/
def introduces (findings : List Finding) (o : Text) : Option Finding :=
  findings.find? fun f => f.text == o

/-- A new pair carries the label of the first finding of its text. -/
theorem State.labelled_run {findings : List Finding} {s s' : State}
    (hrun : findings.foldlM State.step s = .ok s') :
    ∀ e ∈ s'.newPairs, e ∈ s.newPairs ∨
      e.1 ∉ s.seenOriginals ∧
        ∃ f, introduces findings e.1 = some f ∧ ∃ n, e.2 = label f.label (index03d n) := by
  induction findings generalizing s with
  | nil =>
    cases hrun
    exact fun e he => Or.inl he
  | cons f findings ih =>
    intro e he
    obtain ⟨t, hstep, hrest⟩ := bind_eq_ok hrun
    have hskip : ∀ g, e.1 ≠ f.text → introduces findings e.1 = some g →
        introduces (f :: findings) e.1 = some g := fun g hne hg => by
      rwa [introduces, List.find?_cons_of_neg (by simpa using Ne.symm hne)]
    obtain ⟨hseen, rfl⟩ | ⟨hnew, -, rfl⟩ := State.step_cases hstep
    · rcases ih hrest e he with hold | ⟨hfresh, g, hg, hlabel⟩
      · exact Or.inl hold
      · exact Or.inr ⟨hfresh, g, hskip g (fun heq => hfresh (heq ▸ hseen)) hg, hlabel⟩
    · rcases ih hrest e he with hold | ⟨hfresh, g, hg, hlabel⟩
      · -- the pair was there, or this step added it
        rcases List.mem_append.mp hold with hold | hadd
        · exact Or.inl hold
        · rw [List.mem_singleton.mp hadd]
          exact Or.inr ⟨hnew, f, by simp [introduces], _, rfl⟩
      · have hfresh' : e.1 ∉ s.seenOriginals ++ [f.text] := hfresh
        simp only [List.mem_append, List.mem_singleton, not_or] at hfresh'
        exact Or.inr ⟨hfresh'.1, g, hskip g hfresh'.2 hg, hlabel⟩

end Merge

/-- **Merging keeps the mapping a bijection**, exactly if it can convert its numbers: the base
pairs stay in front, the new originals are the texts found that the base does not have, each
once, and every new placeholder is new, carries the label of the first finding of its text, and
comes from a search that stops. -/
theorem mergeLocal_bijection_iff (base : List Pair) (found : List Finding) :
    ((∃ new, mergeLocal base found = .ok (base ++ new) ∧
      (new.map Prod.fst).Nodup ∧
      (∀ o, o ∈ new.map Prod.fst ↔ (∃ f ∈ found, f.text = o) ∧ o ∉ base.map Prod.fst) ∧
      (new.map Prod.snd).Nodup ∧ (∀ p ∈ new.map Prod.snd, p ∉ base.map Prod.snd) ∧
      ∀ e ∈ new, ∃ f, Merge.introduces (found.insertionSort Merge.findingLe) e.1 = some f ∧
        ∃ n, e.2 = label f.label (index03d n)) ↔ Merge.Convertible base found) ∧
    ∀ (s : Merge.State) (l : Text), s.max l + 1 ≤ s.freeNumber l ∧
      label l (index03d (s.freeNumber l)) ∉ s.usedPlaceholders ∧
      ∀ n, s.max l + 1 ≤ n → n < s.freeNumber l →
        label l (index03d n) ∈ s.usedPlaceholders := by
  refine ⟨⟨?_, fun h => ?_⟩, Merge.freeNumber_spec⟩
  · rintro ⟨new, h, -⟩
    exact (mergeLocal_returns_iff base found).mp ⟨_, h⟩
  obtain ⟨out, hout⟩ := (mergeLocal_returns_iff base found).mpr h
  obtain ⟨labelMax, s, -, hrun, rfl⟩ := mergeLocal_eq_ok hout
  obtain ⟨hok, hseen⟩ := (Merge.State.init_ok base labelMax).run hrun
  refine ⟨_, hout, hok.originals.1, ?_, hok.placeholders.1, hok.placeholders.2, ?_⟩
  · intro o
    have hmem := hseen o
    rw [hok.seen_eq, List.map_append, List.mem_append] at hmem
    have hfound : (∃ f ∈ found.insertionSort Merge.findingLe, f.text = o) ↔
        ∃ f ∈ found, f.text = o := by
      simp only [List.mem_insertionSort]
    rw [hfound] at hmem
    constructor
    · intro ho
      have hnew := hok.originals.2 o ho
      exact ⟨(hmem.mp (Or.inr ho)).resolve_left hnew, hnew⟩
    · rintro ⟨ho, hnew⟩
      exact (hmem.mpr (Or.inr ho)).resolve_left hnew
  · intro e he
    rcases Merge.State.labelled_run hrun e he with hold | ⟨-, hlabel⟩
    · exact absurd hold List.not_mem_nil
    · exact hlabel

/-- A base placeholder whose number is too long ends the merge. -/
theorem mergeLocal_raises {digits : Text} (hdigits : ∀ d ∈ digits, Unicode.isDecimal d = true)
    (hlong : maxStrDigits < digits.length) (x : Text) (found : List Finding) :
    mergeLocal [(x, label "A".toList digits)] found = .error (.reading digits.length) := by
  have hne : digits ≠ [] := by
    rintro rfl
    simp at hlong
  have hgroups : Merge.labelDigits (label "A".toList digits) = some ("A".toList, digits) :=
    labelGroups_label (List.all_eq_true.mp rfl) (by simp) hne hdigits
  have hread : unsignedInt digits = none := by
    rw [unsignedInt_eq hne hdigits, if_neg (Nat.not_le.mpr hlong)]
  have hseed : Merge.seed .empty (x, label "A".toList digits) =
      .error (.reading digits.length) := by
    simp only [Merge.seed, hgroups, hread]
  simp only [mergeLocal, List.foldlM_cons, hseed]
  rfl

/-- A number of 4301 digits, and nothing found. -/
theorem mergeLocal_raises_digits :
    mergeLocal [("x".toList, label "A".toList (List.replicate 4301 '1'))] [] =
      .error (.reading 4301) := by
  have hdigits : ∀ d ∈ List.replicate 4301 '1', Unicode.isDecimal d = true := by
    intro d hd
    rw [List.eq_of_mem_replicate hd]
    decide
  have hlen : (List.replicate 4301 '1').length = 4301 := List.length_replicate
  have hlong : maxStrDigits < (List.replicate 4301 '1').length := by
    rw [hlen]
    norm_num [maxStrDigits]
  have hraises := mergeLocal_raises hdigits hlong "x".toList []
  rwa [hlen] at hraises

end CorpLlmGateway.Sanitizer
