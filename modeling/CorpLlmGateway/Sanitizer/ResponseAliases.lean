import CorpLlmGateway.Sanitizer.Placeholder

/-!
# Bare response aliases

A model may strip the brackets of a placeholder when it puts it into an identifier or
a file name. The model of `find_unwrapped_placeholder_literals` and
`add_unwrapped_response_aliases` of `sanitizer/placeholder.py`, which add the bare
name as an alias unless the request already had it.

The scan of the request and the reverse substituter do not bound a name in the same
way: the scan asks for Unicode word boundaries and for no bracket next to the name,
the substituter for neighbours that are no ASCII identifier characters.

* `mem_findUnwrappedPlaceholderLiterals` — the scan finds exactly the names that stand
  in the text as whole words outside brackets;
* `mem_addUnwrappedResponseAliases` — which aliases are added;
* `aliases_spare_text_iff` — when no alias rewrites the request text.
-/

namespace CorpLlmGateway.Sanitizer

open TextScan Regex

/-! ## The model -/

/-- `[A-Z][A-Z0-9_]*_[A-Z0-9_]+`. -/
def bareNameRe : Pat :=
  .seqs [.chr Char.isUpper, .star (.chr isFamilyChar), .lit '_', .plus (.chr isFamilyChar)]

/-- `_UNWRAPPED_PLACEHOLDER_FIND_RE`: `(?<!\[)\b[A-Z][A-Z0-9_]*_[A-Z0-9_]+\b(?!\])`. -/
def unwrappedPlaceholderFindRe : Pat :=
  .seqs [.notBehind (· == '['), .wordBoundary, bareNameRe, .wordBoundary, .notAhead (· == ']')]

/-- `_RESPONSE_ALIAS_RE`: `^\[(?P<alias>[A-Z][A-Z0-9_]*_[A-Z0-9_]+)\]$`. -/
def responseAliasRe : Pat :=
  .seqs [.bos, .lit '[', .group 1 bareNameRe, .lit ']', .eos]

/-- `find_unwrapped_placeholder_literals(text)`. -/
def findUnwrappedPlaceholderLiterals (text : Text) : List Text :=
  (finditer (matcher unwrappedPlaceholderFindRe) text).map fun h => slice text h.start h.stop

/-- The group `alias` of `_RESPONSE_ALIAS_RE.fullmatch(placeholder)`. -/
def responseAlias (placeholder : Text) : Option Text :=
  match fullMatch responseAliasRe placeholder with
  | some (_, caps) => (caps.lookup 1).map fun r => slice placeholder r.1 r.2
  | none => none

/-- One round of the loop of `add_unwrapped_response_aliases`. -/
def addAlias (blocked : List Text) (acc : List Pair × Dict Text Text) (pair : Pair) :
    List Pair × Dict Text Text :=
  match responseAlias pair.2 with
  | none => acc
  | some name =>
      if name = pair.1 ∨ name ∈ blocked ∨ (acc.2.get? name).isSome then acc
      else (acc.1 ++ [(pair.1, name)], acc.2.insert name pair.1)

/-- `add_unwrapped_response_aliases(pairs, forbidden=forbidden)`. -/
def addUnwrappedResponseAliases (pairs : List Pair) (forbidden : List Text) : List Pair :=
  let claimed := pairs.foldl (fun d pair => d.insert pair.2 pair.1) Dict.empty
  (pairs.foldl (addAlias forbidden) (pairs, claimed)).1

/-! ## Names in a text -/

/-- A name that the bare pattern matches as a whole. -/
def IsBareName (w : Text) : Prop :=
  ∃ c u v, w = c :: (u ++ '_' :: v) ∧ c.isUpper = true ∧ (∀ d ∈ u, isFamilyChar d = true) ∧
    (∀ d ∈ v, isFamilyChar d = true) ∧ v ≠ []

/-- `w` stands at `i`: no character of `before` comes right before it, and none of
`after` right after it. -/
structure StandsAt (before after : Char → Bool) (w text : Text) (i : ℕ) : Prop where
  here : w <+: text.drop i
  left : (prevAt text i).any before = false
  right : (text.drop (i + w.length)).head?.any after = false

/-- The boundary rule of the reverse substituter. -/
abbrev StandsBare (w text : Text) (i : ℕ) : Prop := StandsAt isIdentChar isIdentChar w text i

/-- The boundary rule of the request scan: a whole word, outside brackets. -/
abbrev StandsUnwrapped (w text : Text) (i : ℕ) : Prop :=
  StandsAt (fun c => Unicode.isWord c || c == '[') (fun c => Unicode.isWord c || c == ']') w text i

theorem isWord_of_isFamilyChar {c : Char} (h : isFamilyChar c = true) :
    Unicode.isWord c = true := by
  simp only [isFamilyChar, Bool.or_eq_true, beq_iff_eq] at h
  rcases h with (h | h) | rfl
  · have hlt : c.toNat < 128 := by
      simp only [Char.isUpper, decide_eq_true_eq] at h
      have h90 : c.toNat ≤ 90 := h.2
      omega
    simp [Unicode.isWord, Unicode.isAlnum, hlt, Char.isAlphanum, Char.isAlpha, h]
  · have hlt : c.toNat < 128 := by
      simp only [Char.isDigit, Bool.and_eq_true, decide_eq_true_eq] at h
      have h57 : c.toNat ≤ 57 := h.2
      omega
    simp [Unicode.isWord, Unicode.isAlnum, hlt, Char.isAlphanum, h]
  · decide

theorem IsBareName.isFamilyChar {w : Text} (h : IsBareName w) : ∀ d ∈ w, isFamilyChar d = true := by
  obtain ⟨c, u, v, rfl, hc, hu, hv, -⟩ := h
  intro d hd
  rcases List.mem_cons.mp hd with rfl | hd
  · simp [Sanitizer.isFamilyChar, hc]
  · rcases List.mem_append.mp hd with hd | hd
    · exact hu d hd
    · rcases List.mem_cons.mp hd with rfl | hd
      · decide
      · exact hv d hd

theorem IsBareName.isWord {w : Text} (h : IsBareName w) {d : Char} (hd : d ∈ w) :
    Unicode.isWord d = true :=
  isWord_of_isFamilyChar (h.isFamilyChar d hd)

theorem IsBareName.ne_nil {w : Text} (h : IsBareName w) : w ≠ [] := by
  obtain ⟨c, u, v, rfl, -⟩ := h
  simp

/-! ## The request scan -/

theorem mem_run_bareNameRe {s t : St} :
    t ∈ run bareNameRe s ↔
      ∃ w rest, IsBareName w ∧ s.rest = w ++ rest ∧ t = s.advance w rest := by
  simp only [bareNameRe, Pat.seqs, Pat.star, Pat.plus, mem_run_seq, mem_run_lit]
  constructor
  · rintro ⟨_, h₁, _, h₂, _, ⟨r₃, h₃, rfl⟩, h₄⟩
    rcases mem_run_chr.mp h₁ with ⟨c, r₁, hr₁, hc, rfl⟩
    rcases mem_run_rep_chr.mp h₂ with ⟨u, r₂, hr₂, hu, _, _, rfl⟩
    rcases mem_run_rep_chr.mp h₄ with ⟨v, r₄, hr₄, hv, hlen, _, rfl⟩
    simp only [St.advance] at hr₁ hr₂ h₃ hr₄
    refine ⟨c :: (u ++ '_' :: v), r₄, ⟨c, u, v, rfl, hc, hu, hv, ?_⟩, ?_, ?_⟩
    · rintro rfl
      simp at hlen
    · simp [hr₁, hr₂, h₃, hr₄]
    · simp [St.advance_advance]
  · rintro ⟨w, rest, ⟨c, u, v, rfl, hc, hu, hv, hne⟩, hs, rfl⟩
    have hlen : 1 ≤ v.length := List.length_pos_of_ne_nil hne
    refine ⟨_, mem_run_chr.mpr ⟨c, _, by simpa using hs, hc, rfl⟩, _,
      mem_run_rep_chr.mpr ⟨u, _, rfl, hu, by simp, by simp, rfl⟩, _, ⟨_, rfl, rfl⟩,
      mem_run_rep_chr.mpr ⟨v, _, rfl, hv, hlen, by simp, ?_⟩⟩
    simp [St.advance_advance]

theorem IsBareName.isWord_head {w rest : Text} (h : IsBareName w) {s : St} (hs : s.rest = w ++ rest) :
    s.rest.head?.any Unicode.isWord = true := by
  obtain ⟨d, w', rfl⟩ := List.exists_cons_of_ne_nil h.ne_nil
  rw [hs]
  exact h.isWord List.mem_cons_self

theorem IsBareName.isWord_prev {w rest : Text} (h : IsBareName w) {s : St} :
    (s.advance w rest).prev.any Unicode.isWord = true := by
  simpa [St.advance, List.getLast?_eq_some_getLast h.ne_nil] using h.isWord (List.getLast_mem h.ne_nil)

/-- Whether a boundary falls before a name depends on the previous character only, and
after a name on the next one only. -/
theorem mem_run_unwrappedPlaceholderFindRe {s t : St} :
    t ∈ run unwrappedPlaceholderFindRe s ↔
      ∃ w rest, IsBareName w ∧ s.rest = w ++ rest ∧ t = s.advance w rest ∧
        (s.prev.any fun c => Unicode.isWord c || c == '[') = false ∧
        (rest.head?.any fun c => Unicode.isWord c || c == ']') = false := by
  have hany : ∀ (o : Option Char) (b : Char), (o.any fun c => Unicode.isWord c || c == b) = false ↔
      (o.any fun c => c == b) = false ∧ o.any Unicode.isWord = false := by
    intro o b
    cases o <;> simp [and_comm]
  simp only [unwrappedPlaceholderFindRe, Pat.seqs, Pat.notBehind, Pat.notAhead, Pat.wordBoundary,
    mem_run_seq, mem_run_look, mem_run_bareNameRe, hany, Bool.not_eq_true', bne_iff_ne]
  constructor
  · rintro ⟨_, ⟨hbehind, rfl⟩, x, ⟨hleft, rfl⟩, _, ⟨w, rest, hw, hs, rfl⟩, _, ⟨hright, rfl⟩,
      hahead, rfl⟩
    rw [hw.isWord_head hs] at hleft
    rw [hw.isWord_prev] at hright
    exact ⟨w, rest, hw, hs, rfl, ⟨hbehind, by simpa using hleft⟩, hahead,
      Bool.eq_false_iff.mpr fun h => hright h.symm⟩
  · rintro ⟨w, rest, hw, hs, rfl, ⟨hbehind, hleft⟩, hahead, hright⟩
    refine ⟨s, ⟨hbehind, rfl⟩, s, ⟨?_, rfl⟩, s.advance w rest, ⟨w, rest, hw, hs, rfl⟩,
      s.advance w rest, ⟨?_, rfl⟩, hahead, rfl⟩
    · rw [hleft, hw.isWord_head hs]
      simp
    · rw [hw.isWord_prev]
      simpa [St.advance] using hright

/-- A name that stands at a position is determined by it: its end is a boundary. -/
theorem StandsAt.unique {w w' text : Text} {i : ℕ} (hw : IsBareName w) (hw' : IsBareName w')
    (h : StandsUnwrapped w text i) (h' : StandsUnwrapped w' text i) : w = w' := by
  have hle : ∀ {a b : Text}, IsBareName b → StandsUnwrapped a text i → b <+: text.drop i →
      b.length ≤ a.length := by
    intro a b hb ha hpre
    by_contra hlt
    obtain ⟨rest, hrest⟩ := hpre
    have hget : (text.drop (i + a.length)).head? = some (b.get ⟨a.length, by omega⟩) := by
      rw [← List.drop_drop, ← hrest, List.head?_drop, List.getElem?_append_left (by omega)]
      simp
    have hright := ha.right
    rw [hget] at hright
    simp only [Option.any_some, Bool.or_eq_false_iff] at hright
    exact absurd (hb.isWord (List.get_mem _ _)) (by rw [hright.1]; simp)
  have hlen : w.length = w'.length :=
    le_antisymm (hle hw h' h.here) (hle hw' h h'.here)
  exact (List.prefix_of_prefix_length_le h.here h'.here hlen.le).eq_of_length hlen

theorem findUnwrappedRe_at_iff {text : Text} {i n : ℕ} {v : List (ℕ × ℕ × ℕ)} :
    (matcher unwrappedPlaceholderFindRe).at text i = some (n, v) ↔
      v = [] ∧ ∃ w, IsBareName w ∧ StandsUnwrapped w text i ∧ n = w.length := by
  have hrun : ∀ t, t ∈ run unwrappedPlaceholderFindRe (start (prevAt text i) (text.drop i)) ↔
      ∃ w, IsBareName w ∧ StandsUnwrapped w text i ∧
        t = (start (prevAt text i) (text.drop i)).advance w (text.drop (i + w.length)) := by
    intro t
    rw [mem_run_unwrappedPlaceholderFindRe]
    constructor
    · rintro ⟨w, rest, hw, hs, rfl, hleft, hright⟩
      have hrest : rest = text.drop (i + w.length) := by
        rw [← List.drop_drop, show text.drop i = w ++ rest from hs, List.drop_left]
      rw [hrest] at hright
      exact ⟨w, hw, ⟨⟨rest, hs.symm⟩, hleft, hright⟩, by rw [hrest]⟩
    · rintro ⟨w, hw, h, rfl⟩
      obtain ⟨rest, hrest⟩ := h.here
      have hdrop : text.drop (i + w.length) = rest := by
        rw [← List.drop_drop, ← hrest, List.drop_left]
      exact ⟨w, text.drop (i + w.length), hw, by rw [hdrop]; exact hrest.symm, rfl, h.left, h.right⟩
  constructor
  · intro h
    rcases exists_of_matcher h with ⟨t, ht, hn, hv⟩
    obtain ⟨w, hw, hstands, rfl⟩ := (hrun t).mp ht
    refine ⟨by simpa [St.advance, start] using hv.symm, w, hw, hstands, ?_⟩
    simpa [St.advance, start] using hn.symm
  · rintro ⟨rfl, w, hw, hstands, rfl⟩
    refine matcher_eq_some ⟨_, (hrun _).mpr ⟨w, hw, hstands, rfl⟩⟩ fun t ht => ?_
    obtain ⟨w', hw', hstands', rfl⟩ := (hrun t).mp ht
    rw [StandsAt.unique hw' hw hstands' hstands]
    simp [St.advance, start]

/-- The scan finds exactly the names that stand in the text as whole words outside
brackets: a match that begins earlier would have a word character before the name. -/
theorem mem_findUnwrappedPlaceholderLiterals {text w : Text} :
    w ∈ findUnwrappedPlaceholderLiterals text ↔ IsBareName w ∧ ∃ i, StandsUnwrapped w text i := by
  unfold findUnwrappedPlaceholderLiterals
  rw [List.mem_map]
  constructor
  · rintro ⟨h, hh, rfl⟩
    rcases mem_finditer hh with ⟨_, hle, hat⟩
    obtain ⟨-, w, hw, hstands, hlen⟩ := findUnwrappedRe_at_iff.mp hat
    have hstop : h.stop = h.start + w.length := by omega
    rw [hstop, slice_eq_of_prefix_drop hstands.here]
    exact ⟨hw, h.start, hstands⟩
  · rintro ⟨hw, i, hstands⟩
    have hi : i ≤ text.length := by
      by_contra hlt
      have hpre := hstands.here
      rw [List.drop_eq_nil_of_le (by omega)] at hpre
      exact hw.ne_nil (List.prefix_nil.mp hpre)
    have hat := findUnwrappedRe_at_iff.mpr ⟨rfl, w, hw, hstands, rfl⟩
    rcases finditer_complete hi hat with ⟨h, hh, rfl | ⟨hlt, hin⟩⟩
    · refine ⟨h, hh, ?_⟩
      rw [hit_eq_of_at hh hat]
      exact slice_eq_of_prefix_drop hstands.here
    · exfalso
      rcases mem_finditer hh with ⟨_, hle, hat'⟩
      obtain ⟨-, w', hw', hstands', hlen⟩ := findUnwrappedRe_at_iff.mp hat'
      obtain ⟨rest, hrest⟩ := hstands'.here
      have hget : prevAt text i = some (w'.get ⟨i - 1 - h.start, by omega⟩) := by
        have hbound : i - 1 < text.length := by omega
        have hidx : text[i - 1]? = (text.drop h.start)[i - 1 - h.start]? := by
          rw [List.getElem?_drop]
          congr 1
          omega
        rw [prevAt, List.getLast?_take, hidx, ← hrest, List.getElem?_append_left (by omega)]
        rw [if_neg (by omega)]
        simp
      have hleft := hstands.left
      rw [hget] at hleft
      simp only [Option.any_some, Bool.or_eq_false_iff] at hleft
      exact absurd (hw'.isWord (List.get_mem _ _)) (by rw [hleft.1]; simp)

/-! ## The aliases that are added -/

/-- A name in its brackets. -/
def bracketed (name : Text) : Text := '[' :: (name ++ [']'])

@[simp] theorem length_bracketed (name : Text) : (bracketed name).length = name.length + 2 := by
  simp [bracketed]

@[simp] theorem getLast?_bracketed (name : Text) : (bracketed name).getLast? = some ']' := by
  rw [bracketed, ← List.cons_append, List.getLast?_concat]

theorem bracketed_inj {name name' : Text} : bracketed name = bracketed name' ↔ name = name' := by
  simp [bracketed]

theorem mem_run_responseAliasRe {placeholder : Text} {t : St}
    (hrest : t.rest = []) : t ∈ run responseAliasRe (start none placeholder) ↔
      ∃ name, IsBareName name ∧ placeholder = bracketed name ∧
        t = { (start none placeholder).advance placeholder [] with
          caps := [(1, 1, 1 + name.length)] } := by
  simp only [responseAliasRe, Pat.seqs, Pat.bos, Pat.eos, mem_run_seq, mem_run_look, mem_run_lit,
    mem_run_group, mem_run_bareNameRe]
  constructor
  · rintro ⟨_, ⟨_, rfl⟩, _, ⟨r₁, h₁, rfl⟩, _, ⟨_, ⟨name, r₂, hname, h₂, rfl⟩, rfl⟩, _,
      ⟨r₃, h₃, rfl⟩, _, rfl⟩
    simp only [St.advance, start] at h₁ h₂ h₃ hrest
    subst hrest
    have hplaceholder : placeholder = bracketed name := by simp [bracketed, h₁, h₂, h₃]
    refine ⟨name, hname, hplaceholder, ?_⟩
    rw [hplaceholder]
    simp only [St.advance, start, length_bracketed, getLast?_bracketed, St.mk.injEq]
    simp [Nat.add_comm, Nat.add_left_comm]
  · rintro ⟨name, hname, rfl, rfl⟩
    refine ⟨_, ⟨rfl, rfl⟩, _, ⟨name ++ [']'], rfl, rfl⟩, _, ⟨_, ⟨name, [']'], hname, rfl, rfl⟩, rfl⟩,
      _, ⟨[], rfl, rfl⟩, rfl, ?_⟩
    simp only [St.advance, start, length_bracketed, getLast?_bracketed, St.mk.injEq]
    simp [Nat.add_comm, Nat.add_left_comm]

/-- The alias of a placeholder is the name inside its brackets. -/
theorem responseAlias_eq_some {placeholder name : Text} :
    responseAlias placeholder = some name ↔ IsBareName name ∧ placeholder = bracketed name := by
  have hslice : ∀ w : Text, slice (bracketed w) 1 (1 + w.length) = w := by
    intro w
    simp [slice, bracketed]
  unfold responseAlias fullMatch
  cases hfind : (run responseAliasRe (start none placeholder)).find? fun t => t.rest.isEmpty with
  | none =>
    simp only [Option.map_none, reduceCtorEq, false_iff, not_and]
    rintro hname rfl
    exact absurd (List.find?_eq_none.mp hfind _
      ((mem_run_responseAliasRe rfl).mpr ⟨name, hname, rfl, rfl⟩)) (by simp [St.advance])
  | some t =>
    have hrest : t.rest = [] := by simpa using List.find?_some hfind
    obtain ⟨w, hw, rfl, rfl⟩ := (mem_run_responseAliasRe hrest).mp (List.mem_of_find?_eq_some hfind)
    simp only [Option.map_some, List.lookup_cons, beq_self_eq_true, hslice, Option.some.injEq,
      bracketed_inj]
    exact ⟨fun h => ⟨h ▸ hw, h⟩, fun h => h.2⟩

/-- Can the bare name of a pair become an alias? It must not be the original itself nor
a placeholder of the mapping. -/
def AliasCandidate (pairs : List Pair) (name : Text) : Prop :=
  IsBareName name ∧ (∃ original, (original, bracketed name) ∈ pairs ∧ name ≠ original) ∧
    name ∉ pairs.map Prod.snd

/-- The loop appends the free names of the pairs, each one once. -/
theorem foldl_addAlias (blocked : List Text) (l : List Pair) (acc : List Pair × Dict Text Text) :
    ∃ added, (l.foldl (addAlias blocked) acc).1 = acc.1 ++ added ∧
      ∀ name, name ∈ added.map Prod.snd ↔ acc.2.get? name = none ∧ name ∉ blocked ∧
        IsBareName name ∧ ∃ original, (original, bracketed name) ∈ l ∧ name ≠ original := by
  induction l generalizing acc with
  | nil => exact ⟨[], by simp, by simp⟩
  | cons pair l ih =>
    obtain ⟨original, placeholder⟩ := pair
    rw [List.foldl_cons]
    -- A skipped pair offers no free name.
    have hskip : (∀ name, IsBareName name → placeholder = bracketed name → name ≠ original →
        name ∉ blocked → acc.2.get? name ≠ none) → addAlias blocked acc (original, placeholder) = acc →
        ∃ added, (l.foldl (addAlias blocked) (addAlias blocked acc (original, placeholder))).1 =
            acc.1 ++ added ∧
          ∀ name, name ∈ added.map Prod.snd ↔ acc.2.get? name = none ∧ name ∉ blocked ∧
            IsBareName name ∧
              ∃ o, (o, bracketed name) ∈ (original, placeholder) :: l ∧ name ≠ o := by
      intro hnone hacc
      rw [hacc]
      obtain ⟨added, hadded, hmem⟩ := ih acc
      refine ⟨added, hadded, fun name => (hmem name).trans ?_⟩
      constructor
      · rintro ⟨hfree, hblocked, hname, o, ho, hne⟩
        exact ⟨hfree, hblocked, hname, o, List.mem_cons_of_mem _ ho, hne⟩
      · rintro ⟨hfree, hblocked, hname, o, ho, hne⟩
        rcases List.mem_cons.mp ho with heq | ho
        · obtain ⟨rfl, hplaceholder⟩ := Prod.mk.inj heq
          exact absurd hfree (hnone name hname hplaceholder.symm hne hblocked)
        · exact ⟨hfree, hblocked, hname, o, ho, hne⟩
    cases halias : responseAlias placeholder with
    | none =>
      refine hskip (fun name hname hplaceholder => ?_) (by simp [addAlias, halias])
      rw [responseAlias_eq_some.mpr ⟨hname, hplaceholder⟩] at halias
      exact absurd halias (by simp)
    | some bare =>
      obtain ⟨hbare, rfl⟩ := responseAlias_eq_some.mp halias
      by_cases hcond : bare = original ∨ bare ∈ blocked ∨ (acc.2.get? bare).isSome
      · refine hskip (fun name _ hname hne hblocked => ?_) (by simp [addAlias, halias, hcond])
        have hsame : bare = name := bracketed_inj.mp hname
        subst hsame
        rcases hcond with h | h | h
        · exact absurd h hne
        · exact absurd h hblocked
        · exact Option.isSome_iff_ne_none.mp h
      · have hacc : addAlias blocked acc (original, bracketed bare) =
            (acc.1 ++ [(original, bare)], acc.2.insert bare original) := by
          simp only [addAlias, halias, hcond, if_false]
        obtain ⟨hne, hblocked, hfree⟩ := by simpa only [not_or] using hcond
        rw [Option.not_isSome_iff_eq_none] at hfree
        rw [hacc]
        obtain ⟨added, hadded, hmem⟩ := ih (acc.1 ++ [(original, bare)], acc.2.insert bare original)
        refine ⟨(original, bare) :: added, by rw [hadded]; simp, fun name => ?_⟩
        rw [List.map_cons, List.mem_cons, hmem, Dict.get?_insert]
        by_cases hname : name = bare
        · subst hname
          simp only [true_or, true_iff]
          exact ⟨hfree, hblocked, hbare, original, List.mem_cons_self, hne⟩
        · simp only [hname, false_or, beq_iff_eq, if_false, List.mem_cons, Prod.mk.injEq]
          have hother : ¬∃ o, o = original ∧ bracketed name = bracketed bare := by
            rintro ⟨-, -, heq⟩
            exact hname (bracketed_inj.mp heq)
          constructor
          · rintro ⟨h₁, h₂, h₃, o, ho, h₄⟩
            exact ⟨h₁, h₂, h₃, o, Or.inr ho, h₄⟩
          · rintro ⟨h₁, h₂, h₃, o, ho | ho, h₄⟩
            · exact absurd ⟨o, ho⟩ hother
            · exact ⟨h₁, h₂, h₃, o, ho, h₄⟩

theorem get?_claimed (pairs : List Pair) (d : Dict Text Text) (name : Text) :
    (pairs.foldl (fun d pair => d.insert pair.2 pair.1) d).get? name = none ↔
      d.get? name = none ∧ name ∉ pairs.map Prod.snd := by
  induction pairs generalizing d with
  | nil => simp
  | cons pair pairs ih =>
    rw [List.foldl_cons, ih, Dict.get?_insert, List.map_cons, List.mem_cons]
    by_cases hname : name = pair.2
    · simp [hname]
    · simp [hname]

/-- Which aliases are added: the candidates that the request does not forbid. -/
theorem mem_addUnwrappedResponseAliases (pairs : List Pair) (forbidden : List Text) (name : Text) :
    name ∈ ((addUnwrappedResponseAliases pairs forbidden).drop pairs.length).map Prod.snd ↔
      AliasCandidate pairs name ∧ name ∉ forbidden := by
  obtain ⟨added, hadded, hmem⟩ := foldl_addAlias forbidden pairs
    (pairs, pairs.foldl (fun d pair => d.insert pair.2 pair.1) Dict.empty)
  have hdrop : (addUnwrappedResponseAliases pairs forbidden).drop pairs.length = added := by
    unfold addUnwrappedResponseAliases
    rw [hadded, List.drop_left]
  rw [hdrop, hmem, get?_claimed]
  simp only [Dict.get?_empty, true_and]
  unfold AliasCandidate
  tauto

/-! ## The request text under the aliases -/

theorem bareAlias_at_iff {name text : Text} {i : ℕ} :
    (bareAlias name).at text i = none ↔ ¬StandsBare name text i := by
  unfold Matcher.at bareAlias
  split
  · next h =>
    simp only [reduceCtorEq, false_iff, not_not]
    obtain ⟨hhere, hleft, hright⟩ := h
    exact ⟨hhere, hleft, by rwa [← List.drop_drop]⟩
  · next h =>
    simp only [true_iff]
    rintro ⟨hhere, hleft, hright⟩
    exact h ⟨hhere, hleft, by rwa [← List.drop_drop] at hright⟩

/-- No pattern match in the whole text. -/
theorem finditer_bareAlias_eq_nil {name text : Text} (hname : name ≠ []) :
    finditer (bareAlias name) text = [] ↔ ∀ i, ¬StandsBare name text i := by
  constructor
  · intro hnil i hstands
    have hi : i ≤ text.length := by
      by_contra hlt
      have hpre := hstands.here
      rw [List.drop_eq_nil_of_le (by omega)] at hpre
      exact hname (List.prefix_nil.mp hpre)
    cases hat : (bareAlias name).at text i with
    | none => exact bareAlias_at_iff.mp hat hstands
    | some r =>
      obtain ⟨h, hh, -⟩ := finditer_complete hi (show _ = some (r.1, r.2) from hat)
      rw [hnil] at hh
      exact absurd hh List.not_mem_nil
  · intro hnone
    exact finditer_eq_nil fun i _ => bareAlias_at_iff.mpr (hnone i)

/-- No added alias matches in the request text exactly if every candidate name that
stands in the text between characters that are no ASCII identifier characters also
stands in it as a whole word, with no bracket next to it. -/
theorem aliases_spare_text_iff (text : Text) (pairs : List Pair) :
    (∀ e ∈ (addUnwrappedResponseAliases pairs (findUnwrappedPlaceholderLiterals text)).drop
        pairs.length, finditer (bareAlias e.2) text = []) ↔
      ∀ name, AliasCandidate pairs name → (∃ i, StandsBare name text i) →
        ∃ i, StandsUnwrapped name text i := by
  have hadded : (∀ e ∈ (addUnwrappedResponseAliases pairs
      (findUnwrappedPlaceholderLiterals text)).drop pairs.length,
        finditer (bareAlias e.2) text = []) ↔
      ∀ name ∈ ((addUnwrappedResponseAliases pairs (findUnwrappedPlaceholderLiterals text)).drop
        pairs.length).map Prod.snd, finditer (bareAlias name) text = [] :=
    by simp only [List.forall_mem_map]
  rw [hadded]
  refine forall_congr' fun name => ?_
  rw [mem_addUnwrappedResponseAliases, mem_findUnwrappedPlaceholderLiterals]
  constructor
  · rintro h hcand ⟨i, hstands⟩
    by_contra hfound
    have hnil := h ⟨hcand, fun hmem => hfound hmem.2⟩
    exact (finditer_bareAlias_eq_nil hcand.1.ne_nil).mp hnil i hstands
  · rintro h ⟨hcand, hforbidden⟩
    refine (finditer_bareAlias_eq_nil hcand.1.ne_nil).mpr fun i hstands => ?_
    exact hforbidden ⟨hcand.1, h hcand ⟨i, hstands⟩⟩

/-- A name after an opening bracket, or after a letter outside ASCII, is not found by
the request scan, and its alias rewrites the text of the user. -/
theorem alias_rewrites_request_text :
    let pairs : List Pair := [(['x'], ['[', 'A', '_', '1', ']'])]
    ∀ text ∈ [['[', 'A', '_', '1'], ['é', 'A', '_', '1']],
      (addUnwrappedResponseAliases pairs (findUnwrappedPlaceholderLiterals text)).drop 1 =
          [(['x'], ['A', '_', '1'])] ∧
        (finditer (bareAlias ['A', '_', '1']) text).length = 1 ∧
        buildReverseSubstituter
          (addUnwrappedResponseAliases pairs (findUnwrappedPlaceholderLiterals text)) text =
            text.take 1 ++ ['x'] := by
  decide +kernel

end CorpLlmGateway.Sanitizer
