import CorpLlmGateway.Data.Dict
import CorpLlmGateway.Text.PyStr
import CorpLlmGateway.Text.Regex

/-!
# Placeholders

The model of `sanitizer/placeholder.py`: the placeholder patterns, the reverse
substituter that every response path builds, and the forward rewriting of a
preselected replacement plan.

* `mem_findPlaceholderLiterals` — the literal scan finds exactly the
  placeholder-shaped substrings of a text;
* `placeholderFamily_label` — the family of a `[FAMILY_NNN]` placeholder;
* `mem_reverseEntries` — a reverse entry restores the first original that
  claimed its placeholder.
-/

namespace CorpLlmGateway.Sanitizer

open TextScan Regex

/-- A text of Unicode scalar values: what a request or a decoded buffer holds. -/
abbrev Text := List Char

instance lawfulBEq_texts : LawfulBEq (Text × Text) := inferInstance

/-- An `(original, placeholder)` pair. -/
abbrev Pair (χ : Type := Char) := List χ × List χ

/-! ## Placeholder patterns -/

/-- `[A-Z0-9_]`. -/
def isFamilyChar (c : Char) : Bool := c.isUpper || c.isDigit || c == '_'

/-- `_PLACEHOLDER_FIND_RE`: `\[[A-Z][A-Z0-9_]*_\d{3,}\]`. -/
def placeholderFindRe : Pat :=
  .seqs [.lit '[', .chr Char.isUpper, .star (.chr isFamilyChar), .lit '_',
    .atLeast 3 (.chr Unicode.isDecimal), .lit ']']

/-- `^\[(p+)_(\d+)\]$`, for a class `p` of characters. -/
def labelPattern (p : Char → Bool) : Pat :=
  .seqs [.bos, .lit '[', .group 1 (.plus (.chr p)), .lit '_',
    .group 2 (.plus (.chr Unicode.isDecimal)), .lit ']', .eos]

/-- The two groups of a match. -/
def labelGroups (p : Char → Bool) (text : Text) : Option (Text × Text) :=
  match matchText (labelPattern p) text with
  | some (_, caps) => do
      let l ← caps.lookup 1
      let n ← caps.lookup 2
      return (slice text l.1 l.2, slice text n.1 n.2)
  | none => none

/-- All `[FAMILY_NNN]`-shaped substrings a left-to-right scan finds. -/
def findPlaceholderLiterals (text : Text) : List Text :=
  (finditer (matcher placeholderFindRe) text).map fun h => slice text h.start h.stop

/-- The family of a `[FAMILY_NNN]` placeholder, by `_PLACEHOLDER_LABEL_RE`:
`^\[(?P<family>.+)_(?P<index>\d+)\]$`. -/
def placeholderFamily (label : Text) : Option Text :=
  (labelGroups (fun c => c != '\n') label).map Prod.fst

/-! ## The reverse substituter -/

/-- `[A-Za-z0-9_]`, the identifier characters of the boundary rule. -/
def isIdentChar (c : Char) : Bool := c.isAlphanum || c == '_'

/-- What the reverse substituter asks of a character. It rewrites texts of Unicode scalar
values, and texts of a response that may hold half of a surrogate pair. -/
class Letter (χ : Type) extends LinearOrder χ where
  isIdent : χ → Bool
  bracket : χ

instance : Letter Char :=
  { (inferInstance : LinearOrder Char) with
    isIdent := isIdentChar
    bracket := '[' }

@[simp] theorem isIdent_char : (Letter.isIdent : Char → Bool) = isIdentChar := rfl

@[simp] theorem bracket_char : (Letter.bracket : Char) = '[' := rfl

instance : Letter PyChar :=
  { (inferInstance : LinearOrder PyChar) with
    isIdent := PyChar.any isIdentChar
    bracket := .scalar '[' }

section Reverse

variable {χ : Type} [Letter χ]

/-- Longer placeholders first, equal lengths in code-point order. -/
def placeholderLe (a b : List χ) : Prop :=
  b.length < a.length ∨ (a.length = b.length ∧ a ≤ b)

instance : DecidableRel (placeholderLe (χ := χ)) := fun a b =>
  inferInstanceAs (Decidable (b.length < a.length ∨ (a.length = b.length ∧ a ≤ b)))

def sortPlaceholdersByDescendingLength (placeholders : List (List χ)) : List (List χ) :=
  placeholders.insertionSort placeholderLe

/-- `(?<![A-Za-z0-9_])alias(?![A-Za-z0-9_])`. -/
def bareAlias (p : List χ) : Matcher χ Unit := fun prev after =>
  if p <+: after ∧ prev.any Letter.isIdent = false ∧
      (after.drop p.length).head?.any Letter.isIdent = false then some (p.length, ())
  else none

/-- One entry of the reverse substituter. A placeholder that starts with `[` is
replaced as a plain substring, any other one at identifier boundaries only. -/
structure ReverseEntry (χ : Type := Char) where
  placeholder : List χ
  replacement : List χ
deriving DecidableEq, Repr

def ReverseEntry.bracketed (e : ReverseEntry χ) : Bool :=
  e.placeholder.head? == some Letter.bracket

/-- The entries `build_reverse_substituter` compiles: the first original to claim
a placeholder keeps it. -/
def reverseEntries (pairs : List (Pair χ)) : List (ReverseEntry χ) :=
  let byPlaceholder : Dict (List χ) (List χ) := Dict.ofPairs (pairs.map Prod.swap)
  (sortPlaceholdersByDescendingLength byPlaceholder.keys).map fun p =>
    ⟨p, (byPlaceholder.get? p).getD []⟩

/-- One entry applied to a text. Unless the text is final and nothing of it is
protected, a bare match is left alone when it starts in the protected prefix, and
the pass stops at a match that touches the end of a text that may still grow. -/
def ReverseEntry.apply (e : ReverseEntry χ) (final : Bool) (protectedPrefix : ℕ)
    (text : List χ) : List χ :=
  if e.bracketed then replaceAll e.placeholder e.replacement text
  else if final && protectedPrefix == 0 then
    sub (bareAlias e.placeholder) (fun _ => e.replacement) text
  else
    let hits := (finditer (bareAlias e.placeholder) text).filter fun h =>
      protectedPrefix ≤ h.start
    splice text (hits.takeWhile fun h => final || h.stop != text.length)
      (fun _ => e.replacement)

/-- `_reverse(text, final=final, protected_prefix=protectedPrefix)`. -/
def reverse (entries : List (ReverseEntry χ)) (final : Bool) (protectedPrefix : ℕ)
    (text : List χ) : List χ :=
  entries.foldl (fun t e => e.apply final protectedPrefix t) text

/-- `build_reverse_substituter(pairs)` with its default arguments. -/
def buildReverseSubstituter (pairs : List (Pair χ)) (text : List χ) : List χ :=
  reverse (reverseEntries pairs) true 0 text

end Reverse

/-! ## Applying a replacement plan -/

/-- One original-text range selected for forward substitution. -/
structure AppliedSpan where
  start : ℕ
  stop : ℕ
  original : Text
deriving DecidableEq, Repr

/-- Why `apply_spans` refuses a plan. -/
inductive StaleSpanError where
  | invalid (start stop : ℕ)
  | mismatch (start stop : ℕ)
  | missing (start stop : ℕ)
deriving DecidableEq, Repr

def StaleSpanError.errorCode : String := "E_SPAN_INVALID"

def StaleSpanError.message : StaleSpanError → String
  | .invalid a b =>
      "invalid or overlapping applied span: start=" ++ toString a ++ " end=" ++ toString b
  | .mismatch a b =>
      "applied span does not match source text: start=" ++ toString a ++ " end=" ++ toString b
  | .missing a b =>
      "missing replacement for applied span: start=" ++ toString a ++ " end=" ++ toString b

/-- The order in which a plan is applied. -/
def AppliedSpan.le (a b : AppliedSpan) : Prop :=
  a.start < b.start ∨ (a.start = b.start ∧ a.stop ≤ b.stop)

instance : DecidableRel AppliedSpan.le := fun a b =>
  inferInstanceAs (Decidable (a.start < b.start ∨ (a.start = b.start ∧ a.stop ≤ b.stop)))

/-- The loop of `apply_spans` from a cursor on. -/
def applySpansFrom (text : Text) (byOriginal : Dict Text Text) :
    ℕ → List AppliedSpan → Except StaleSpanError Text
  | cursor, [] => .ok (text.drop cursor)
  | cursor, s :: ss =>
      if s.start < cursor ∨ s.stop ≤ s.start ∨ text.length < s.stop then
        .error (.invalid s.start s.stop)
      else if slice text s.start s.stop ≠ s.original then .error (.mismatch s.start s.stop)
      else
        match byOriginal.get? s.original with
        | none => .error (.missing s.start s.stop)
        | some r =>
            match applySpansFrom text byOriginal s.stop ss with
            | .error e => .error e
            | .ok out => .ok (slice text cursor s.start ++ r ++ out)

/-- Apply a preselected, non-overlapping replacement plan in one pass. -/
def applySpans (text : Text) (spans : List AppliedSpan) (pairs : List Pair) :
    Except StaleSpanError Text :=
  applySpansFrom text (Dict.ofPairs pairs) 0 (spans.insertionSort AppliedSpan.le)

/-! ## The literal scan -/

/-- A family name: `[A-Z][A-Z0-9_]*`. -/
def IsFamily (fam : Text) : Prop :=
  ∃ c cs, fam = c :: cs ∧ c.isUpper = true ∧ ∀ d ∈ cs, isFamilyChar d = true

/-- The label `[FAMILY_INDEX]`. -/
def label (fam index : Text) : Text := '[' :: (fam ++ '_' :: (index ++ [']']))

/-- A placeholder `[FAMILY_NNN]`: a family name and at least three digits. -/
def IsPlaceholder (p : Text) : Prop :=
  ∃ fam digits, IsFamily fam ∧ 3 ≤ digits.length ∧ (∀ d ∈ digits, Unicode.isDecimal d = true) ∧
    p = label fam digits

theorem isFamilyChar_of_isUpper {c : Char} (h : c.isUpper = true) : isFamilyChar c = true := by
  simp [isFamilyChar, h]

theorem not_bracket_of_isFamilyChar {c : Char} (h : isFamilyChar c = true) :
    c ≠ '[' ∧ c ≠ ']' := by
  constructor
  · rintro rfl
    exact absurd h (by decide)
  · rintro rfl
    exact absurd h (by decide)

theorem not_special_of_isDecimal {c : Char} (h : Unicode.isDecimal c = true) :
    c ≠ '[' ∧ c ≠ ']' ∧ c ≠ '_' ∧ c ≠ '\n' := by
  refine ⟨?_, ?_, ?_, ?_⟩
  all_goals
    rintro rfl
    exact absurd h (by decide)

theorem IsFamily.isFamilyChar {fam : Text} (h : IsFamily fam) : ∀ d ∈ fam, isFamilyChar d = true := by
  rcases h with ⟨c, cs, rfl, hc, hcs⟩
  intro d hd
  rcases List.mem_cons.mp hd with rfl | hd
  · exact isFamilyChar_of_isUpper hc
  · exact hcs d hd

/-- A placeholder is a bracket token. -/
theorem IsPlaceholder.isToken {p : Text} (h : IsPlaceholder p) : IsToken '[' ']' p := by
  rcases h with ⟨fam, digits, hfam, _, hdig, rfl⟩
  have hmid : ∀ d ∈ fam ++ '_' :: digits, d ≠ '[' ∧ d ≠ ']' := by
    intro d hd
    rcases List.mem_append.mp hd with hd | hd
    · exact not_bracket_of_isFamilyChar (hfam.isFamilyChar d hd)
    · rcases List.mem_cons.mp hd with rfl | hd
      · decide
      · exact ⟨(not_special_of_isDecimal (hdig d hd)).1, (not_special_of_isDecimal (hdig d hd)).2.1⟩
  refine ⟨fam ++ '_' :: digits, fun hm => (hmid _ hm).1 rfl, fun hm => (hmid _ hm).2 rfl, ?_⟩
  simp [label]

theorem mem_run_lit {c : Char} {s t : St} :
    t ∈ run (.lit c) s ↔ ∃ cs, s.rest = c :: cs ∧ t = s.advance [c] cs := by
  unfold Pat.lit
  rw [mem_run_chr]
  constructor
  · rintro ⟨d, cs, hs, hd, ht⟩
    have hcd : c = d := by simpa using hd
    exact ⟨cs, hcd ▸ hs, hcd ▸ ht⟩
  · rintro ⟨cs, hs, ht⟩
    exact ⟨c, cs, hs, by simp, ht⟩

/-- The search pattern consumes exactly a placeholder. -/
theorem mem_run_placeholderFindRe {s t : St} :
    t ∈ run placeholderFindRe s ↔
      ∃ p rest, IsPlaceholder p ∧ s.rest = p ++ rest ∧ t = s.advance p rest := by
  simp only [placeholderFindRe, Pat.seqs, Pat.star, Pat.atLeast, mem_run_seq, mem_run_lit]
  constructor
  · rintro ⟨_, ⟨r₁, h₁, rfl⟩, _, h₂, _, h₃, _, ⟨r₄, h₄, rfl⟩, _, h₅, r₆, h₆, rfl⟩
    rcases mem_run_chr.mp h₂ with ⟨c, r₂, hr₂, hc, rfl⟩
    rcases mem_run_rep_chr.mp h₃ with ⟨cs, r₃, hr₃, hcs, _, _, rfl⟩
    rcases mem_run_rep_chr.mp h₅ with ⟨ds, r₅, hr₅, hds, hlen, _, rfl⟩
    simp only [St.advance] at hr₂ hr₃ h₄ hr₅ h₆
    refine ⟨label (c :: cs) ds, r₆, ⟨c :: cs, ds, ⟨c, cs, rfl, hc, hcs⟩, hlen, hds, rfl⟩, ?_, ?_⟩
    · simp [label, h₁, hr₂, hr₃, h₄, hr₅, h₆]
    · simp [St.advance_advance, label]
  · rintro ⟨p, rest, ⟨fam, ds, ⟨c, cs, rfl, hc, hcs⟩, hlen, hds, rfl⟩, hs, rfl⟩
    refine ⟨_, ⟨_, by simpa [label] using hs, rfl⟩, _, mem_run_chr.mpr ⟨c, _, rfl, hc, rfl⟩, _,
      mem_run_rep_chr.mpr ⟨cs, _, rfl, hcs, by simp, by simp, rfl⟩, _, ⟨_, rfl, rfl⟩, _,
      mem_run_rep_chr.mpr ⟨ds, _, rfl, hds, hlen, by simp, rfl⟩, _, rfl, ?_⟩
    simp [St.advance_advance, label]

theorem findRe_at_iff {text : Text} {i n : ℕ} {v : List (ℕ × ℕ × ℕ)} :
    (matcher placeholderFindRe).at text i = some (n, v) ↔
      v = [] ∧ ∃ p, IsPlaceholder p ∧ p <+: text.drop i ∧ n = p.length := by
  constructor
  · intro h
    rcases exists_of_matcher h with ⟨t, ht, hn, hv⟩
    rcases mem_run_placeholderFindRe.mp ht with ⟨p, rest, hp, hrest, rfl⟩
    refine ⟨by simpa [St.advance, start] using hv.symm, p, hp, ⟨rest, hrest.symm⟩, ?_⟩
    simpa [St.advance, start] using hn.symm
  · rintro ⟨rfl, p, hp, ⟨rest, hrest⟩, rfl⟩
    apply matcher_eq_some
    · exact ⟨_, mem_run_placeholderFindRe.mpr ⟨p, rest, hp, hrest.symm, rfl⟩⟩
    · intro t ht
      -- two placeholders at one position are the same token
      rcases mem_run_placeholderFindRe.mp ht with ⟨q, rest', hq, hrest', rfl⟩
      have hpre : q <+: p ++ rest := by
        rw [hrest]
        exact ⟨rest', hrest'.symm⟩
      have hqp : q = p := hq.isToken.eq_of_prefix_append hp.isToken hpre
      simp [St.advance, start, hqp]

/-- The literal scan finds exactly the placeholder-shaped substrings: no match can
hide another one, because a placeholder has no bracket inside. -/
theorem mem_findPlaceholderLiterals {text p : Text} :
    p ∈ findPlaceholderLiterals text ↔ IsPlaceholder p ∧ p <:+: text := by
  unfold findPlaceholderLiterals
  rw [List.mem_map]
  constructor
  · rintro ⟨h, hh, rfl⟩
    rcases mem_finditer hh with ⟨_, hle, hat⟩
    rcases findRe_at_iff.mp hat with ⟨_, q, hq, hpre, hlen⟩
    have hstop : h.stop = h.start + q.length := by omega
    rw [hstop, slice_eq_of_prefix_drop hpre]
    exact ⟨hq, hpre.isInfix.trans (List.drop_suffix _ _).isInfix⟩
  · rintro ⟨hp, hin⟩
    rcases infix_iff_drop.mp hin with ⟨i, hi, hpre⟩
    have hat : (matcher placeholderFindRe).at text i = some (p.length, []) :=
      findRe_at_iff.mpr ⟨rfl, p, hp, hpre, rfl⟩
    rcases finditer_complete hi hat with ⟨h, hh, heq | ⟨hlt, hin'⟩⟩
    · refine ⟨h, hh, ?_⟩
      rcases mem_finditer hh with ⟨_, hle, hat'⟩
      rw [heq, hat] at hat'
      simp only [Option.some.injEq, Prod.mk.injEq] at hat'
      have hstop : h.stop = i + p.length := by omega
      rw [heq, hstop, slice_eq_of_prefix_drop hpre]
    · -- a hit over position `i` would have the bracket of `p` inside
      exfalso
      rcases mem_finditer hh with ⟨_, hle, hat'⟩
      rcases findRe_at_iff.mp hat' with ⟨_, q, hq, ⟨rest, hrest⟩, hlen⟩
      have hdrop : text.drop i = q.drop (i - h.start) ++ rest := by
        have h1 : text.drop i = (text.drop h.start).drop (i - h.start) := by
          rw [List.drop_drop]
          congr 1
          omega
        rw [h1, ← hrest, List.drop_append_of_le_length (by omega)]
      rw [hdrop] at hpre
      refine hp.isToken.not_prefix_inside hq.isToken (by decide)
        (List.take_append_drop (i - h.start) q).symm ?_ ?_ hpre
      · intro h0
        have := congrArg List.length h0
        simp only [List.length_take, List.length_nil] at this
        omega
      · intro h0
        have := congrArg List.length h0
        simp only [List.length_drop, List.length_nil] at this
        omega

/-! ## The family of a label -/

/-- The label pattern splits a placeholder at its last underscore. -/
theorem label_split_unique {fam digits u v rest : Text}
    (hdig : ∀ d ∈ digits, Unicode.isDecimal d = true)
    (hv : ∀ d ∈ v, Unicode.isDecimal d = true) (hrest : rest = [] ∨ rest = ['\n'])
    (h : label fam digits = '[' :: (u ++ '_' :: (v ++ ']' :: rest))) :
    rest = [] ∧ v = digits ∧ u = fam := by
  have hnil : rest = [] := by
    rcases hrest with h0 | h0
    · exact h0
    · have hlast := congrArg List.getLast? h
      have hl : (label fam digits).getLast? = some ']' := by simp [label, List.getLast?_cons]
      rw [hl, h0] at hlast
      simp [List.getLast?_cons] at hlast
  subst hnil
  -- read both sides from the right: the digits end at the first underscore met
  have hrev := congrArg List.reverse h
  simp only [label, List.reverse_cons, List.reverse_append, List.append_assoc, List.nil_append,
    List.cons_append, List.reverse_nil] at hrev
  have hrev' := List.cons.inj hrev
  have hvd : digits.reverse = v.reverse := by
    refine middle_unique ?_ ?_ hrev'.2
    · intro hm
      exact (not_special_of_isDecimal (hdig _ (List.mem_reverse.mp hm))).2.2.1 rfl
    · intro hm
      exact (not_special_of_isDecimal (hv _ (List.mem_reverse.mp hm))).2.2.1 rfl
  have hv' : v = digits := (List.reverse_injective hvd).symm
  subst hv'
  refine ⟨rfl, rfl, ?_⟩
  simp only [label, List.cons.injEq, true_and] at h
  exact (List.append_cancel_right h).symm

/-- The characters that a way to match the pattern goes through, and its groups. -/
theorem mem_run_labelPattern {p : Char → Bool} {text : Text} {t : St}
    (ht : t ∈ run (labelPattern p) (start none text)) :
    ∃ u v rest, text = '[' :: (u ++ '_' :: (v ++ ']' :: rest)) ∧ (rest = [] ∨ rest = ['\n']) ∧
      (v ≠ [] ∧ ∀ d ∈ v, Unicode.isDecimal d = true) ∧ t.pos = u.length + v.length + 3 ∧
      t.caps = [(2, 1 + u.length + 1, 1 + u.length + 1 + v.length), (1, 1, 1 + u.length)] := by
  simp only [labelPattern, Pat.seqs, Pat.bos, Pat.eos, Pat.plus, mem_run_seq, mem_run_lit,
    mem_run_look, mem_run_group] at ht
  obtain ⟨_, ⟨_, rfl⟩, _, ⟨r₁, h₁, rfl⟩, _, ⟨_, h₂, rfl⟩, _, ⟨r₃, h₃, rfl⟩, _, ⟨_, h₄, rfl⟩, _,
    ⟨r₅, h₅, rfl⟩, heos, rfl⟩ := ht
  obtain ⟨u, r₂, hr₂, _, _, _, rfl⟩ := mem_run_rep_chr.mp h₂
  obtain ⟨v, r₄, hr₄, hv, hlen, _, rfl⟩ := mem_run_rep_chr.mp h₄
  simp only [St.advance, start] at h₁ hr₂ h₃ hr₄ h₅
  refine ⟨u, v, r₅, by rw [h₁, hr₂, h₃, hr₄, h₅], by simpa [St.advance] using heos,
    ⟨List.ne_nil_of_length_pos hlen, hv⟩, ?_, ?_⟩
  · simp only [St.advance, start, List.length_cons, List.length_nil]
    omega
  · simp [St.advance, start]

theorem slice_groups (u v rest : Text) :
    slice ('[' :: (u ++ '_' :: (v ++ rest))) 1 (1 + u.length) = u ∧
      slice ('[' :: (u ++ '_' :: (v ++ rest))) (1 + u.length + 1) (1 + u.length + 1 + v.length) =
        v := by
  refine ⟨slice_eq_of_prefix_drop ⟨_, rfl⟩, slice_eq_of_prefix_drop ⟨rest, ?_⟩⟩
  have hfront : '[' :: (u ++ '_' :: (v ++ rest)) = ('[' :: (u ++ ['_'])) ++ (v ++ rest) := by simp
  have hlen : 1 + u.length + 1 = ('[' :: (u ++ ['_'])).length := by simp [Nat.add_comm]
  rw [hfront, hlen, List.drop_left]

/-- The groups of a match, around the last underscore. -/
theorem labelGroups_sound {p : Char → Bool} {text u v : Text}
    (h : labelGroups p text = some (u, v)) :
    ∃ rest, text = '[' :: (u ++ '_' :: (v ++ ']' :: rest)) ∧ (rest = [] ∨ rest = ['\n']) ∧
      v ≠ [] ∧ ∀ d ∈ v, Unicode.isDecimal d = true := by
  unfold labelGroups at h
  split at h
  · next n caps hmatch =>
    obtain ⟨t, ht, -, rfl⟩ := exists_of_matcher hmatch
    obtain ⟨u, v, rest, rfl, hrest, hv, -, hcaps⟩ := mem_run_labelPattern ht
    rw [hcaps] at h
    cases h
    rw [(slice_groups u v (']' :: rest)).1, (slice_groups u v (']' :: rest)).2]
    exact ⟨rest, rfl, hrest, hv⟩
  · cases h

/-- The groups of `[LABEL_NNN]` are `LABEL` and `NNN`. -/
theorem labelGroups_label {p : Char → Bool} {l digits : Text} (hl : ∀ c ∈ l, p c = true)
    (hne : l ≠ []) (hdne : digits ≠ []) (hdig : ∀ d ∈ digits, Unicode.isDecimal d = true) :
    labelGroups p (label l digits) = some (l, digits) := by
  have hmatch : matchText (labelPattern p) (label l digits) = some (l.length + digits.length + 3,
      [(2, 1 + l.length + 1, 1 + l.length + 1 + digits.length), (1, 1, 1 + l.length)]) := by
    apply matcher_eq_some
    · simp only [labelPattern, Pat.seqs, Pat.bos, Pat.eos, Pat.plus, mem_run_seq, mem_run_lit,
        mem_run_look, mem_run_group]
      refine ⟨_, _, ⟨by simp [start], rfl⟩, _, ⟨_, rfl, rfl⟩, _,
        ⟨_, mem_run_rep_chr.mpr ⟨l, _, rfl, hl, List.length_pos_iff.mpr hne, by simp, rfl⟩, rfl⟩,
        _, ⟨_, rfl, rfl⟩, _,
        ⟨_, mem_run_rep_chr.mpr ⟨digits, _, rfl, hdig, List.length_pos_iff.mpr hdne, by simp, rfl⟩,
          rfl⟩,
        _, ⟨[], rfl, rfl⟩, by simp [St.advance], rfl⟩
    · intro t ht
      obtain ⟨u, v, rest, hsplit, hrest, hv, hpos, hcaps⟩ := mem_run_labelPattern ht
      obtain ⟨rfl, rfl, rfl⟩ := label_split_unique hdig hv.2 hrest hsplit
      exact ⟨hpos, hcaps⟩
  obtain ⟨hlabel, hdigits⟩ := slice_groups l digits [']']
  unfold labelGroups
  rw [hmatch]
  exact congrArg some (Prod.ext hlabel hdigits)

/-- The family of `[FAMILY_NNN]` is `FAMILY`. -/
theorem placeholderFamily_label {fam digits : Text} (hfam : IsFamily fam) (hne : digits ≠ [])
    (hdig : ∀ d ∈ digits, Unicode.isDecimal d = true) :
    placeholderFamily (label fam digits) = some fam := by
  have hfne : fam ≠ [] := by
    rcases hfam with ⟨c, cs, rfl, _⟩
    simp
  have hnl : ∀ c ∈ fam, (c != '\n') = true := by
    intro c hc
    have hchar := hfam.isFamilyChar c hc
    rw [bne_iff_ne]
    rintro rfl
    exact absurd hchar (by decide)
  rw [placeholderFamily, labelGroups_label hnl hfne hne hdig, Option.map_some]

/-! ## Reverse entries -/

section Entries

variable {χ : Type} [Letter χ]

/-- A reverse entry restores the first original that claimed its placeholder. -/
theorem mem_reverseEntries {pairs : List (Pair χ)} {e : ReverseEntry χ} :
    e ∈ reverseEntries pairs ↔
      (pairs.map Prod.swap).lookup e.placeholder = some e.replacement := by
  rcases e with ⟨p, r⟩
  simp only [reverseEntries, List.mem_map, sortPlaceholdersByDescendingLength,
    List.mem_insertionSort, ReverseEntry.mk.injEq, Dict.mem_keys, Dict.get?_ofPairs]
  constructor
  · rintro ⟨q, hq, rfl, rfl⟩
    rcases Option.isSome_iff_exists.mp hq with ⟨x, hx⟩
    rw [hx, Option.getD_some]
  · intro h
    exact ⟨p, by rw [h, Option.isSome_some], rfl, by rw [h, Option.getD_some]⟩

/-- A reverse entry comes from a pair. -/
theorem mem_of_mem_reverseEntries {pairs : List (Pair χ)} {e : ReverseEntry χ}
    (he : e ∈ reverseEntries pairs) : (e.replacement, e.placeholder) ∈ pairs := by
  rcases List.lookup_eq_some_iff.mp (mem_reverseEntries.mp he) with ⟨l₁, l₂, heq, _⟩
  have hp : (e.placeholder, e.replacement) ∈ pairs.map Prod.swap := by
    rw [heq]
    simp
  rcases List.mem_map.mp hp with ⟨x, hx, hxe⟩
  have hx' : x = (e.replacement, e.placeholder) := by
    rw [← Prod.swap_swap x, hxe]
    rfl
  exact hx' ▸ hx

/-- The placeholders of the reverse entries are distinct. -/
theorem reverseEntries_nodup (pairs : List (Pair χ)) :
    ((reverseEntries pairs).map ReverseEntry.placeholder).Nodup := by
  have hperm : (sortPlaceholdersByDescendingLength
      (Dict.ofPairs (pairs.map Prod.swap)).keys).Perm (Dict.ofPairs (pairs.map Prod.swap)).keys :=
    List.perm_insertionSort _ _
  simp only [reverseEntries, List.map_map, Function.comp_def, List.map_id']
  exact hperm.nodup_iff.mpr (Dict.keys_nodup _)

end Entries

/-! ## Plans that apply -/

/-- A replacement plan for a text: the spans are non-empty, lie in the text, carry
the text they cover and do not overlap. -/
structure PlanOk (text : Text) (spans : List AppliedSpan) : Prop where
  covers : ∀ s ∈ spans, s.start < s.stop ∧ s.stop ≤ text.length ∧
    slice text s.start s.stop = s.original
  disjoint : spans.Pairwise fun a b => a.stop ≤ b.start ∨ b.stop ≤ a.start

theorem AppliedSpan.le_total (a b : AppliedSpan) : a.le b ∨ b.le a := by
  unfold AppliedSpan.le
  omega

theorem AppliedSpan.le_trans {a b c : AppliedSpan} (h : a.le b) (h' : b.le c) : a.le c := by
  unfold AppliedSpan.le at *
  omega

theorem pairwise_le_insertionSort (spans : List AppliedSpan) :
    (spans.insertionSort AppliedSpan.le).Pairwise AppliedSpan.le :=
  have : Std.Total AppliedSpan.le := ⟨AppliedSpan.le_total⟩
  have : IsTrans AppliedSpan AppliedSpan.le := ⟨fun _ _ _ => AppliedSpan.le_trans⟩
  List.pairwise_insertionSort _ spans

/-- Sorting a plan puts every span behind the end of the previous one. -/
theorem PlanOk.sorted {text : Text} {spans : List AppliedSpan} (h : PlanOk text spans) :
    (spans.insertionSort AppliedSpan.le).Pairwise fun a b => a.stop ≤ b.start := by
  have hperm := List.perm_insertionSort AppliedSpan.le spans
  have hdis : (spans.insertionSort AppliedSpan.le).Pairwise
      fun a b => a.stop ≤ b.start ∨ b.stop ≤ a.start := by
    refine (hperm.pairwise_iff ?_).mpr h.disjoint
    intro a b hab
    exact hab.symm
  refine ((pairwise_le_insertionSort spans).and hdis).imp_of_mem ?_
  intro a b ha hb hab
  have h1 := h.covers a ((List.mem_insertionSort _).mp ha)
  have h2 := h.covers b ((List.mem_insertionSort _).mp hb)
  rcases hab with ⟨hle, hd⟩
  unfold AppliedSpan.le at hle
  omega

end CorpLlmGateway.Sanitizer
