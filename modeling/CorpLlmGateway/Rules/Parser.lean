import CorpLlmGateway.Rules.Models
import CorpLlmGateway.Text.FirstMatch
import CorpLlmGateway.Text.Lines

/-!
# The rules file

The model of `rules/parser.py`: a file lists one rule a line as a bullet, with a pattern and
a replacement that may each stand in backticks, separated by `=` or an arrow.

* `first_ruleRe` — a bullet with both sides in backticks has one reading that the matcher
  comes to first, whatever the sides contain;
* `parse_listing` — a file of such bullets, blank lines and comments is read back.
-/

namespace CorpLlmGateway.Rules

open Regex TextScan PyStr

/-! ## The model -/

/-- `RulesParseError`, with the line it names. -/
inductive RulesParseError where
  | asciiArrow (lineNo : ℕ)
  | notARule (lineNo : ℕ) (line : PyStr)
  | emptySide (lineNo : ℕ)
deriving DecidableEq

/-- The text of the error. -/
def RulesParseError.message (repr : PyStr → PyStr) : RulesParseError → PyStr
  | .asciiArrow lineNo =>
      "line ".py ++ PyStr.ofText (Nat.toDigits 10 lineNo) ++
        ": use '=' (or '→') as separator, not ascii '->'".py
  | .notARule lineNo line =>
      "line ".py ++ PyStr.ofText (Nat.toDigits 10 lineNo) ++ ": not a valid rule: ".py ++ repr line
  | .emptySide lineNo =>
      "line ".py ++ PyStr.ofText (Nat.toDigits 10 lineNo) ++ ": empty original or replacement".py

/-- The backtick. -/
def tick : PyChar := .scalar '\x60'

/-- `[=→]`. -/
def isSeparator (c : PyChar) : Bool := c == .scalar '=' || c == .scalar '→'

/-- `\s*`. -/
def blanks : Pat PyChar := .star (.chr PyChar.isSpace)

/-- A side in backticks, captured as group `i`. -/
def quoted (i : ℕ) : Pat PyChar :=
  .seqs [.lit tick, .group i (.plus (.chr fun c => !(c == tick))), .lit tick]

/-- `$`. -/
def endOfLine : Pat PyChar := .look fun _ rest => rest == [] || rest == [.scalar '\n']

/-- A bare original: it does not begin with a backtick and has no separator. -/
def bareOrig : Pat PyChar :=
  .group 2 (.seq (.chr fun c => !(c.isSpace || isSeparator c || c == tick))
    (.rep false 0 none (.chr fun c => !isSeparator c)))

/-- A bare replacement. -/
def bareRep : Pat PyChar :=
  .group 4 (.seq (.chr fun c => !c.isSpace) (.rep false 0 none (.chr fun c => !(c == .scalar '\n'))))

/-- The separator, the replacement and the end of `_RULE_RE`. -/
def ruleTail : Pat PyChar :=
  .seqs [blanks, .chr isSeparator, blanks, .alt (quoted 3) bareRep, blanks, endOfLine]

/-- `_RULE_RE`; the groups `orig_q`, `orig`, `rep_q` and `rep` are 1 to 4. -/
def ruleRe : Pat PyChar :=
  .seqs [.bos, blanks, .lit (.scalar '-'), blanks, .alt (quoted 1) bareOrig, ruleTail]

/-- `m.group(i)`. -/
def groupText (line : PyStr) (caps : List (ℕ × ℕ × ℕ)) (i : ℕ) : Option PyStr :=
  (caps.lookup i).map fun r => slice line r.1 r.2

/-- `a or b or ""`. -/
def firstText (a b : Option PyStr) : PyStr :=
  match a with
  | some (c :: s) => c :: s
  | _ => b.getD []

/-- The body of the loop; `none` for a line that is skipped. -/
def parseLine (lineNo : ℕ) (rawLine : PyStr) : Except RulesParseError (Option (Rule PyChar)) :=
  let line := rstrip PyChar.isSpace rawLine
  let stripped := lstrip PyChar.isSpace line
  if stripped = [] then .ok none
  else if "#".py <+: stripped ∨ "<!--".py <+: stripped then .ok none
  else if "->".py <:+: stripped ∧ .scalar '=' ∉ stripped ∧ .scalar '→' ∉ stripped then
    .error (.asciiArrow lineNo)
  else
    match matchText ruleRe line with
    | none => .error (.notARule lineNo line)
    | some (_, caps) =>
        let original := strip PyChar.isSpace (firstText (groupText line caps 1) (groupText line caps 2))
        let replacement := strip PyChar.isSpace (firstText (groupText line caps 3) (groupText line caps 4))
        if original = [] ∨ replacement = [] then .error (.emptySide lineNo)
        else .ok (some ⟨original, replacement⟩)

/-- The loop, from a line number on. -/
def parseLines : ℕ → List PyStr → Except RulesParseError (List (Rule PyChar))
  | _, [] => .ok []
  | lineNo, rawLine :: lines => do
      let rule ← parseLine lineNo rawLine
      let rules ← parseLines (lineNo + 1) lines
      .ok (rule.toList ++ rules)

/-- `parse(text)`. -/
def parse (text : PyStr) : Except RulesParseError (List (Rule PyChar)) := parseLines 1 (splitlines text)

/-! ## Listings -/

/-- A text that can be listed as a side of a rule: in backticks on one line, and without
whitespace around it. -/
structure Side (s : PyStr) : Prop where
  ne_nil : s ≠ []
  tick : tick ∉ s
  breaks : ∀ c ∈ s, isLineBreak c = false
  strip : strip PyChar.isSpace s = s

/-- Whitespace that ends no line. -/
def Blank (s : PyStr) : Prop := ∀ c ∈ s, c.isSpace = true ∧ isLineBreak c = false

instance (s : PyStr) : Decidable (Side s) :=
  decidable_of_iff
    (s ≠ [] ∧ tick ∉ s ∧ (∀ c ∈ s, isLineBreak c = false) ∧ TextScan.strip PyChar.isSpace s = s)
    ⟨fun h => ⟨h.1, h.2.1, h.2.2.1, h.2.2.2⟩, fun h => ⟨h.ne_nil, h.tick, h.breaks, h.strip⟩⟩

instance (s : PyStr) : Decidable (Blank s) :=
  inferInstanceAs (Decidable (∀ c ∈ s, c.isSpace = true ∧ isLineBreak c = false))

/-- The blanks of a bullet. -/
structure Gaps where
  indent : PyStr := []
  bullet : PyStr := " ".py
  before : PyStr := " ".py
  behind : PyStr := " ".py
  trailing : PyStr := []

structure Gaps.Ok (g : Gaps) : Prop where
  indent : Blank g.indent
  bullet : Blank g.bullet
  before : Blank g.before
  behind : Blank g.behind
  trailing : Blank g.trailing

instance (g : Gaps) : Decidable g.Ok :=
  decidable_of_iff
    (Blank g.indent ∧ Blank g.bullet ∧ Blank g.before ∧ Blank g.behind ∧ Blank g.trailing)
    ⟨fun h => ⟨h.1, h.2.1, h.2.2.1, h.2.2.2.1, h.2.2.2.2⟩,
      fun h => ⟨h.indent, h.bullet, h.before, h.behind, h.trailing⟩⟩

/-- A line of a listing. -/
inductive Line where
  | rule (r : Rule PyChar) (separator : PyChar) (gaps : Gaps)
  | blank (s : PyStr)
  | comment (indent text : PyStr)

/-- A bullet, without what trails it. -/
def bullet (r : Rule PyChar) (separator : PyChar) (g : Gaps) : PyStr :=
  g.indent ++ .scalar '-' :: (g.bullet ++ tick :: (r.pattern ++ tick :: (g.before ++ separator ::
    (g.behind ++ tick :: (r.replacement ++ [tick])))))

namespace Line

def text : Line → PyStr
  | rule r separator g => bullet r separator g ++ g.trailing
  | blank s => s
  | comment indent text => indent ++ .scalar '#' :: text

/-- The rule of a line. -/
def rule? : Line → Option (Rule PyChar)
  | rule r _ _ => some r
  | blank _ | comment _ _ => none

def Ok : Line → Prop
  | rule r separator g =>
      Side r.pattern ∧ Side r.replacement ∧ isSeparator separator = true ∧ g.Ok
  | blank s => Blank s
  | comment indent text => Blank indent ∧ ∀ c ∈ text, isLineBreak c = false

instance : DecidablePred Ok
  | rule r separator g =>
      inferInstanceAs (Decidable
        (Side r.pattern ∧ Side r.replacement ∧ isSeparator separator = true ∧ g.Ok))
  | blank s => inferInstanceAs (Decidable (Blank s))
  | comment indent text =>
      inferInstanceAs (Decidable (Blank indent ∧ ∀ c ∈ text, isLineBreak c = false))

end Line

/-! ## The match of a bullet -/

theorem begins_tick (i : ℕ) : Begins (fun c => c = tick) (quoted i) := by
  refine Begins.seq ?_ _
  exact (begins_chr _).imp fun c hc => (eq_of_beq hc).symm

theorem isSpace_tick : tick.isSpace = false := by decide

theorem isSpace_separator {c : PyChar} (h : isSeparator c = true) : c.isSpace = false := by
  rcases Bool.or_eq_true _ _ ▸ h with h | h
  · rw [eq_of_beq h]
    decide
  · rw [eq_of_beq h]
    decide

/-- A side in backticks is captured as it stands. -/
theorem first_quoted {i : ℕ} {s : St PyChar} {side rest : PyStr} (hside : side ≠ [])
    (htick : tick ∉ side) (hs : s.rest = tick :: (side ++ tick :: rest)) (b : Pat PyChar) :
    first (.seq (quoted i) b) s =
      first b { s.advance (tick :: side ++ [tick]) rest with
        caps := (i, s.pos + 1, s.pos + 1 + side.length) :: s.caps } := by
  have hclass : ∀ c ∈ side, (!(c == tick)) = true := by
    intro c hc
    have hne : c ≠ tick := fun heq => htick (heq ▸ hc)
    simpa using hne
  have hlen : 1 ≤ side.length := List.length_pos_iff.mpr hside
  have hend : Begins (fun c => (!(c == tick)) = false) (.seq (.lit tick) b) :=
    ((begins_chr _).imp fun c hc => by rw [← eq_of_beq hc]; simp).seq b
  have hassoc : first (.seq (quoted i) b) s =
      first (.seq (.lit tick) (.seq (.group i (.rep true 1 none (.chr fun c => !(c == tick))))
        (.seq (.lit tick) b))) s := by
    have hquoted : quoted i = .seq (.lit tick)
        (.seq (.group i (.rep true 1 none (.chr fun c => !(c == tick)))) (.lit tick)) := rfl
    simp only [hquoted, first, run, List.flatMap_assoc]
  rw [hassoc, first_seq_of_run (run_lit hs), first_group_rep_seq rfl hclass hlen (by simp) hend,
    first_seq_of_run (run_lit rfl)]
  have hlast : (tick :: side ++ [tick]).getLast? = some tick := List.getLast?_concat
  simp only [St.advance, hlast, List.length_append, List.length_cons, List.length_nil]
  congr 2
  omega

/-- Nothing is left behind the last side. -/
theorem first_end {s : St PyChar} (hs : s.rest = []) : first (.seq blanks endOfLine) s = some s := by
  have hself : s.advance [] [] = s := by
    obtain ⟨pos, prev, rest, caps⟩ := s
    cases hs
    rfl
  have hseq : first (.seq blanks endOfLine) s = first endOfLine s := by
    apply first_seq
    · exact mem_run_rep_chr.mpr ⟨[], [], by simp [hs], by simp, by simp, by simp, hself.symm⟩
    · intro y hy _
      obtain ⟨u, rest, hu, -, -, -, rfl⟩ := mem_run_rep_chr.mp hy
      rw [hs] at hu
      obtain ⟨rfl, rfl⟩ := List.append_eq_nil_iff.mp hu.symm
      exact hself
  rw [hseq]
  simp [first, endOfLine, run, hs]

theorem begins_chr_space {p : PyChar → Bool} (hp : ∀ c, p c = true → c.isSpace = false) :
    Begins (fun c => c.isSpace = false) (.chr p) :=
  (begins_chr p).imp hp

theorem begins_quoted (i : ℕ) : Begins (fun c => c.isSpace = false) (quoted i) :=
  (begins_tick i).imp fun c hc => by rw [hc]; exact isSpace_tick

theorem begins_bareOrig : Begins (fun c => c.isSpace = false) bareOrig := by
  refine Begins.group (Begins.seq (begins_chr_space fun c hc => ?_) _) 2
  simp only [Bool.not_eq_true', Bool.or_eq_false_iff] at hc
  exact hc.1.1

theorem begins_bareRep : Begins (fun c => c.isSpace = false) bareRep := by
  refine Begins.group (Begins.seq (begins_chr_space fun c hc => ?_) _) 4
  simpa using hc

/-- Blanks in front of something that begins with no blank. -/
theorem first_blanks {s : St PyChar} {w : PyStr} {c : PyChar} {rest : PyStr}
    (hs : s.rest = w ++ c :: rest) (hw : Blank w) (hc : c.isSpace = false) {b : Pat PyChar}
    (hb : Begins (fun c => c.isSpace = false) b) :
    first (.seq blanks b) s = first b (s.advance w (c :: rest)) :=
  first_rep_seq hs (fun d hd => (hw d hd).1) (Nat.zero_le _) hc hb

/-- From the separator on: the replacement is captured. -/
theorem first_ruleTail {r : Rule PyChar} {separator : PyChar} {g : Gaps} (hr : Side r.replacement)
    (hsep : isSeparator separator = true) (hg : g.Ok) {s : St PyChar}
    (hs : s.rest = g.before ++ separator :: (g.behind ++ tick :: (r.replacement ++ [tick]))) :
    ∃ t, first ruleTail s = some t ∧
      t.caps = (3, s.pos + g.before.length + 1 + g.behind.length + 1,
        s.pos + g.before.length + 1 + g.behind.length + 1 + r.replacement.length) :: s.caps := by
  have htail : ruleTail = .seq blanks (.seq (.chr isSeparator) (.seq blanks
    (.seq (.alt (quoted 3) bareRep) (.seq blanks endOfLine)))) := rfl
  rw [htail, first_blanks hs hg.before (isSpace_separator hsep)
      ((begins_chr_space fun c hc => isSpace_separator hc).seq _),
    first_seq_of_run (run_chr rfl hsep),
    first_blanks rfl hg.behind isSpace_tick (((begins_quoted 3).alt begins_bareRep).seq _)]
  refine ⟨_, first_alt_seq ((first_quoted hr.ne_nil hr.tick rfl _).trans (first_end rfl)), ?_⟩
  rfl

/-- **A bullet with both sides in backticks** is read as such: the matcher captures the two
sides and no bare text. -/
theorem first_ruleRe {r : Rule PyChar} {separator : PyChar} {g : Gaps} (hp : Side r.pattern)
    (hr : Side r.replacement) (hsep : isSeparator separator = true) (hg : g.Ok) :
    let at₁ := g.indent.length + 1 + g.bullet.length + 1
    let at₃ := at₁ + r.pattern.length + 1 + g.before.length + 1 + g.behind.length + 1
    ∃ n, matchText ruleRe (bullet r separator g) =
      some (n, [(3, at₃, at₃ + r.replacement.length), (1, at₁, at₁ + r.pattern.length)]) := by
  intro at₁ at₃
  have hdash : Begins (fun c => c.isSpace = false) (.lit (.scalar '-') : Pat PyChar) :=
    begins_chr_space fun c hc => by rw [← eq_of_beq hc]; decide
  have hrule : ruleRe = .seq .bos (.seq blanks (.seq (.lit (.scalar '-')) (.seq blanks
    (.seq (.alt (quoted 1) bareOrig) ruleTail)))) := rfl
  have hbos : run .bos (start none (bullet r separator g)) = [start none (bullet r separator g)] :=
    rfl
  have hsides : ∀ x : St PyChar, x.rest = tick :: (r.pattern ++ tick :: (g.before ++ separator ::
      (g.behind ++ tick :: (r.replacement ++ [tick])))) →
      ∃ t, first (.seq (.alt (quoted 1) bareOrig) ruleTail) x = some t ∧
        t.caps = (3, x.pos + 1 + r.pattern.length + 1 + g.before.length + 1 + g.behind.length + 1,
          x.pos + 1 + r.pattern.length + 1 + g.before.length + 1 + g.behind.length + 1 +
            r.replacement.length) :: (1, x.pos + 1, x.pos + 1 + r.pattern.length) :: x.caps := by
    intro x hx
    have hquoted := first_quoted (i := 1) hp.ne_nil hp.tick hx ruleTail
    obtain ⟨t, ht, hcaps⟩ := first_ruleTail hr hsep hg (s := { x.advance (tick :: r.pattern ++ [tick])
      (g.before ++ separator :: (g.behind ++ tick :: (r.replacement ++ [tick]))) with
        caps := (1, x.pos + 1, x.pos + 1 + r.pattern.length) :: x.caps }) rfl
    refine ⟨t, first_alt_seq (hquoted.trans ht), ?_⟩
    have hpos : x.pos + (tick :: r.pattern ++ [tick]).length = x.pos + 1 + r.pattern.length + 1 := by
      simp only [List.length_append, List.length_cons, List.length_nil]
      omega
    rw [hcaps]
    simp only [St.advance, hpos]
  have hfirst : ∃ t, first ruleRe (start none (bullet r separator g)) = some t ∧
      t.caps = [(3, at₃, at₃ + r.replacement.length), (1, at₁, at₁ + r.pattern.length)] := by
    rw [hrule, first_seq_of_run hbos, first_blanks rfl hg.indent (by decide) (hdash.seq _),
      first_seq_of_run (run_lit rfl),
      first_blanks rfl hg.bullet isSpace_tick (((begins_quoted 1).alt begins_bareOrig).seq _)]
    refine (hsides _ ?_).imp fun t ht => ⟨ht.1, ?_⟩
    · rfl
    · rw [ht.2]
      simp only [St.advance, start, List.length_singleton, Nat.zero_add, at₃, at₁]
  obtain ⟨t, ht, hcaps⟩ := hfirst
  refine ⟨t.pos, ?_⟩
  have hhead : (run ruleRe (start none (bullet r separator g))).head? = some t := ht
  rw [matchText, matcher, hhead, Option.map_some, hcaps]

/-! ## Lines -/

theorem dropWhile_blank {w : PyStr} (hw : ∀ c ∈ w, c.isSpace = true) (s : PyStr) :
    (w ++ s).dropWhile PyChar.isSpace = s.dropWhile PyChar.isSpace := by
  rw [List.dropWhile_append, List.dropWhile_eq_nil_iff.mpr hw]
  rfl

theorem rstrip_blank {w : PyStr} (hw : Blank w) : rstrip PyChar.isSpace w = [] := by
  rw [rstrip, List.reverse_eq_nil_iff, List.dropWhile_eq_nil_iff]
  intro c hc
  exact (hw c (List.mem_reverse.mp hc)).1

/-- What stands in front of a character that is no blank stays. -/
theorem rstrip_append_cons (s : PyStr) {c : PyChar} (hc : c.isSpace = false) (t : PyStr) :
    rstrip PyChar.isSpace (s ++ c :: t) = s ++ c :: rstrip PyChar.isSpace t := by
  have hrest : (c :: s.reverse).dropWhile PyChar.isSpace = c :: s.reverse :=
    List.dropWhile_cons_of_neg (by simp [hc])
  have hrev : (s ++ c :: t).reverse = t.reverse ++ c :: s.reverse := by simp
  rw [rstrip, rstrip, hrev, List.dropWhile_append, hrest]
  split
  · next hempty => simp [List.isEmpty_iff.mp hempty]
  · simp

theorem lstrip_blank {w : PyStr} (hw : Blank w) {c : PyChar} (hc : c.isSpace = false) (s : PyStr) :
    lstrip PyChar.isSpace (w ++ c :: s) = c :: s := by
  rw [lstrip, dropWhile_blank fun d hd => (hw d hd).1, List.dropWhile_cons_of_neg (by simp [hc])]

/-- A capture is the text it spans. -/
theorem groupText_middle {line p q mid : PyStr} (hline : line = p ++ (mid ++ q)) {i n : ℕ}
    {caps : List (ℕ × ℕ × ℕ)} (hcaps : caps.lookup i = some (n, n + mid.length))
    (hn : p.length = n) : groupText line caps i = some mid := by
  subst hn
  simp [groupText, hcaps, hline, slice]

theorem firstText_of_ne_nil {s : PyStr} (hs : s ≠ []) (b : Option PyStr) :
    firstText (some s) b = s := by
  cases s with
  | nil => exact absurd rfl hs
  | cons c s => rfl

theorem parseLine_rule {r : Rule PyChar} {separator : PyChar} {g : Gaps} (hp : Side r.pattern)
    (hr : Side r.replacement) (hsep : isSeparator separator = true) (hg : g.Ok) (lineNo : ℕ) :
    parseLine lineNo (bullet r separator g ++ g.trailing) = .ok (some r) := by
  -- the text behind the bullet, and the line without what trails it
  set sides : PyStr := g.bullet ++ tick :: (r.pattern ++ tick :: (g.before ++ separator ::
    (g.behind ++ tick :: (r.replacement ++ [tick])))) with hsides
  have hbullet : bullet r separator g = g.indent ++ .scalar '-' :: sides := rfl
  have hline : rstrip PyChar.isSpace (bullet r separator g ++ g.trailing) = bullet r separator g := by
    have hend : ∀ w, bullet r separator g ++ w = (g.indent ++ .scalar '-' :: (g.bullet ++ tick ::
        (r.pattern ++ tick :: (g.before ++ separator :: (g.behind ++ tick :: r.replacement))))) ++
          tick :: w := by
      simp [bullet]
    rw [hend, rstrip_append_cons _ isSpace_tick, rstrip_blank hg.trailing, ← hend, List.append_nil]
  have hstripped : lstrip PyChar.isSpace (bullet r separator g) = .scalar '-' :: sides := by
    rw [hbullet, lstrip_blank hg.indent (by decide)]
  have hcomment : ¬("#".py <+: .scalar '-' :: sides ∨ "<!--".py <+: .scalar '-' :: sides) := by
    rintro (h | h)
    · simp [List.cons_prefix_cons] at h
    · simp [List.cons_prefix_cons] at h
  have harrow : ¬("->".py <:+: .scalar '-' :: sides ∧ .scalar '=' ∉ .scalar '-' :: sides ∧
      .scalar '→' ∉ .scalar '-' :: sides) := by
    have hmem : separator ∈ PyChar.scalar '-' :: sides := by simp [hsides]
    rintro ⟨-, heq, hto⟩
    rcases Bool.or_eq_true _ _ ▸ hsep with h | h
    · exact heq (eq_of_beq h ▸ hmem)
    · exact hto (eq_of_beq h ▸ hmem)
  obtain ⟨n, hmatch⟩ := first_ruleRe hp hr hsep hg
  have horig : ∀ p q, groupText (bullet r separator g) [(3, p, q), (1,
      g.indent.length + 1 + g.bullet.length + 1,
      g.indent.length + 1 + g.bullet.length + 1 + r.pattern.length)] 1 = some r.pattern := by
    intro p q
    refine groupText_middle (p := g.indent ++ .scalar '-' :: (g.bullet ++ [tick]))
      (q := tick :: (g.before ++ separator :: (g.behind ++ tick :: (r.replacement ++ [tick])))) ?_ rfl ?_
    · simp [bullet]
    · simp
      omega
  have hrep : ∀ caps, groupText (bullet r separator g) ((3,
      g.indent.length + 1 + g.bullet.length + 1 + r.pattern.length + 1 + g.before.length + 1 +
        g.behind.length + 1,
      g.indent.length + 1 + g.bullet.length + 1 + r.pattern.length + 1 + g.before.length + 1 +
        g.behind.length + 1 + r.replacement.length) :: caps) 3 = some r.replacement := by
    intro caps
    refine groupText_middle (p := g.indent ++ .scalar '-' :: (g.bullet ++ tick ::
      (r.pattern ++ tick :: (g.before ++ separator :: (g.behind ++ [tick]))))) (q := [tick]) ?_ rfl ?_
    · simp [bullet]
    · simp
      omega
  rw [parseLine]
  simp only [hline, hstripped, hcomment, harrow, hmatch, horig, hrep, firstText_of_ne_nil hp.ne_nil,
    firstText_of_ne_nil hr.ne_nil, hp.strip, hr.strip, reduceCtorEq, if_false, hp.ne_nil, hr.ne_nil,
    or_self]

theorem parseLine_blank {s : PyStr} (hs : Blank s) (lineNo : ℕ) : parseLine lineNo s = .ok none := by
  rw [parseLine, rstrip_blank hs]
  rfl

theorem parseLine_comment {indent : PyStr} (hindent : Blank indent) (text : PyStr) (lineNo : ℕ) :
    parseLine lineNo (indent ++ .scalar '#' :: text) = .ok none := by
  have hhash : PyChar.isSpace (.scalar '#') = false := by decide
  have hcomment : "#".py <+: .scalar '#' :: rstrip PyChar.isSpace text := by simp
  rw [parseLine, rstrip_append_cons _ hhash, lstrip_blank hindent hhash, if_neg (by simp),
    if_pos (Or.inl hcomment)]

/-- A line of a listing is read as its rule, or skipped. -/
theorem parseLine_text {l : Line} (hl : l.Ok) (lineNo : ℕ) : parseLine lineNo l.text = .ok l.rule? := by
  cases l with
  | rule r separator g => exact parseLine_rule hl.1 hl.2.1 hl.2.2.1 hl.2.2.2 lineNo
  | blank s => exact parseLine_blank hl lineNo
  | comment indent text => exact parseLine_comment hl.1 text lineNo

theorem parseLines_text {lines : List Line} (hlines : ∀ l ∈ lines, l.Ok) (lineNo : ℕ) :
    parseLines lineNo (lines.map Line.text) = .ok (lines.filterMap Line.rule?) := by
  induction lines generalizing lineNo with
  | nil => rfl
  | cons l lines ih =>
    obtain ⟨hl, hlines⟩ := List.forall_mem_cons.mp hlines
    rw [List.map_cons, parseLines, parseLine_text hl, ih hlines]
    simp only [bind, Except.bind]
    cases hrule : l.rule? with
    | none => simp [hrule]
    | some r => simp [hrule]

/-! ## Files -/

/-- The text of a line stays on the line. -/
theorem Line.Ok.breaks {l : Line} (hl : l.Ok) : ∀ c ∈ l.text, isLineBreak c = false := by
  have hblank : ∀ {w : PyStr}, Blank w → ∀ c ∈ w, isLineBreak c = false := fun hw c hc => (hw c hc).2
  have htick : isLineBreak Rules.tick = false := by decide
  cases l with
  | rule r separator g =>
    obtain ⟨hp, hr, hsep, hg⟩ := hl
    have hseparator : isLineBreak separator = false := by
      rcases Bool.or_eq_true _ _ ▸ hsep with h | h
      · rw [eq_of_beq h]
        decide
      · rw [eq_of_beq h]
        decide
    simp only [Line.text, bullet, List.forall_mem_append, List.forall_mem_cons]
    exact ⟨⟨hblank hg.indent, by decide, hblank hg.bullet, htick, hp.breaks, htick, hblank hg.before,
      hseparator, hblank hg.behind, htick, hr.breaks, htick, by simp⟩, hblank hg.trailing⟩
  | blank s => exact hblank hl
  | comment indent text =>
    simp only [Line.text, List.forall_mem_append, List.forall_mem_cons]
    exact ⟨hblank hl.1, by decide, hl.2⟩

/-- Lines that are each ended by a newline are found again; behind the last newline only a
text that is not empty is one more line. -/
theorem splitlines_ended {newline : PyStr} (hnewline : newline = "\r\n".py ∨ newline = "\n".py)
    {lines : List PyStr} (hlines : ∀ l ∈ lines, ∀ c ∈ l, isLineBreak c = false) {last : PyStr}
    (hlast : ∀ c ∈ last, isLineBreak c = false) :
    splitlines (lines.flatMap (· ++ newline) ++ last) =
      lines ++ if last = [] then [] else [last] := by
  have hread : ∀ {l s : PyStr}, (∀ c ∈ l, isLineBreak c = false) →
      splitlines (l ++ s) = linesFrom isLineBreak l s := by
    intro l s hl
    refine linesFrom_append fun c hc => ⟨?_, hl c hc⟩
    by_contra hnl
    have hcase := Bool.or_eq_true _ _ ▸ Bool.not_eq_false _ ▸ hnl
    rcases hcase with h | h
    · exact absurd (hl c hc) (by rw [eq_of_beq h]; decide)
    · exact absurd (hl c hc) (by rw [eq_of_beq h]; decide)
  induction lines with
  | nil =>
    have := hread (s := []) hlast
    rw [List.append_nil] at this
    simpa [linesFrom] using this
  | cons l lines ih =>
    obtain ⟨hl, hlines⟩ := List.forall_mem_cons.mp hlines
    rw [List.flatMap_cons, List.append_assoc, List.append_assoc, hread hl,
      linesFrom_sep (by decide) hnewline]
    exact congrArg (l :: ·) (ih hlines)

/-- A file whose last line is not ended. -/
theorem parse_ended {newline : PyStr} (hnewline : newline = "\r\n".py ∨ newline = "\n".py)
    {lines : List Line} (hlines : ∀ l ∈ lines, l.Ok) {last : Line} (hlast : last.Ok) :
    parse ((lines.map Line.text).flatMap (· ++ newline) ++ last.text) =
      .ok ((lines ++ [last]).filterMap Line.rule?) := by
  have hbreaks : ∀ l ∈ lines.map Line.text, ∀ c ∈ l, isLineBreak c = false := by
    intro l hl
    obtain ⟨line, hline, rfl⟩ := List.mem_map.mp hl
    exact (hlines line hline).breaks
  rw [parse, splitlines_ended hnewline hbreaks hlast.breaks]
  split
  · next hempty =>
    -- the empty line behind the last newline is not seen, and it has no rule
    have hrule : last.rule? = none := by
      have hskip := parseLine_text hlast 0
      rw [hempty] at hskip
      exact (Except.ok.inj hskip).symm
    rw [List.append_nil, parseLines_text hlines]
    simp [hrule]
  · have hall : ∀ l ∈ lines ++ [last], l.Ok := by
      intro l hl
      rcases List.mem_append.mp hl with hl | hl
      · exact hlines l hl
      · rwa [List.mem_singleton.mp hl]
    rw [← parseLines_text hall 1]
    simp

theorem intercalate_concat (newline : PyStr) (lines : List PyStr) (last : PyStr) :
    newline.intercalate (lines ++ [last]) = lines.flatMap (· ++ newline) ++ last := by
  induction lines with
  | nil => simp
  | cons l lines ih =>
    rw [List.cons_append, List.intercalate_cons_of_ne_nil (by simp), ih]
    simp

/-- **The round trip of a rules file**: the lines are read back, whether or not the last one
is ended. -/
theorem parse_listing {lines : List Line} (hlines : ∀ l ∈ lines, l.Ok) {newline : PyStr}
    (hnewline : newline = "\r\n".py ∨ newline = "\n".py) :
    parse (lines.flatMap fun l => l.text ++ newline) = .ok (lines.filterMap Line.rule?) ∧
      parse (newline.intercalate (lines.map Line.text)) = .ok (lines.filterMap Line.rule?) := by
  constructor
  · have hblank : (Line.blank []).Ok := fun c hc => absurd hc List.not_mem_nil
    have hended := parse_ended hnewline hlines hblank
    have hrules : (lines ++ [Line.blank []]).filterMap Line.rule? = lines.filterMap Line.rule? := by
      rw [List.filterMap_append]
      exact List.append_nil _
    rw [hrules, List.flatMap_map] at hended
    simpa only [Line.text, List.append_nil] using hended
  · rcases List.eq_nil_or_concat' lines with rfl | ⟨init, last, rfl⟩
    · rfl
    · have hinit : ∀ l ∈ init, l.Ok := fun l hl => hlines l (by simp [hl])
      have hlast : last.Ok := hlines last (by simp)
      rw [List.map_append, List.map_singleton, intercalate_concat, parse_ended hnewline hinit hlast]

/-- Separators inside a side, an ascii arrow, a comment and a blank line. -/
theorem parse_listing_arrows :
    let lines : List Line := [.comment [] " names".py,
      .rule ⟨"a = b -> c".py, "→".py⟩ (.scalar '=') {}, .blank [],
      .rule ⟨"#".py, "=".py⟩ (.scalar '→') { bullet := [], trailing := " ".py }]
    (∀ l ∈ lines, l.Ok) ∧ parse (lines.flatMap fun l => l.text ++ "\n".py) =
      .ok [⟨"a = b -> c".py, "→".py⟩, ⟨"#".py, "=".py⟩] := by
  intro lines
  have hlines : ∀ l ∈ lines, l.Ok := by decide +kernel
  exact ⟨hlines, (parse_listing hlines (.inr rfl)).1⟩

end CorpLlmGateway.Rules
