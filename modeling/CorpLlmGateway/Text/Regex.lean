import CorpLlmGateway.Text.Literal
import CorpLlmGateway.Text.Unicode

/-!
# Backtracking regular expressions

A regular-expression engine with the semantics of a backtracking matcher: `run`
lists every way a pattern can match from a state, in the order in which a
backtracking engine tries them, and the match is the first of the list. Greedy
and lazy repetition differ only in that order. Tests that consume nothing (word
boundaries, one-character lookaround, anchors) see the previous character and
the rest of the text.

The order of the list never matters for *what* can match: `mem_run_*` say which
states a pattern reaches, and `run_step` says once what every run does.
-/

namespace Regex

open TextScan

/-! ## Patterns -/

/-- Patterns. The body of a repetition must not match the empty text. -/
inductive Pat (χ : Type := Char) where
  | eps
  | chr (p : χ → Bool)
  | seq (a b : Pat χ)
  | alt (a b : Pat χ)
  | rep (greedy : Bool) (lo : ℕ) (hi : Option ℕ) (a : Pat χ)
  | group (i : ℕ) (a : Pat χ)
  | look (p : Option χ → List χ → Bool)

namespace Pat

section

variable {χ : Type}

/-- The character `c`. -/
def lit [DecidableEq χ] (c : χ) : Pat χ := chr fun d => c == d

def seqs : List (Pat χ) → Pat χ
  | [] => eps
  | [a] => a
  | a :: as => seq a (seqs as)

def alts : List (Pat χ) → Pat χ
  | [] => look fun _ _ => false
  | [a] => a
  | a :: as => alt a (alts as)

def star (a : Pat χ) : Pat χ := rep true 0 none a
def plus (a : Pat χ) : Pat χ := rep true 1 none a
def opt (a : Pat χ) : Pat χ := rep true 0 (some 1) a
def times (n : ℕ) (a : Pat χ) : Pat χ := rep true n (some n) a
def between (lo hi : ℕ) (a : Pat χ) : Pat χ := rep true lo (some hi) a
def atLeast (lo : ℕ) (a : Pat χ) : Pat χ := rep true lo none a

/-- `(?<![...])` for a class of single characters. -/
def notBehind (p : χ → Bool) : Pat χ := look fun prev _ => !prev.any p

/-- `(?![...])` for a class of single characters. -/
def notAhead (p : χ → Bool) : Pat χ := look fun _ rest => !rest.head?.any p

/-- `^`. -/
def bos : Pat χ := look fun prev _ => prev.isNone

end

/-- The character `c` in either case. -/
def ilit (c : Char) : Pat := chr fun d => Unicode.eqIgnoreCase c d

/-- One of the characters of `s`, or of the classes `ps`. -/
def cls (s : String) (ps : List (Char → Bool)) : Pat :=
  chr fun d => s.toList.contains d || ps.any fun p => p d

/-- None of the characters of `s` and of the classes `ps`. -/
def notCls (s : String) (ps : List (Char → Bool)) : Pat :=
  chr fun d => !(s.toList.contains d || ps.any fun p => p d)

/-- A fixed text. -/
def str (s : String) : Pat := seqs (s.toList.map lit)

/-- A fixed text in any mixture of cases. -/
def istr (s : String) : Pat := seqs (s.toList.map ilit)

/-- `\b`. -/
def wordBoundary : Pat := look fun prev rest =>
  (prev.any Unicode.isWord) != (rest.head?.any Unicode.isWord)

/-- `$`: the end of the text, or the line feed that ends it. -/
def eos : Pat := look fun _ rest => rest == [] || rest == ['\n']

end Pat

/-! ## The engine -/

variable {χ : Type}

/-- A matching state: characters consumed so far, the previous character, the
text still to be read, and the captures, latest first. -/
structure St (χ : Type := Char) where
  pos : ℕ
  prev : Option χ
  rest : List χ
  caps : List (ℕ × ℕ × ℕ)
deriving DecidableEq, Repr

/-- Consume the text `u` and leave `rest`. -/
def St.advance (s : St χ) (u rest : List χ) : St χ :=
  { s with pos := s.pos + u.length, prev := u.getLast?.or s.prev, rest := rest }

theorem St.advance_advance (s : St χ) (u v rest rest' : List χ) :
    (s.advance u rest).advance v rest' = s.advance (u ++ v) rest' := by
  simp [St.advance, List.getLast?_append, Option.or_assoc, Nat.add_assoc]

/-- The iterations of a repetition: `fuel` bounds their number. -/
def repLoop (step : St χ → List (St χ)) (greedy : Bool) : ℕ → ℕ → Option ℕ → St χ → List (St χ)
  | 0, _, _, _ => []
  | fuel + 1, lo, hi, s =>
      let more := if hi = some 0 then []
        else (step s).flatMap fun t => repLoop step greedy fuel (lo - 1) (hi.map (· - 1)) t
      if 0 < lo then more else if greedy then more ++ [s] else s :: more

/-- Every way to match a pattern from a state, in the order of the search. -/
def run : Pat χ → St χ → List (St χ)
  | .eps, s => [s]
  | .chr p, s =>
      match s.rest with
      | c :: cs => if p c then [s.advance [c] cs] else []
      | [] => []
  | .seq a b, s => (run a s).flatMap (run b)
  | .alt a b, s => run a s ++ run b s
  | .rep greedy lo hi a, s => repLoop (run a) greedy (lo + s.rest.length + 1) lo hi s
  | .group i a, s => (run a s).map fun t => { t with caps := (i, s.pos, t.pos) :: t.caps }
  | .look p, s => if p s.prev s.rest then [s] else []

/-- The state in which a match starts. -/
def start (prev : Option χ) (text : List χ) : St χ := ⟨0, prev, text, []⟩

/-- A pattern as a matcher; the captures are relative to the start of the match. -/
def matcher (a : Pat χ) : Matcher χ (List (ℕ × ℕ × ℕ)) := fun prev after =>
  (run a (start prev after)).head?.map fun t => (t.pos, t.caps)

/-- `pattern.match(text)`: the first match at the start of the text. -/
def matchText (a : Pat χ) (text : List χ) : Option (ℕ × List (ℕ × ℕ × ℕ)) := matcher a none text

/-- `pattern.fullmatch(text)`: the first match that ends at the end of the text. -/
def fullMatch (a : Pat χ) (text : List χ) : Option (ℕ × List (ℕ × ℕ × ℕ)) :=
  ((run a (start none text)).find? fun t => t.rest.isEmpty).map fun t => (t.pos, t.caps)

/-- The absolute range of group `i` in a hit; group 0 is the whole match. -/
def span (h : Hit (List (ℕ × ℕ × ℕ))) (i : ℕ) : Option (ℕ × ℕ) :=
  if i = 0 then some (h.start, h.stop)
  else (h.val.lookup i).map fun r => (h.start + r.1, h.start + r.2)

/-! ## What a run reaches -/

theorem mem_run_chr {p : χ → Bool} {s t : St χ} :
    t ∈ run (.chr p) s ↔ ∃ c cs, s.rest = c :: cs ∧ p c = true ∧ t = s.advance [c] cs := by
  cases hs : s.rest with
  | nil => simp [run, hs]
  | cons c cs =>
    by_cases hp : p c = true
    · simp [run, hs, hp]
    · simp [run, hs, hp]

theorem mem_run_seq {a b : Pat χ} {s t : St χ} :
    t ∈ run (.seq a b) s ↔ ∃ x ∈ run a s, t ∈ run b x := by
  simp [run]

theorem mem_run_alt {a b : Pat χ} {s t : St χ} :
    t ∈ run (.alt a b) s ↔ t ∈ run a s ∨ t ∈ run b s := by
  simp [run]

theorem mem_run_group {i : ℕ} {a : Pat χ} {s t : St χ} :
    t ∈ run (.group i a) s ↔
      ∃ x ∈ run a s, t = { x with caps := (i, s.pos, x.pos) :: x.caps } := by
  simp [run, eq_comm]

theorem mem_run_look {p : Option χ → List χ → Bool} {s t : St χ} :
    t ∈ run (.look p) s ↔ p s.prev s.rest = true ∧ t = s := by
  by_cases hp : p s.prev s.rest = true
  · simp [run, hp]
  · simp [run, hp]

/-- One more iteration, or the end of the repetition: the order is forgotten. -/
theorem mem_repLoop_succ {step : St χ → List (St χ)} {greedy : Bool} {fuel lo : ℕ} {hi : Option ℕ}
    {s t : St χ} :
    t ∈ repLoop step greedy (fuel + 1) lo hi s ↔
      (lo = 0 ∧ t = s) ∨
      (hi ≠ some 0 ∧ ∃ x ∈ step s, t ∈ repLoop step greedy fuel (lo - 1) (hi.map (· - 1)) x) := by
  rcases Nat.eq_zero_or_pos lo with rfl | hlo
  · by_cases hhi : hi = some 0
    · cases greedy <;> simp [repLoop, hhi]
    · cases greedy <;> simp [repLoop, hhi, or_comm]
  · by_cases hhi : hi = some 0
    · simp [repLoop, hhi, hlo, Nat.pos_iff_ne_zero.mp hlo]
    · simp [repLoop, hhi, hlo, Nat.pos_iff_ne_zero.mp hlo]

/-- Repeating one character: the text consumed is a block of such characters of
an allowed length. -/
theorem mem_repLoop_chr {p : χ → Bool} {greedy : Bool} {t : St χ} (fuel lo : ℕ) (hi : Option ℕ)
    (s : St χ) (hfuel : s.rest.length < fuel) :
    t ∈ repLoop (run (.chr p)) greedy fuel lo hi s ↔
      ∃ u rest, s.rest = u ++ rest ∧ (∀ c ∈ u, p c = true) ∧ lo ≤ u.length ∧
        (∀ h, hi = some h → u.length ≤ h) ∧ t = s.advance u rest := by
  induction fuel generalizing lo hi s with
  | zero => exact absurd hfuel (Nat.not_lt_zero _)
  | succ fuel ih =>
    rw [mem_repLoop_succ]
    constructor
    · rintro (⟨rfl, rfl⟩ | ⟨hhi, x, hx, ht⟩)
      · exact ⟨[], t.rest, by simp, by simp, by simp, by simp, by simp [St.advance]⟩
      · rcases mem_run_chr.mp hx with ⟨c, cs, hs, hp, rfl⟩
        have hlen : (s.advance [c] cs).rest.length < fuel := by
          have : s.rest.length = cs.length + 1 := by simp [hs]
          simp only [St.advance]
          omega
        rcases (ih _ _ _ hlen).mp ht with ⟨u, rest, hu, hall, hlo, hle, rfl⟩
        refine ⟨c :: u, rest, ?_, ?_, ?_, ?_, ?_⟩
        · simpa [St.advance, hs] using hu
        · intro d hd
          rcases List.mem_cons.mp hd with rfl | hd
          · exact hp
          · exact hall d hd
        · simp only [List.length_cons]
          omega
        · intro h hh
          subst hh
          have h1 := hle (h - 1) rfl
          have h0 : h ≠ 0 := fun h0 => hhi (by rw [h0])
          simp only [List.length_cons]
          omega
        · exact St.advance_advance s [c] u cs rest
    · rintro ⟨u, rest, hu, hall, hlo, hle, rfl⟩
      cases u with
      | nil =>
        left
        refine ⟨by simpa using hlo, ?_⟩
        have : s.rest = rest := by simpa using hu
        simp [St.advance, ← this]
      | cons c u =>
        right
        refine ⟨?_, s.advance [c] (u ++ rest), ?_, ?_⟩
        · intro h0
          exact absurd (hle 0 h0) (by simp)
        · exact mem_run_chr.mpr ⟨c, u ++ rest, by simpa using hu, hall c (by simp), rfl⟩
        · have hlen : (s.advance [c] (u ++ rest)).rest.length < fuel := by
            have : s.rest.length = (u ++ rest).length + 1 := by simp [hu]
            simp only [St.advance]
            omega
          rw [ih _ _ _ hlen]
          refine ⟨u, rest, rfl, fun d hd => hall d (by simp [hd]), ?_, ?_, ?_⟩
          · simp only [List.length_cons] at hlo
            omega
          · intro h hh
            rcases Option.map_eq_some_iff.mp hh with ⟨k, hk, rfl⟩
            have := hle k hk
            simp only [List.length_cons] at this
            omega
          · exact (St.advance_advance s [c] u (u ++ rest) rest).symm

theorem mem_run_rep_chr {p : χ → Bool} {greedy : Bool} {lo : ℕ} {hi : Option ℕ} {s t : St χ} :
    t ∈ run (.rep greedy lo hi (.chr p)) s ↔
      ∃ u rest, s.rest = u ++ rest ∧ (∀ c ∈ u, p c = true) ∧ lo ≤ u.length ∧
        (∀ h, hi = some h → u.length ≤ h) ∧ t = s.advance u rest :=
  mem_repLoop_chr _ lo hi s (by omega)

/-- A fixed text matches in one way. -/
theorem run_lits [DecidableEq χ] (l : List χ) (s : St χ) :
    run (Pat.seqs (l.map Pat.lit)) s =
      if l <+: s.rest then [s.advance l (s.rest.drop l.length)] else [] := by
  have hchr : ∀ (c : χ) (s : St χ), run (Pat.lit c) s =
      if [c] <+: s.rest then [s.advance [c] (s.rest.drop 1)] else [] := by
    intro c s
    cases hs : s.rest with
    | nil => simp [Pat.lit, run, hs]
    | cons d ds =>
      by_cases hcd : c = d
      · simp [Pat.lit, run, hs, hcd]
      · simp [Pat.lit, run, hs, hcd]
  induction l generalizing s with
  | nil => simp [Pat.seqs, run, St.advance]
  | cons c l ih =>
    cases l with
    | nil => exact hchr c s
    | cons d l =>
      rw [List.map_cons, List.map_cons, Pat.seqs, run, hchr, ← List.map_cons]
      · cases hs : s.rest with
        | nil => simp
        | cons e es =>
          by_cases hce : c = e
          · subst hce
            have hrest : (s.advance [c] es).rest = es := rfl
            rw [if_pos (by simp), List.flatMap_cons, List.flatMap_nil, List.append_nil, ih,
              List.drop_succ_cons, List.drop_zero, hrest, St.advance_advance]
            by_cases hpre : d :: l <+: es <;> simp [hpre]
          · simp [hce]
      · simp

/-! ## What every run does -/

/-- What a run can do to a state: it consumes a piece of the text, and every
capture it adds lies inside that piece. -/
structure Step (s t : St χ) : Prop where
  consumes : ∃ u, s.rest = u ++ t.rest ∧ t.pos = s.pos + u.length
  caps : ∀ r ∈ t.caps, r ∈ s.caps ∨ (s.pos ≤ r.2.1 ∧ r.2.1 ≤ r.2.2 ∧ r.2.2 ≤ t.pos)

theorem Step.refl (s : St χ) : Step s s := ⟨⟨[], by simp, by simp⟩, fun _ h => Or.inl h⟩

theorem Step.pos_le {s t : St χ} (h : Step s t) : s.pos ≤ t.pos := by
  rcases h.consumes with ⟨u, _, hu⟩
  omega

theorem Step.trans {s t x : St χ} (h : Step s t) (h' : Step t x) : Step s x := by
  have hst := h.pos_le
  have htx := h'.pos_le
  rcases h.consumes with ⟨u, hu, hup⟩
  rcases h'.consumes with ⟨v, hv, hvp⟩
  refine ⟨⟨u ++ v, by simp [hu, hv], by simp only [List.length_append]; omega⟩, ?_⟩
  intro r hr
  rcases h'.caps r hr with hr' | hr'
  · rcases h.caps r hr' with hr'' | hr''
    · exact Or.inl hr''
    · exact Or.inr ⟨hr''.1, hr''.2.1, by omega⟩
  · exact Or.inr ⟨by omega, hr'.2.1, hr'.2.2⟩

theorem repLoop_step {step : St χ → List (St χ)} {greedy : Bool}
    (hstep : ∀ s, ∀ t ∈ step s, Step s t) (fuel lo : ℕ) (hi : Option ℕ) (s t : St χ)
    (ht : t ∈ repLoop step greedy fuel lo hi s) : Step s t := by
  induction fuel generalizing lo hi s with
  | zero => simp [repLoop] at ht
  | succ fuel ih =>
    rcases mem_repLoop_succ.mp ht with ⟨_, rfl⟩ | ⟨_, x, hx, hx'⟩
    · exact Step.refl t
    · exact (hstep s x hx).trans (ih _ _ x hx')

/-- Every run is a step. -/
theorem run_step (a : Pat χ) : ∀ s, ∀ t ∈ run a s, Step s t := by
  induction a with
  | eps =>
    intro s t ht
    simp only [run, List.mem_singleton] at ht
    exact ht ▸ Step.refl s
  | chr p =>
    intro s t ht
    rcases mem_run_chr.mp ht with ⟨c, cs, hs, _, rfl⟩
    exact ⟨⟨[c], by simp [hs, St.advance], by simp [St.advance]⟩, fun _ h => Or.inl h⟩
  | seq a b iha ihb =>
    intro s t ht
    rcases mem_run_seq.mp ht with ⟨x, hx, hx'⟩
    exact (iha s x hx).trans (ihb x t hx')
  | alt a b iha ihb =>
    intro s t ht
    rcases mem_run_alt.mp ht with h | h
    · exact iha s t h
    · exact ihb s t h
  | rep greedy lo hi a iha =>
    intro s t ht
    exact repLoop_step iha _ lo hi s t ht
  | group i a iha =>
    intro s t ht
    rcases mem_run_group.mp ht with ⟨x, hx, rfl⟩
    have hs := iha s x hx
    refine ⟨hs.consumes, fun r hr => ?_⟩
    rcases List.mem_cons.mp hr with rfl | hr
    · exact Or.inr ⟨le_rfl, hs.pos_le, le_rfl⟩
    · exact hs.caps r hr
  | look p =>
    intro s t ht
    rw [(mem_run_look.mp ht).2]
    exact Step.refl s

/-- Every match of the pattern consumes a character. -/
def Pat.consumes : Pat χ → Bool
  | .eps => false
  | .chr _ => true
  | .seq a b => a.consumes || b.consumes
  | .alt a b => a.consumes && b.consumes
  | .rep _ lo _ a => 0 < lo && a.consumes
  | .group _ a => a.consumes
  | .look _ => false

theorem run_consumes (a : Pat χ) (ha : a.consumes = true) : ∀ s, ∀ t ∈ run a s, s.pos < t.pos := by
  induction a with
  | eps => simp [Pat.consumes] at ha
  | chr p =>
    intro s t ht
    rcases mem_run_chr.mp ht with ⟨c, cs, _, _, rfl⟩
    simp [St.advance]
  | seq a b iha ihb =>
    intro s t ht
    rcases mem_run_seq.mp ht with ⟨x, hx, hx'⟩
    have hsx := (run_step a s x hx).pos_le
    have hxt := (run_step b x t hx').pos_le
    rcases Bool.or_eq_true_iff.mp ha with ha | hb
    · have := iha ha s x hx
      omega
    · have := ihb hb x t hx'
      omega
  | alt a b iha ihb =>
    intro s t ht
    rcases (Bool.and_eq_true_iff.mp ha) with ⟨ha, hb⟩
    rcases mem_run_alt.mp ht with h | h
    · exact iha ha s t h
    · exact ihb hb s t h
  | rep greedy lo hi a iha =>
    intro s t ht
    rcases (Bool.and_eq_true_iff.mp ha) with ⟨hlo, ha⟩
    rcases mem_repLoop_succ.mp ht with ⟨h0, _⟩ | ⟨_, x, hx, hx'⟩
    · exact absurd (of_decide_eq_true hlo) (by omega)
    · have hxt := (repLoop_step (run_step a) _ _ _ x t hx').pos_le
      have := iha ha s x hx
      omega
  | group i a iha =>
    intro s t ht
    rcases mem_run_group.mp ht with ⟨x, hx, rfl⟩
    exact iha ha s x hx
  | look p => simp [Pat.consumes] at ha

theorem matcher_proper {a : Pat χ} (ha : a.consumes = true) : (matcher a).Proper := by
  intro prev after n v h
  rcases Option.map_eq_some_iff.mp h with ⟨t, ht, heq⟩
  have hpos := run_consumes a ha _ t (List.mem_of_head? ht)
  simp only [Prod.mk.injEq] at heq
  simp only [start] at hpos
  omega

theorem matcher_sound (a : Pat χ) : (matcher a).Sound := by
  intro prev after n v h
  rcases Option.map_eq_some_iff.mp h with ⟨t, ht, heq⟩
  rcases (run_step a _ t (List.mem_of_head? ht)).consumes with ⟨u, hu, hpos⟩
  simp only [Prod.mk.injEq] at heq
  have hlen := congrArg List.length hu
  simp only [start, List.length_append] at hlen hpos
  omega

/-- A matcher answers with a state its pattern reaches. -/
theorem exists_of_matcher {a : Pat χ} {prev : Option χ} {after : List χ} {n : ℕ}
    {v : List (ℕ × ℕ × ℕ)} (h : matcher a prev after = some (n, v)) :
    ∃ t ∈ run a (start prev after), t.pos = n ∧ t.caps = v := by
  rcases Option.map_eq_some_iff.mp h with ⟨t, ht, heq⟩
  simp only [Prod.mk.injEq] at heq
  exact ⟨t, List.mem_of_head? ht, heq.1, heq.2⟩

/-- When all the ways to match agree on a result, the first one gives it. -/
theorem matcher_eq_some {a : Pat χ} {prev : Option χ} {after : List χ} {n : ℕ}
    {v : List (ℕ × ℕ × ℕ)} (hex : ∃ t, t ∈ run a (start prev after))
    (hall : ∀ t ∈ run a (start prev after), t.pos = n ∧ t.caps = v) :
    matcher a prev after = some (n, v) := by
  rcases hex with ⟨t, ht⟩
  cases hl : run a (start prev after) with
  | nil => simp [hl] at ht
  | cons x xs =>
    have hx := hall x (by simp [hl])
    simp [matcher, hl, hx]

/-- The groups of a hit lie inside it. -/
theorem span_bounds {a : Pat χ} {text : List χ} {h : Hit (List (ℕ × ℕ × ℕ))} {i b e : ℕ}
    (hh : h ∈ finditer (matcher a) text) (hs : span h i = some (b, e)) :
    h.start ≤ b ∧ b ≤ e ∧ e ≤ h.stop ∧ h.stop ≤ text.length := by
  have hstop := (matcher_sound a).stop_le hh
  rcases mem_finditer hh with ⟨_, hle, hat⟩
  unfold span at hs
  split at hs
  · simp only [Option.some.injEq, Prod.mk.injEq] at hs
    omega
  · rcases Option.map_eq_some_iff.mp hs with ⟨r, hr, heq⟩
    rcases exists_of_matcher hat with ⟨t, ht, hpos, hcaps⟩
    have hmem : (i, r) ∈ t.caps := by
      rw [hcaps]
      rcases List.lookup_eq_some_iff.mp hr with ⟨l₁, l₂, hl, _⟩
      simp [hl]
    rcases (run_step a _ t ht).caps _ hmem with hc | hc
    · simp [start] at hc
    · simp only [Prod.mk.injEq] at heq
      simp only [start] at hc
      omega

end Regex
