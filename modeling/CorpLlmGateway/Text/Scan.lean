import Mathlib

/-!
# Left-to-right scanning

The search operations of a string library, over an arbitrary alphabet. A
`Matcher` answers, from the character before a position and the text after it,
whether a match starts there. `finditer` collects the matches of one
left-to-right pass in which a match consumes what it covers, `sub` rewrites
them, and `splice` rewrites a given list of hits.

* `mem_finditer` — every hit is a match at its own position;
* `finditer_pairwise` — the hits are strictly ordered and disjoint;
* `finditer_complete` — a position where the matcher succeeds is either a hit
  or is covered by an earlier one;
* `sub_eq_splice` — rewriting during the pass is rewriting the hits.
-/

namespace TextScan

variable {α β : Type}

/-- A matcher sees the character before a position and the text after it; it
answers with the length of the match that starts there and its captures. -/
abbrev Matcher (α β : Type) := Option α → List α → Option (ℕ × β)

/-- A match found by a scan: the half-open range `[start, stop)`. -/
structure Hit (β : Type) where
  start : ℕ
  stop : ℕ
  val : β
deriving DecidableEq, Repr

/-- The slice `text[a:b]`. -/
def slice (text : List α) (a b : ℕ) : List α := (text.drop a).take (b - a)

/-- `text.lstrip()`, `text.rstrip()` and `text.strip()` for a class of white space. -/
def lstrip (space : α → Bool) (text : List α) : List α := text.dropWhile space

def rstrip (space : α → Bool) (text : List α) : List α := (text.reverse.dropWhile space).reverse

def strip (space : α → Bool) (text : List α) : List α := rstrip space (lstrip space text)

theorem strip_eq_self {space : α → Bool} {text : List α} (h : ∀ c ∈ text, space c = false) :
    strip space text = text := by
  have hkept : ∀ s : List α, (∀ c ∈ s, space c = false) → s.dropWhile space = s := by
    intro s hs
    cases s with
    | nil => rfl
    | cons c s => rw [List.dropWhile_cons_of_neg (by simp [hs c List.mem_cons_self])]
  rw [strip, lstrip, rstrip, hkept text h, hkept _ fun c hc => h c (List.mem_reverse.mp hc),
    List.reverse_reverse]

/-- The character before position `i`. -/
def prevAt (text : List α) (i : ℕ) : Option α := (text.take i).getLast?

/-- The matcher at position `i` of a text. -/
def Matcher.at (m : Matcher α β) (text : List α) (i : ℕ) : Option (ℕ × β) :=
  m (prevAt text i) (text.drop i)

/-- A matcher is sound when a match never reaches past the text. -/
def Matcher.Sound (m : Matcher α β) : Prop :=
  ∀ prev after n v, m prev after = some (n, v) → n ≤ after.length

/-- A matcher is proper when its matches are not empty. -/
def Matcher.Proper (m : Matcher α β) : Prop :=
  ∀ prev after n v, m prev after = some (n, v) → 0 < n

/-! ## The scan -/

/-- The pass from position `pos`; `skip` characters still belong to the last
match. An empty match is reported and the pass moves on by one character. -/
def scanFrom (m : Matcher α β) : ℕ → ℕ → Option α → List α → List (Hit β)
  | pos, 0, prev, [] =>
      match m prev [] with
      | some (n, v) => [⟨pos, pos + n, v⟩]
      | none => []
  | _, _ + 1, _, [] => []
  | pos, 0, prev, c :: cs =>
      match m prev (c :: cs) with
      | some (n, v) => ⟨pos, pos + n, v⟩ :: scanFrom m (pos + 1) (n - 1) (some c) cs
      | none => scanFrom m (pos + 1) 0 (some c) cs
  | pos, skip + 1, _, c :: cs => scanFrom m (pos + 1) skip (some c) cs

/-- All matches of one left-to-right pass. -/
def finditer (m : Matcher α β) (text : List α) : List (Hit β) := scanFrom m 0 0 none text

/-- The rewriting pass: each match is replaced by `new` of its captures. -/
def subFrom (m : Matcher α β) (new : β → List α) : ℕ → Option α → List α → List α
  | 0, prev, [] =>
      match m prev [] with
      | some (_, v) => new v
      | none => []
  | _ + 1, _, [] => []
  | 0, prev, c :: cs =>
      match m prev (c :: cs) with
      | some (0, v) => new v ++ c :: subFrom m new 0 (some c) cs
      | some (n + 1, v) => new v ++ subFrom m new n (some c) cs
      | none => c :: subFrom m new 0 (some c) cs
  | skip + 1, _, c :: cs => subFrom m new skip (some c) cs

/-- Rewrite every match of one left-to-right pass. -/
def sub (m : Matcher α β) (new : β → List α) (text : List α) : List α :=
  subFrom m new 0 none text

/-- Rewrite a list of hits, copying the text between them. -/
def spliceFrom (text : List α) (new : β → List α) : ℕ → List (Hit β) → List α
  | cursor, [] => text.drop cursor
  | cursor, h :: hs => slice text cursor h.start ++ new h.val ++ spliceFrom text new h.stop hs

/-- Rewrite a list of hits of `text`. -/
def splice (text : List α) (hits : List (Hit β)) (new : β → List α) : List α :=
  spliceFrom text new 0 hits

/-! ## Slices -/

@[simp] theorem slice_zero (text : List α) (b : ℕ) : slice text 0 b = text.take b := by
  simp [slice]

@[simp] theorem slice_self (text : List α) (a : ℕ) : slice text a a = [] := by
  simp [slice]

theorem slice_length {text : List α} {a b : ℕ} (hab : a ≤ b) (hb : b ≤ text.length) :
    (slice text a b).length = b - a := by
  simp only [slice, List.length_take, List.length_drop]
  omega

/-- Two adjacent slices join. -/
theorem slice_append_slice {text : List α} {a b c : ℕ} (hab : a ≤ b) (hbc : b ≤ c) :
    slice text a b ++ slice text b c = slice text a c := by
  have hsplit : c - a = (b - a) + (c - b) := by omega
  have hdrop : text.drop b = (text.drop a).drop (b - a) := by
    rw [List.drop_drop]
    congr 1
    omega
  unfold slice
  rw [hsplit, List.take_add, hdrop]

theorem slice_append_drop (text : List α) {a b : ℕ} (hab : a ≤ b) :
    slice text a b ++ text.drop b = text.drop a := by
  have hdrop : text.drop b = (text.drop a).drop (b - a) := by
    rw [List.drop_drop]
    congr 1
    omega
  rw [slice, hdrop, List.take_append_drop]

/-- A piece of a slice is a piece of the text. -/
theorem slice_slice {text : List α} {a b x y : ℕ} (hy : a + y ≤ b) :
    slice (slice text a b) x y = slice text (a + x) (a + y) := by
  simp only [slice, List.drop_take, List.take_take, List.drop_drop]
  congr 1
  omega

/-- A prefix of the text from `i` on is the slice of its length. -/
theorem slice_eq_of_prefix_drop {text p : List α} {i : ℕ} (hp : p <+: text.drop i) :
    slice text i (i + p.length) = p := by
  obtain ⟨t, ht⟩ := hp
  simp [slice, ← ht]

/-! ## What a scan finds -/

theorem Matcher.at_append (m : Matcher α β) (pre rest : List α) :
    m.at (pre ++ rest) pre.length = m pre.getLast? rest := by
  simp [Matcher.at, prevAt]

/-- Every hit of the pass from a position is a match of the whole text. -/
theorem mem_scanFrom {m : Matcher α β} {h : Hit β} (pre rest : List α) (skip : ℕ)
    (hh : h ∈ scanFrom m pre.length skip pre.getLast? rest) :
    pre.length + skip ≤ h.start ∧ h.start ≤ (pre ++ rest).length ∧ h.start ≤ h.stop ∧
      m.at (pre ++ rest) h.start = some (h.stop - h.start, h.val) := by
  induction rest generalizing pre skip with
  | nil =>
    cases skip with
    | succ k => simp [scanFrom] at hh
    | zero =>
      cases hm : m pre.getLast? [] with
      | none => simp [scanFrom, hm] at hh
      | some nv =>
        simp only [scanFrom, hm, List.mem_singleton] at hh
        subst hh
        have hat := m.at_append pre []
        rw [hm] at hat
        simpa using hat
  | cons c cs ih =>
    -- the rest of the pass, whatever is still to be skipped
    have next : ∀ k, h ∈ scanFrom m (pre.length + 1) k (some c) cs →
        pre.length + 1 + k ≤ h.start ∧ h.start ≤ (pre ++ c :: cs).length ∧ h.start ≤ h.stop ∧
          m.at (pre ++ c :: cs) h.start = some (h.stop - h.start, h.val) := by
      intro k hk
      have h' := ih (pre ++ [c]) k (by simpa using hk)
      simpa using h'
    cases skip with
    | succ k =>
      have h' := next k (by simpa [scanFrom] using hh)
      exact ⟨by omega, h'.2⟩
    | zero =>
      cases hm : m pre.getLast? (c :: cs) with
      | none =>
        have h' := next 0 (by simpa [scanFrom, hm] using hh)
        exact ⟨by omega, h'.2⟩
      | some nv =>
        simp only [scanFrom, hm, List.mem_cons] at hh
        rcases hh with rfl | hh
        · have hat := m.at_append pre (c :: cs)
          rw [hm] at hat
          simp [hat]
        · have h' := next _ hh
          exact ⟨by omega, h'.2⟩

/-- Every hit is a match at its own position. -/
theorem mem_finditer {m : Matcher α β} {h : Hit β} {text : List α} (hh : h ∈ finditer m text) :
    h.start ≤ text.length ∧ h.start ≤ h.stop ∧
      m.at text h.start = some (h.stop - h.start, h.val) := by
  have h' := mem_scanFrom [] text 0 (by simpa [finditer] using hh)
  simpa using h'.2

/-- A hit is determined by its start. -/
theorem hit_eq_of_at {m : Matcher α β} {h : Hit β} {text : List α} (hh : h ∈ finditer m text)
    {n : ℕ} {v : β} (hm : m.at text h.start = some (n, v)) : h = ⟨h.start, h.start + n, v⟩ := by
  rcases mem_finditer hh with ⟨_, hle, hat⟩
  rcases Prod.mk.inj (Option.some.inj (hat.symm.trans hm)) with ⟨hlen, hval⟩
  rcases h with ⟨a, b, w⟩
  simp only [Hit.mk.injEq, true_and] at hle hlen hval ⊢
  exact ⟨by omega, hval⟩

theorem scanFrom_pairwise (m : Matcher α β) (pre rest : List α) (skip : ℕ) :
    (scanFrom m pre.length skip pre.getLast? rest).Pairwise
      (fun a b => a.start < b.start ∧ a.stop ≤ b.start) := by
  induction rest generalizing pre skip with
  | nil =>
    cases skip with
    | succ k => simp [scanFrom]
    | zero => cases hm : m pre.getLast? [] <;> simp [scanFrom, hm]
  | cons c cs ih =>
    have hlen : pre.length + 1 = (pre ++ [c]).length := by simp
    have hlast : some c = (pre ++ [c]).getLast? := by simp
    cases skip with
    | succ k =>
      rw [scanFrom, hlen, hlast]
      exact ih (pre ++ [c]) k
    | zero =>
      cases hm : m pre.getLast? (c :: cs) with
      | none =>
        simp only [scanFrom, hm]
        rw [hlen, hlast]
        exact ih (pre ++ [c]) 0
      | some nv =>
        simp only [scanFrom, hm]
        rw [hlen, hlast, List.pairwise_cons]
        refine ⟨fun b hb => ?_, ih (pre ++ [c]) _⟩
        have hb' := (mem_scanFrom (pre ++ [c]) cs _ hb).1
        simp only [List.length_append, List.length_cons, List.length_nil] at hb'
        constructor <;> simp only <;> omega

/-- The hits are strictly ordered and disjoint. -/
theorem finditer_pairwise (m : Matcher α β) (text : List α) :
    (finditer m text).Pairwise (fun a b => a.start < b.start ∧ a.stop ≤ b.start) := by
  simpa [finditer] using scanFrom_pairwise m [] text 0

/-- Two hits that share a position are the same. -/
theorem finditer_apart {m : Matcher α β} {text : List α} {h h' : Hit β} (hh : h ∈ finditer m text)
    (hh' : h' ∈ finditer m text) : h = h' ∨ h.stop ≤ h'.start ∨ h'.stop ≤ h.start := by
  have hsymm : Std.Symm fun a b : Hit β => a.stop ≤ b.start ∨ b.stop ≤ a.start :=
    ⟨fun _ _ => Or.symm⟩
  have hpw := (finditer_pairwise m text).imp fun {a b} hab =>
    (Or.inl hab.2 : a.stop ≤ b.start ∨ b.stop ≤ a.start)
  exact or_iff_not_imp_left.mpr fun hne => hpw.forall hh hh' hne

theorem scanFrom_complete {m : Matcher α β} {i n : ℕ} {v : β} (pre rest : List α) (skip : ℕ)
    (hi : pre.length + skip ≤ i) (hle : i ≤ (pre ++ rest).length)
    (hm : m.at (pre ++ rest) i = some (n, v)) :
    ∃ h ∈ scanFrom m pre.length skip pre.getLast? rest,
      h.start = i ∨ (h.start < i ∧ i < h.stop) := by
  induction rest generalizing pre skip with
  | nil =>
    have hskip : skip = 0 := by simp at hle; omega
    have hi' : i = pre.length := by simp at hle; omega
    subst hskip hi'
    rw [m.at_append] at hm
    exact ⟨⟨pre.length, pre.length + n, v⟩, by simp [scanFrom, hm], Or.inl rfl⟩
  | cons c cs ih =>
    have hstep : pre ++ c :: cs = (pre ++ [c]) ++ cs := by simp
    have hlen : pre.length + 1 = (pre ++ [c]).length := by simp
    have hlast : some c = (pre ++ [c]).getLast? := by simp
    have hlen' : (pre ++ [c]).length = pre.length + 1 := by simp
    cases skip with
    | succ k =>
      rw [hstep] at hm hle
      obtain ⟨h, hmem, hpos⟩ := ih (pre ++ [c]) k (by omega) hle hm
      refine ⟨h, ?_, hpos⟩
      rw [scanFrom, hlen, hlast]
      exact hmem
    | zero =>
      by_cases hip : i = pre.length
      · subst hip
        rw [m.at_append] at hm
        exact ⟨⟨pre.length, pre.length + n, v⟩, by simp [scanFrom, hm], Or.inl rfl⟩
      · rw [hstep] at hm hle
        cases hm' : m pre.getLast? (c :: cs) with
        | none =>
          obtain ⟨h, hmem, hpos⟩ := ih (pre ++ [c]) 0 (by omega) hle hm
          refine ⟨h, ?_, hpos⟩
          simp only [scanFrom, hm']
          rw [hlen, hlast]
          exact hmem
        | some nv =>
          by_cases hin : pre.length + 1 + (nv.1 - 1) ≤ i
          · obtain ⟨h, hmem, hpos⟩ :=
              ih (pre ++ [c]) (nv.1 - 1) (by omega) hle hm
            refine ⟨h, ?_, hpos⟩
            simp only [scanFrom, hm', List.mem_cons]
            rw [hlen, hlast]
            exact Or.inr hmem
          · refine ⟨⟨pre.length, pre.length + nv.1, nv.2⟩, by simp [scanFrom, hm'], Or.inr ?_⟩
            constructor <;> simp only <;> omega

/-- A position where the matcher succeeds is a hit, or an earlier hit covers it. -/
theorem finditer_complete {m : Matcher α β} {text : List α} {i n : ℕ} {v : β}
    (hle : i ≤ text.length) (hm : m.at text i = some (n, v)) :
    ∃ h ∈ finditer m text, h.start = i ∨ (h.start < i ∧ i < h.stop) := by
  simpa [finditer] using
    scanFrom_complete [] text 0 (by simp) (by simpa using hle)
      (by simpa using hm)

/-- Two strictly ordered lists of hits with the same members are equal. -/
theorem hits_ext {hs hs' : List (Hit β)}
    (h : hs.Pairwise fun a b => a.start < b.start ∧ a.stop ≤ b.start)
    (h' : hs'.Pairwise fun a b => a.start < b.start ∧ a.stop ≤ b.start)
    (hmem : ∀ x, x ∈ hs ↔ x ∈ hs') : hs = hs' := by
  have hirrefl : Std.Irrefl fun a b : Hit β => a.start < b.start ∧ a.stop ≤ b.start :=
    ⟨fun a ha => absurd ha.1 (Nat.lt_irrefl _)⟩
  have hanti : Std.Antisymm fun a b : Hit β => a.start < b.start ∧ a.stop ≤ b.start :=
    ⟨fun a b hab hba => absurd (hab.1.trans hba.1) (Nat.lt_irrefl _)⟩
  exact h.eq_of_mem_iff h' hmem

/-- No hits at all when the matcher fails everywhere. -/
theorem finditer_eq_nil {m : Matcher α β} {text : List α}
    (h : ∀ i ≤ text.length, m.at text i = none) : finditer m text = [] := by
  rw [List.eq_nil_iff_forall_not_mem]
  intro x hx
  have hx' := mem_finditer hx
  rw [h x.start hx'.1] at hx'
  exact absurd hx'.2.2 (by simp)

theorem Matcher.Sound.stop_le {m : Matcher α β} (hs : m.Sound) {h : Hit β} {text : List α}
    (hh : h ∈ finditer m text) : h.stop ≤ text.length := by
  obtain ⟨h1, h2, h3⟩ := mem_finditer hh
  have h4 := hs _ _ _ _ h3
  rw [List.length_drop] at h4
  omega

theorem Matcher.Proper.start_lt {m : Matcher α β} (hp : m.Proper) {h : Hit β} {text : List α}
    (hh : h ∈ finditer m text) : h.start < h.stop := by
  obtain ⟨_, _, h3⟩ := mem_finditer hh
  have h4 := hp _ _ _ _ h3
  omega

/-! ## Rewriting during the pass -/

/-- The rewriting pass and the rewriting of its hits agree from any position:
between hits the text is still to be copied from `cursor`, inside a match the
cursor already stands at the end of the match. -/
theorem spliceFrom_scanFrom {m : Matcher α β} (hs : m.Sound) (new : β → List α)
    (pre rest : List α) :
    (∀ cursor ≤ pre.length,
      spliceFrom (pre ++ rest) new cursor (scanFrom m pre.length 0 pre.getLast? rest) =
        slice (pre ++ rest) cursor pre.length ++ subFrom m new 0 pre.getLast? rest) ∧
    (∀ skip ≤ rest.length,
      spliceFrom (pre ++ rest) new (pre.length + skip)
          (scanFrom m pre.length skip pre.getLast? rest) =
        subFrom m new skip pre.getLast? rest) := by
  induction rest generalizing pre with
  | nil =>
    have hzero : ∀ cursor ≤ pre.length,
        spliceFrom (pre ++ []) new cursor (scanFrom m pre.length 0 pre.getLast? []) =
          slice (pre ++ []) cursor pre.length ++ subFrom m new 0 pre.getLast? [] := by
      intro cursor hc
      cases hm : m pre.getLast? [] with
      | none =>
        have hcopy := slice_append_drop pre hc
        simpa [scanFrom, subFrom, hm, spliceFrom] using hcopy.symm
      | some nv =>
        have hn : nv.1 = 0 := by simpa using hs _ _ nv.1 nv.2 hm
        simp [scanFrom, subFrom, hm, spliceFrom, hn]
    refine ⟨hzero, fun skip hskip => ?_⟩
    have h0 : skip = 0 := by simpa using hskip
    subst h0
    simpa using hzero pre.length le_rfl
  | cons c cs ih =>
    obtain ⟨ihz, ihs⟩ := ih (pre ++ [c])
    simp only [List.append_assoc, List.cons_append, List.nil_append, List.length_append,
      List.length_cons, List.length_nil, Nat.zero_add, List.getLast?_append,
      List.getLast?_singleton, Option.some_or] at ihz ihs
    have hone : slice (pre ++ c :: cs) pre.length (pre.length + 1) = [c] := by simp [slice]
    have hzero : ∀ cursor ≤ pre.length,
        spliceFrom (pre ++ c :: cs) new cursor (scanFrom m pre.length 0 pre.getLast? (c :: cs)) =
          slice (pre ++ c :: cs) cursor pre.length ++
            subFrom m new 0 pre.getLast? (c :: cs) := by
      intro cursor hc
      cases hm : m pre.getLast? (c :: cs) with
      | none =>
        have hnext := ihz cursor (by omega)
        rw [← slice_append_slice hc (Nat.le_succ _), hone] at hnext
        simpa [scanFrom, subFrom, hm] using hnext
      | some nv =>
        obtain ⟨n, v⟩ := nv
        have hn : n ≤ cs.length + 1 := by simpa using hs _ _ n v hm
        cases n with
        | zero =>
          have hnext := ihz pre.length (by omega)
          rw [hone] at hnext
          simp [scanFrom, subFrom, hm, spliceFrom, hnext]
        | succ k =>
          have hnext := ihs k (by omega)
          have hpos : pre.length + (k + 1) = pre.length + 1 + k := by omega
          simp [scanFrom, subFrom, hm, spliceFrom, hpos, hnext]
    refine ⟨hzero, fun skip hskip => ?_⟩
    cases skip with
    | zero => simpa using hzero pre.length le_rfl
    | succ k =>
      have hnext := ihs k (by simpa using hskip)
      have hpos : pre.length + (k + 1) = pre.length + 1 + k := by omega
      rw [hpos]
      simpa [scanFrom, subFrom] using hnext

/-- Rewriting during the pass is rewriting the hits. -/
theorem sub_eq_splice {m : Matcher α β} (hs : m.Sound) (new : β → List α) (text : List α) :
    sub m new text = splice text (finditer m text) new := by
  have h := (spliceFrom_scanFrom hs new [] text).1 0 le_rfl
  simpa [sub, splice, finditer] using h.symm

end TextScan
