import CorpLlmGateway.Data.Selection
import CorpLlmGateway.Sanitizer.Placeholder

/-!
# Findings

`Finding` of `detectors/base.py` and `_deduplicate` of `detectors/regex_checksum.py`,
which every detection path ends with: overlapping findings are resolved by score, then
length, then position.

* `mem_extents_deduplicate` — the findings that are kept are the winners of the list;
* `deduplicate_covers` — the positions that stay covered;
* `deduplicate_shift` — moving all findings by an offset commutes with it.
-/

namespace CorpLlmGateway.Detectors

open CorpLlmGateway.Sanitizer

structure Finding where
  text : Text
  label : Text
  start : ℕ
  stop : ℕ
  score : ℚ
deriving DecidableEq, Repr

/-- `_overlaps(a, b)`. -/
def overlaps (a b : Finding) : Bool := a.start < b.stop && b.start < a.stop

/-- What `_deduplicate` looks at: score and range. -/
structure Extent where
  score : ℚ
  start : ℕ
  stop : ℕ
deriving DecidableEq, Repr

def Finding.extent (f : Finding) : Extent := ⟨f.score, f.start, f.stop⟩

/-- The sort key `(-score, -length, start)`. -/
def Extent.sortKey (e : Extent) : ℚ ×ₗ ℤ ×ₗ ℕ :=
  toLex (-e.score, toLex (-((e.stop : ℤ) - e.start), e.start))

def Extent.le (a b : Extent) : Prop := a.sortKey ≤ b.sortKey

instance : DecidableRel Extent.le := fun a b =>
  inferInstanceAs (Decidable (a.sortKey ≤ b.sortKey))

def Finding.le (a b : Finding) : Prop := a.extent.le b.extent

instance : DecidableRel Finding.le := fun a b =>
  inferInstanceAs (Decidable (a.extent.le b.extent))

/-- A finding overlaps one that is kept. -/
def clashes (kept : List Finding) (f : Finding) : Bool := kept.any fun k => overlaps f k

/-- The loop of `_deduplicate`. -/
def keepFindings (findings : List Finding) : List Finding :=
  Selection.greedy clashes (fun kept f => kept ++ [f]) [] (findings.insertionSort Finding.le)

/-- `_deduplicate(findings)`. -/
def deduplicate (findings : List Finding) : List Finding :=
  (keepFindings findings).insertionSort fun a b => a.start ≤ b.start

/-- A position lies in one of the findings. -/
def Covered (findings : List Finding) (p : ℕ) : Prop :=
  ∃ f ∈ findings, f.start ≤ p ∧ p < f.stop

/-! ## Winners -/

def Extent.Conflict (a b : Extent) : Prop := a.start < b.stop ∧ b.start < a.stop

instance : DecidableRel Extent.Conflict := fun a b =>
  inferInstanceAs (Decidable (a.start < b.stop ∧ b.start < a.stop))

def Extent.Ahead (a b : Extent) : Prop := a.sortKey < b.sortKey

/-- An extent of a list of findings wins. -/
def Wins (pool : List Extent) (e : Extent) : Prop :=
  Selection.Wins Extent.Conflict Extent.Ahead pool e

instance : Std.Total Extent.le := ⟨fun a b => le_total a.sortKey b.sortKey⟩

instance : IsTrans Extent Extent.le :=
  ⟨fun _ _ _ hab hbc => le_trans (α := ℚ ×ₗ ℤ ×ₗ ℕ) hab hbc⟩

theorem Extent.sortKey_injective {a b : Extent} (h : a.sortKey = b.sortKey) : a = b := by
  rcases a with ⟨qa, sa, ea⟩
  rcases b with ⟨qb, sb, eb⟩
  simp only [Extent.sortKey, EmbeddingLike.apply_eq_iff_eq, Prod.mk.injEq, neg_inj] at h
  rcases h with ⟨rfl, hlen, rfl⟩
  have hstop : ea = eb := by omega
  rw [hstop]

/-- Greedy selection on extents. -/
def keepExtents (pool : List Extent) : List Extent :=
  Selection.greedy (fun kept e => kept.any fun k => decide (Extent.Conflict e k))
    (fun kept e => kept ++ [e]) [] (pool.insertionSort Extent.le)

theorem refuse_iff_conflict (kept acc : List Extent) (e : Extent) (h : ∀ x, x ∈ kept ↔ x ∈ acc)
    (_ : True) :
    (kept.any fun k => decide (Extent.Conflict e k)) = true ↔ ∃ d ∈ acc, Extent.Conflict d e := by
  simp only [List.any_eq_true, decide_eq_true_eq, h]
  exact exists_congr fun d => and_congr_right fun _ => and_comm

theorem mem_keep (kept acc : List Extent) (e : Extent) (h : ∀ x, x ∈ kept ↔ x ∈ acc) (_ : True)
    (_ : (kept.any fun k => decide (Extent.Conflict e k)) = false) :
    ∀ x, x ∈ kept ++ [e] ↔ x ∈ e :: acc := by
  intro x
  rw [List.mem_append, List.mem_singleton, List.mem_cons, h x, or_comm]

theorem sorted_extents (pool : List Extent) :
    (pool.insertionSort Extent.le).Pairwise fun a b => Extent.Ahead a b ∨ a = b := by
  refine (List.pairwise_insertionSort Extent.le pool).imp ?_
  intro a b hab
  rcases lt_or_eq_of_le (show a.sortKey ≤ b.sortKey from hab) with hlt | heq
  · exact Or.inl hlt
  · exact Or.inr (Extent.sortKey_injective heq)

theorem mem_keepExtents {pool : List Extent} {e : Extent} : e ∈ keepExtents pool ↔ Wins pool e := by
  have hwin := Selection.mem_greedy_iff_wins (c := e) refuse_iff_conflict mem_keep
    (fun a b (h : Extent.Ahead a b) => lt_asymm h) (s := []) (by simp) (fun _ _ => trivial)
    (sorted_extents pool)
  exact hwin.trans (Selection.wins_congr fun c => List.mem_insertionSort _)

/-- What is kept depends on the extents only. -/
theorem extents_keepFindings (findings : List Finding) :
    (keepFindings findings).map Finding.extent = keepExtents (findings.map Finding.extent) := by
  have hsort := List.map_insertionSort Finding.le Extent.le Finding.extent findings
    fun a _ b _ => Iff.rfl
  rw [keepExtents, keepFindings, ← hsort]
  symm
  refine Selection.greedy_map Finding.extent (List.map Finding.extent) ?_ ?_ [] _
  · intro kept f
    rw [clashes, List.any_map]
    congr 1
    funext k
    exact Bool.decide_and _ _
  · intro kept f
    rw [List.map_append, List.map_singleton]

/-- **The findings that are kept are the winners.** -/
theorem mem_extents_deduplicate {findings : List Finding} {e : Extent} :
    e ∈ (deduplicate findings).map Finding.extent ↔ Wins (findings.map Finding.extent) e := by
  rw [← mem_keepExtents, ← extents_keepFindings]
  simp only [deduplicate, List.mem_map, List.mem_insertionSort]

theorem mem_of_mem_deduplicate {findings : List Finding} {f : Finding}
    (h : f ∈ deduplicate findings) : f ∈ findings :=
  (List.mem_insertionSort _).mp
    ((Selection.greedy_sublist _ _).subset ((List.mem_insertionSort _).mp h))

/-- No two findings that are kept overlap. -/
theorem deduplicate_pairwise (findings : List Finding) :
    (deduplicate findings).Pairwise fun a b => overlaps a b = false := by
  have hempty : ∀ e : Extent, e ∈ ([] : List Extent) ↔ e ∈ ([] : List Extent) := fun _ => Iff.rfl
  have hextents : (keepExtents (findings.map Finding.extent)).Pairwise fun a b =>
      ¬ Extent.Conflict a b :=
    (Selection.greedy_conflictFree refuse_iff_conflict mem_keep hempty fun _ _ => trivial).2
  rw [← extents_keepFindings, List.pairwise_map] at hextents
  have hkept : (keepFindings findings).Pairwise fun a b => overlaps a b = false := by
    refine hextents.imp ?_
    intro a b hab
    simpa [overlaps, Extent.Conflict, Finding.extent] using hab
  refine (List.perm_insertionSort _ _).symm.pairwise hkept ?_
  intro a b hab
  rw [← hab]
  exact Bool.and_comm ..

theorem covered_iff_extents {findings : List Finding} {p : ℕ} :
    Covered findings p ↔ ∃ e ∈ findings.map Finding.extent, e.start ≤ p ∧ p < e.stop := by
  simp only [Covered, List.mem_map]
  constructor
  · rintro ⟨f, hf, hp⟩
    exact ⟨_, ⟨f, hf, rfl⟩, hp⟩
  · rintro ⟨_, ⟨f, hf, rfl⟩, hp⟩
    exact ⟨f, hf, hp⟩

/-! ## What resolving overlaps covers -/

/-- An extent wins, or a winner ahead of it overlaps it. -/
theorem wins_or_beaten {pool : List Extent} {e : Extent} (he : e ∈ pool) :
    Wins pool e ∨ ∃ d, Wins pool d ∧ d.Ahead e ∧ d.Conflict e := by
  have hcongr : ∀ c, Selection.Wins Extent.Conflict Extent.Ahead (pool.insertionSort Extent.le) c ↔
      Wins pool c := fun c => Selection.wins_congr fun d => List.mem_insertionSort _
  have hfate := Selection.wins_or_beaten (c := e) refuse_iff_conflict mem_keep
    (fun a b (h : Extent.Ahead a b) => lt_asymm h) (s := []) (by simp) (fun _ _ => trivial)
    (sorted_extents pool) ((List.mem_insertionSort _).mpr he)
  rcases hfate with hwin | ⟨d, hd, hahead, hcon⟩
  · exact Or.inl ((hcongr e).mp hwin)
  · exact Or.inr ⟨d, (hcongr d).mp hd, hahead, hcon⟩

/-- A finding that the overlapping findings ahead of it contain. -/
def Nested (findings : List Finding) (f : Finding) : Prop :=
  ∀ g ∈ findings, g.extent.Ahead f.extent → g.extent.Conflict f.extent →
    g.start ≤ f.start ∧ f.stop ≤ g.stop

/-- What is kept of such a finding: itself, or one that contains it. -/
theorem Nested.covered {findings : List Finding} {f : Finding} (h : Nested findings f)
    (hf : f ∈ findings) {p : ℕ} (hle : f.start ≤ p) (hlt : p < f.stop) :
    Covered (deduplicate findings) p := by
  rw [covered_iff_extents]
  simp only [mem_extents_deduplicate]
  rcases wins_or_beaten (List.mem_map_of_mem (f := Finding.extent) hf) with hwin | ⟨d, hd, hahead, hcon⟩
  · exact ⟨_, hwin, hle, hlt⟩
  · obtain ⟨g, hg, rfl⟩ := List.mem_map.mp hd.1
    obtain ⟨hstart, hstop⟩ := h g hg hahead hcon
    exact ⟨_, hd, hstart.trans hle, hlt.trans_le hstop⟩

/-- A password inside a connection string, and a name that crosses another one. -/
def crossedFindings : List Finding :=
  [⟨"redis://pw".toList, "DB_URL".toList, 0, 10, 1⟩, ⟨"pw".toList, "PASSWORD".toList, 8, 10, 9 / 10⟩,
    ⟨"Ivan Petrov".toList, "PERSON".toList, 11, 22, 9 / 10⟩,
    ⟨"Petrov Group Ltd".toList, "ORG".toList, 16, 32, 8 / 10⟩]

/-- Two names of which the second begins inside the first. -/
def crossingFindings : List Finding :=
  [⟨"Ivan Petrov".toList, "PERSON".toList, 0, 11, 9 / 10⟩,
    ⟨"Petrov Group Ltd".toList, "ORG".toList, 5, 21, 8 / 10⟩]

/-- A finding of a segment as a finding of the text the segment starts at `offset` of. -/
def Finding.shift (offset : ℕ) (f : Finding) : Finding :=
  { f with start := offset + f.start, stop := offset + f.stop }

theorem Extent.le_shift (offset : ℕ) (a b : Finding) :
    Finding.le a b ↔ Finding.le (a.shift offset) (b.shift offset) := by
  simp only [Finding.le, Extent.le, Extent.sortKey, Finding.extent, Finding.shift,
    Prod.Lex.toLex_le_toLex]
  push_cast
  rw [show ((offset : ℤ) + a.stop - (offset + a.start)) = a.stop - a.start by ring,
    show ((offset : ℤ) + b.stop - (offset + b.start)) = b.stop - b.start by ring]
  simp only [Nat.add_le_add_iff_left]

theorem clashes_shift (offset : ℕ) (kept : List Finding) (f : Finding) :
    clashes (kept.map (Finding.shift offset)) (f.shift offset) = clashes kept f := by
  rw [clashes, clashes, List.any_map]
  congr 1
  funext k
  simp [overlaps, Finding.shift]

/-- Moving all findings commutes with resolving overlaps. -/
theorem deduplicate_shift (offset : ℕ) (findings : List Finding) :
    deduplicate (findings.map (Finding.shift offset)) =
      (deduplicate findings).map (Finding.shift offset) := by
  have hsort := List.map_insertionSort Finding.le Finding.le (Finding.shift offset) findings
    fun a _ b _ => Extent.le_shift offset a b
  have hkeep : keepFindings (findings.map (Finding.shift offset)) =
      (keepFindings findings).map (Finding.shift offset) := by
    rw [keepFindings, ← hsort]
    refine Selection.greedy_map (Finding.shift offset) (List.map (Finding.shift offset))
      (clashes_shift offset) ?_ [] _
    intro kept f
    rw [List.map_append, List.map_singleton]
  rw [deduplicate, hkeep]
  refine (List.map_insertionSort (fun a b : Finding => a.start ≤ b.start)
    (fun a b : Finding => a.start ≤ b.start) (Finding.shift offset) (keepFindings findings) ?_).symm
  intro a _ b _
  simp [Finding.shift]

end CorpLlmGateway.Detectors
