import CorpLlmGateway.Data.Bisect
import CorpLlmGateway.Data.Intervals
import CorpLlmGateway.Text.PyStr
import CorpLlmGateway.Text.Scan

/-!
# Offsets into the NFC form

The NER service reports offsets into `unicodedata.normalize("NFC", text)`. `_build_map` cuts
the text into chunks that normalise independently and keeps, run by run, where the original
and the normalised text stand side by side; `_OffsetMap` maps an offset back, outward to the
edges of a chunk that normalisation has changed.

* `tiles_chunks` — the chunks tile the text;
* `Aligned` — runs that go through both texts without a gap;
* `offsets_cover` — what a pair of offsets is mapped back to.
-/

namespace CorpLlmGateway.Detectors.CorpNer

open Bisect TextScan
open Intervals (Tiles)

/-- What is used of `unicodedata`: the combining class of a character, and a normal form of
which it is only known that something is left of every text. -/
structure Unicodedata where
  combining : PyChar → ℕ
  nfc : PyStr → PyStr
  nfc_ne_nil : ∀ s, s ≠ [] → nfc s ≠ []

/-! ## Chunks -/

/-- `_MIN_COMPOSABLE_SECOND`. -/
def minComposableSecond : ℕ := 0x300

section Chunks

variable (U : Unicodedata) (text : PyStr)

/-- `_cluster_end(text, start)`: the end of a character and the marks behind it. -/
def clusterEnd (start : ℕ) : ℕ :=
  start + 1 + ((text.drop (start + 1)).takeWhile fun c => U.combining c != 0).length

/-- Cut at `j`, the slice from `i` to `k` normalises to the same text as in one piece. -/
def Lossless (i j k : ℕ) : Prop :=
  U.nfc (slice text i j ++ slice text j k) = U.nfc (slice text i j) ++ U.nfc (slice text j k)

instance (i j k : ℕ) : Decidable (Lossless U text i j k) := inferInstanceAs (Decidable (_ = _))

/-- The inner loop of `_chunks`: the chunk from `i` takes in one cluster after the other. Each
round moves `j` on, so that there are at most as many rounds as characters behind it. -/
def absorb (i : ℕ) : (fuel j : ℕ) → ℕ
  | 0, j => j
  | fuel + 1, j =>
      if j < text.length then
        if Lossless U text i j (clusterEnd U text j) then j
        else absorb i fuel (clusterEnd U text j)
      else j

/-- Where the chunk that begins at `i` ends. -/
def chunkEnd (i : ℕ) : ℕ :=
  match text[clusterEnd U text i]? with
  | some c =>
      if minComposableSecond ≤ c.code then
        absorb U text i (text.length - clusterEnd U text i) (clusterEnd U text i)
      else clusterEnd U text i
  | none => clusterEnd U text i

/-- The outer loop of `_chunks`. -/
def chunksFrom : (fuel i : ℕ) → List (ℕ × ℕ)
  | 0, _ => []
  | fuel + 1, i =>
      if i < text.length then (i, chunkEnd U text i) :: chunksFrom fuel (chunkEnd U text i)
      else []

/-- `_chunks(text)`. -/
def chunks : List (ℕ × ℕ) := chunksFrom U text text.length 0

end Chunks

/-! ## The map -/

/-- A stretch of the original text and the stretch of the normal form it became. -/
structure Run where
  oStart : ℕ
  oEnd : ℕ
  nStart : ℕ
  nEnd : ℕ
  identity : Bool
deriving DecidableEq

/-- One more run; unchanged stretches that follow each other become one. -/
def addRun (runs : List Run) (run : Run) : List Run :=
  match runs.getLast? with
  | some prev =>
      if run.identity && prev.identity then
        runs.dropLast ++ [⟨prev.oStart, run.oEnd, prev.nStart, run.nEnd, true⟩]
      else runs ++ [run]
  | none => runs ++ [run]

/-- The variables of the loop of `_build_map`. -/
structure Building where
  runs : List Run
  pieces : List PyStr
  nPos : ℕ

def Building.add (U : Unicodedata) (text : PyStr) (b : Building) (chunk : ℕ × ℕ) : Building :=
  let piece := U.nfc (slice text chunk.1 chunk.2)
  let nEnd := b.nPos + piece.length
  { runs := addRun b.runs
      ⟨chunk.1, chunk.2, b.nPos, nEnd, piece == slice text chunk.1 chunk.2⟩
    pieces := b.pieces ++ [piece]
    nPos := nEnd }

/-- `_OffsetMap`. -/
structure OffsetMap where
  runs : List Run
  nfcLen : ℕ
  origLen : ℕ
deriving DecidableEq

namespace OffsetMap

variable (m : OffsetMap)

/-- `runs[bisect_right(n_starts, pos) - 1]`; the index `-1` is the last run. -/
def runAt (pos : ℕ) : Option Run :=
  match bisectRight (m.runs.map Run.nStart) pos with
  | 0 => m.runs.getLast?
  | k + 1 => m.runs[k]?

/-- `start(pos)`; nothing stands for an `IndexError`. -/
def start (pos : ℕ) : Option ℕ :=
  if m.nfcLen ≤ pos then some m.origLen
  else (m.runAt pos).map fun run =>
    if run.identity then run.oStart + (pos - run.nStart) else run.oStart

/-- `end(pos)`. -/
def stop (pos : ℕ) : Option ℕ :=
  if pos = 0 then some 0
  else if m.nfcLen ≤ pos then some m.origLen
  else (m.runs[bisectLeft (m.runs.map Run.nEnd) pos]?).map fun run =>
    if run.identity then run.oStart + (pos - run.nStart) else run.oEnd

end OffsetMap

/-- The message of the `CorpNerUnavailableError` that `_build_map` raises. -/
def notMappable : String := "corp-ner offsets are not mappable onto the source text"

/-- `_build_map(text, nfc)`. -/
def buildMap (U : Unicodedata) (text nfc : PyStr) : Except String OffsetMap :=
  let built := (chunks U text).foldl (Building.add U text) ⟨[], [], 0⟩
  if built.pieces.flatten ≠ nfc then .error notMappable
  else .ok ⟨built.runs, nfc.length, text.length⟩

/-! ## The chunks tile the text -/

section Tiling

variable {U : Unicodedata} {text : PyStr} {i j : ℕ}

theorem lt_clusterEnd : i < clusterEnd U text i := by
  unfold clusterEnd
  omega

theorem clusterEnd_le (h : i < text.length) : clusterEnd U text i ≤ text.length := by
  have hmarks := ((text.drop (i + 1)).takeWhile_sublist
    fun c => U.combining c != 0).length_le
  rw [List.length_drop] at hmarks
  unfold clusterEnd
  omega

theorem absorb_bounds (fuel : ℕ) (hj : j ≤ text.length) :
    j ≤ absorb U text i fuel j ∧ absorb U text i fuel j ≤ text.length := by
  induction fuel generalizing j with
  | zero => exact ⟨le_rfl, hj⟩
  | succ fuel ih =>
    rw [absorb]
    split
    · next hlt =>
      split
      · exact ⟨le_rfl, hj⟩
      · obtain ⟨hlow, hhigh⟩ := ih (clusterEnd_le (U := U) hlt)
        exact ⟨(lt_clusterEnd.trans_le hlow).le, hhigh⟩
    · exact ⟨le_rfl, hj⟩

theorem chunkEnd_bounds (h : i < text.length) :
    i < chunkEnd U text i ∧ chunkEnd U text i ≤ text.length := by
  have hlow : i < clusterEnd U text i := lt_clusterEnd
  have hhigh : clusterEnd U text i ≤ text.length := clusterEnd_le h
  unfold chunkEnd
  split
  · split
    · obtain ⟨hge, hle⟩ := absorb_bounds (U := U) (i := i)
        (text.length - clusterEnd U text i) hhigh
      exact ⟨hlow.trans_le hge, hle⟩
    · exact ⟨hlow, hhigh⟩
  · exact ⟨hlow, hhigh⟩

theorem tiles_chunksFrom (fuel : ℕ) (hi : i ≤ text.length) (hfuel : text.length - i ≤ fuel) :
    Tiles id (fun _ => True) i (chunksFrom U text fuel i) text.length := by
  induction fuel generalizing i with
  | zero =>
    rw [chunksFrom, Tiles]
    omega
  | succ fuel ih =>
    rw [chunksFrom]
    split
    · next hlt =>
      obtain ⟨hlow, hhigh⟩ := chunkEnd_bounds (U := U) hlt
      have hrest := ih hhigh (by omega)
      exact ⟨rfl, hlow, trivial, hrest⟩
    · rw [Tiles]
      omega

theorem tiles_chunks (U : Unicodedata) (text : PyStr) :
    Tiles id (fun _ => True) 0 (chunks U text) text.length :=
  tiles_chunksFrom text.length (Nat.zero_le _) (Nat.sub_le _ _)

end Tiling

/-! ## Runs side by side -/

/-- A stretch with something in it on both sides; if it is unchanged, with as much. -/
structure Run.Sound (r : Run) : Prop where
  original : r.oStart < r.oEnd
  normal : r.nStart < r.nEnd
  identity : r.identity = true → r.oEnd - r.oStart = r.nEnd - r.nStart

/-- Runs that lead from the positions `(o, n)` to `(o', n')` in the two texts. -/
def Aligned : ℕ × ℕ → ℕ × ℕ → List Run → Prop
  | a, b, [] => a = b
  | a, b, r :: rs => (r.oStart, r.nStart) = a ∧ r.Sound ∧ Aligned (r.oEnd, r.nEnd) b rs

theorem aligned_append {a b : ℕ × ℕ} {rs ss : List Run} :
    Aligned a b (rs ++ ss) ↔ ∃ c, Aligned a c rs ∧ Aligned c b ss := by
  induction rs generalizing a with
  | nil => simp [Aligned]
  | cons r rs ih => simp [Aligned, ih, and_assoc]

/-- A position of the normal form lies in a run. -/
theorem Aligned.exists_run {a b : ℕ × ℕ} {rs : List Run} (h : Aligned a b rs) {pos : ℕ}
    (hlow : a.2 ≤ pos) (hhigh : pos < b.2) : ∃ r ∈ rs, r.nStart ≤ pos ∧ pos < r.nEnd := by
  induction rs generalizing a with
  | nil =>
    obtain rfl : a = b := h
    omega
  | cons r rs ih =>
    obtain ⟨rfl, -, hrest⟩ := h
    by_cases hin : pos < r.nEnd
    · exact ⟨r, List.mem_cons_self, hlow, hin⟩
    · obtain ⟨q, hq, hle, hlt⟩ := ih hrest (Nat.not_lt.mp hin)
      exact ⟨q, List.mem_cons_of_mem r hq, hle, hlt⟩

/-- The first of two runs is over on both sides before the second begins. -/
def Run.Before (r q : Run) : Prop := r.oEnd ≤ q.oStart ∧ r.nEnd ≤ q.nStart

theorem Aligned.bounds {a b : ℕ × ℕ} {rs : List Run} (h : Aligned a b rs) :
    a.1 ≤ b.1 ∧ a.2 ≤ b.2 ∧
      ∀ r ∈ rs, r.Sound ∧ a.1 ≤ r.oStart ∧ a.2 ≤ r.nStart ∧ r.oEnd ≤ b.1 ∧ r.nEnd ≤ b.2 := by
  induction rs generalizing a with
  | nil =>
    obtain rfl : a = b := h
    exact ⟨le_rfl, le_rfl, by simp⟩
  | cons r rs ih =>
    obtain ⟨rfl, hsound, hrest⟩ := h
    obtain ⟨ho, hn, hall⟩ := ih hrest
    have horiginal := hsound.original
    have hnormal := hsound.normal
    refine ⟨by simp only at ho ⊢; omega, by simp only at hn ⊢; omega, ?_⟩
    intro q hq
    rcases List.mem_cons.mp hq with rfl | hq
    · exact ⟨hsound, le_rfl, le_rfl, ho, hn⟩
    · obtain ⟨hq_sound, hqo, hqn, hq_end⟩ := hall q hq
      exact ⟨hq_sound, by simp only at hqo ⊢; omega, by simp only at hqn ⊢; omega, hq_end⟩

theorem Aligned.pairwise {a b : ℕ × ℕ} {rs : List Run} (h : Aligned a b rs) :
    rs.Pairwise Run.Before := by
  induction rs generalizing a with
  | nil => exact List.Pairwise.nil
  | cons r rs ih =>
    obtain ⟨-, -, hrest⟩ := h
    refine List.pairwise_cons.mpr ⟨?_, ih hrest⟩
    intro q hq
    obtain ⟨-, ho, hn, -⟩ := hrest.bounds.2.2 q hq
    exact ⟨ho, hn⟩

/-- Two runs are the same, or one is over before the other begins. -/
theorem Aligned.trichotomy {a b : ℕ × ℕ} {rs : List Run} (h : Aligned a b rs) {r q : Run}
    (hr : r ∈ rs) (hq : q ∈ rs) : r = q ∨ r.Before q ∨ q.Before r := by
  obtain ⟨i, hi, rfl⟩ := List.mem_iff_getElem.mp hr
  obtain ⟨j, hj, rfl⟩ := List.mem_iff_getElem.mp hq
  have hpairs := List.pairwise_iff_getElem.mp h.pairwise
  rcases Nat.lt_trichotomy i j with hlt | rfl | hlt
  · exact .inr (.inl (hpairs i j hi hj hlt))
  · exact .inl rfl
  · exact .inr (.inr (hpairs j i hj hi hlt))

/-- The run at the end of the normal form is at the end of the text. -/
theorem Aligned.last {a b : ℕ × ℕ} {rs : List Run} (h : Aligned a b rs) {r : Run} (hr : r ∈ rs)
    (hend : r.nEnd = b.2) : r.oEnd = b.1 := by
  induction rs generalizing a with
  | nil => cases hr
  | cons q rs ih =>
    obtain ⟨-, -, hrest⟩ := h
    rcases List.mem_cons.mp hr with rfl | hr
    · cases rs with
      | nil =>
        rw [← show (r.oEnd, r.nEnd) = b from hrest]
      | cons q rs =>
        -- a run behind it would have room in the normal form
        obtain ⟨hsound, -, hlow, -, hhigh⟩ := hrest.bounds.2.2 q List.mem_cons_self
        have hroom := hsound.normal
        simp only at hlow
        omega
    · exact ih hrest hr

/-! ## Looking up a run -/

section Lookup

variable {m : OffsetMap} {a b : ℕ × ℕ} {r : Run} {pos : ℕ}

theorem runAt_eq (h : Aligned a b m.runs) (hr : r ∈ m.runs) (hlow : r.nStart ≤ pos)
    (hhigh : pos < r.nEnd) : m.runAt pos = some r := by
  obtain ⟨i, hi, rfl⟩ := List.mem_iff_getElem.mp hr
  have hpairs := List.pairwise_iff_getElem.mp h.pairwise
  have hsorted : (m.runs.map Run.nStart).Pairwise (· ≤ ·) := by
    rw [List.pairwise_map, List.pairwise_iff_getElem]
    intro j k hj hk hjk
    have hsound := (h.bounds.2.2 _ (List.getElem_mem hj)).1.normal
    exact (hsound.trans_le (hpairs j k hj hk hjk).2).le
  have hsearch : ∀ j (hj : j < m.runs.length),
      j < bisectRight (m.runs.map Run.nStart) pos ↔ m.runs[j].nStart ≤ pos := by
    intro j hj
    apply lt_bisectRight_iff hsorted
    simp [hj]
  -- the run is in front of the place found, the next one is not
  have hbelow : i < bisectRight (m.runs.map Run.nStart) pos := (hsearch i hi).mpr hlow
  have habove : bisectRight (m.runs.map Run.nStart) pos ≤ i + 1 := by
    by_contra hnext
    have hlength : bisectRight (m.runs.map Run.nStart) pos ≤ m.runs.length := by
      rw [← List.length_map Run.nStart]
      exact bisect_le _ _
    have hj : i + 1 < m.runs.length := by omega
    have hle := (hsearch (i + 1) hj).mp (by omega)
    have hbefore := (hpairs i (i + 1) hi hj (Nat.lt_succ_self i)).2
    omega
  have hfound : bisectRight (m.runs.map Run.nStart) pos = i + 1 := by omega
  simp only [OffsetMap.runAt, hfound]
  exact List.getElem?_eq_getElem hi

theorem runs_bisectLeft (h : Aligned a b m.runs) (hr : r ∈ m.runs) (hlow : r.nStart < pos)
    (hhigh : pos ≤ r.nEnd) : m.runs[bisectLeft (m.runs.map Run.nEnd) pos]? = some r := by
  obtain ⟨i, hi, rfl⟩ := List.mem_iff_getElem.mp hr
  have hpairs := List.pairwise_iff_getElem.mp h.pairwise
  have hsorted : (m.runs.map Run.nEnd).Pairwise (· ≤ ·) := by
    rw [List.pairwise_map, List.pairwise_iff_getElem]
    intro j k hj hk hjk
    have hsound := (h.bounds.2.2 _ (List.getElem_mem hk)).1.normal
    exact ((hpairs j k hj hk hjk).2.trans_lt hsound).le
  have hsearch : ∀ j (hj : j < m.runs.length),
      j < bisectLeft (m.runs.map Run.nEnd) pos ↔ m.runs[j].nEnd < pos := by
    intro j hj
    apply lt_bisectLeft_iff hsorted
    simp [hj]
  -- the runs in front of this one end before the position, this one does not
  have hnot : ¬ i < bisectLeft (m.runs.map Run.nEnd) pos := by
    rw [hsearch i hi]
    omega
  have hbelow : ∀ j < i, j < bisectLeft (m.runs.map Run.nEnd) pos := by
    intro j hj
    rw [hsearch j (hj.trans hi)]
    exact (hpairs j i (hj.trans hi) hi hj).2.trans_lt hlow
  have hfound : bisectLeft (m.runs.map Run.nEnd) pos = i := by
    cases i with
    | zero => omega
    | succ k =>
      have := hbelow k (Nat.lt_succ_self k)
      omega
  rw [hfound]
  exact List.getElem?_eq_getElem hi

/-- Where the position in front of an offset, and the offset behind it, are mapped back to. -/
def Run.back (r : Run) (pos : ℕ) : ℕ := if r.identity then r.oStart + (pos - r.nStart) else r.oStart

def Run.backEnd (r : Run) (pos : ℕ) : ℕ := if r.identity then r.oStart + (pos - r.nStart) else r.oEnd

theorem start_eq (h : Aligned a (m.origLen, m.nfcLen) m.runs) (hr : r ∈ m.runs)
    (hlow : r.nStart ≤ pos) (hhigh : pos < r.nEnd) : m.start pos = some (r.back pos) := by
  have hbound := (h.bounds.2.2 r hr).2.2.2.2
  simp only at hbound
  rw [OffsetMap.start, if_neg (by omega), runAt_eq h hr hlow hhigh]
  rfl

theorem stop_eq (h : Aligned a (m.origLen, m.nfcLen) m.runs) (hr : r ∈ m.runs)
    (hlow : r.nStart < pos) (hhigh : pos ≤ r.nEnd) : m.stop pos = some (r.backEnd pos) := by
  obtain ⟨hsound, -, -, hoend, hnend⟩ := h.bounds.2.2 r hr
  simp only at hoend hnend
  rw [OffsetMap.stop, if_neg (by omega)]
  split
  · next hlast =>
    -- the last run ends where the texts end
    have hnlast : r.nEnd = m.nfcLen := by omega
    have holast : r.oEnd = m.origLen := h.last hr hnlast
    have hpos : pos = r.nEnd := by omega
    rw [Run.backEnd, ← holast]
    split
    · next hidentity =>
      have hsame := hsound.identity hidentity
      have horiginal := hsound.original
      rw [Option.some.injEq]
      omega
    · rfl
  · rw [runs_bisectLeft h hr hlow hhigh]
    rfl

end Lookup

/-! ## Building the runs -/

/-- The stretch of a chunk in the run that took it in. -/
structure Carries (r e : Run) : Prop where
  changed : e.identity = false → r = e
  unchanged : e.identity = true → r.identity = true ∧ r.oStart ≤ e.oStart ∧ e.oEnd ≤ r.oEnd ∧
    r.nStart ≤ e.nStart ∧ e.nEnd ≤ r.nEnd ∧ e.oStart + r.nStart = e.nStart + r.oStart

theorem carries_self (e : Run) : Carries e e := by
  refine ⟨fun _ => rfl, ?_⟩
  intro hidentity
  exact ⟨hidentity, le_rfl, le_rfl, le_rfl, le_rfl, Nat.add_comm _ _⟩

theorem addRun_nil (run : Run) : addRun [] run = [run] := rfl

theorem addRun_concat (rs : List Run) (prev run : Run) :
    addRun (rs ++ [prev]) run =
      if run.identity && prev.identity then
        rs ++ [⟨prev.oStart, run.oEnd, prev.nStart, run.nEnd, true⟩]
      else rs ++ [prev, run] := by
  simp [addRun]

theorem aligned_addRun {a b : ℕ × ℕ} {rs : List Run} (h : Aligned a b rs) {run : Run}
    (hstart : (run.oStart, run.nStart) = b) (hsound : run.Sound) :
    Aligned a (run.oEnd, run.nEnd) (addRun rs run) := by
  rcases rs.eq_nil_or_concat with rfl | ⟨rs, prev, rfl⟩
  · obtain rfl : a = b := h
    exact ⟨hstart, hsound, rfl⟩
  · rw [List.concat_eq_append] at h ⊢
    obtain ⟨c, hrs, hprev⟩ := aligned_append.mp h
    obtain ⟨hc, hprev_sound, hb⟩ := hprev
    have hmeet : (prev.oEnd, prev.nEnd) = (run.oStart, run.nStart) := Eq.trans hb hstart.symm
    simp only [Prod.mk.injEq] at hmeet
    rw [addRun_concat]
    split
    · next hboth =>
      rw [Bool.and_eq_true] at hboth
      refine aligned_append.mpr ⟨c, hrs, hc, ?_, rfl⟩
      have ho := hsound.original
      have hn := hsound.normal
      have hi := hsound.identity hboth.1
      have hpo := hprev_sound.original
      have hpn := hprev_sound.normal
      have hpi := hprev_sound.identity hboth.2
      exact ⟨by simp only; omega, by simp only; omega, fun _ => by simp only; omega⟩
    · refine aligned_append.mpr ⟨c, hrs, hc, hprev_sound, ?_, hsound, rfl⟩
      rw [hmeet.1, hmeet.2]

/-- What a run carried is still carried, and so is the stretch that is added. -/
theorem carries_addRun {a b : ℕ × ℕ} {rs : List Run} (h : Aligned a b rs) {run : Run}
    (hstart : (run.oStart, run.nStart) = b) (hsound : run.Sound) {e : Run}
    (he : e = run ∨ ∃ r ∈ rs, Carries r e) : ∃ r ∈ addRun rs run, Carries r e := by
  rcases rs.eq_nil_or_concat with rfl | ⟨rs, prev, rfl⟩
  · obtain rfl : e = run := by simpa using he
    exact ⟨e, by simp [addRun_nil], carries_self e⟩
  · rw [List.concat_eq_append] at h he ⊢
    obtain ⟨c, -, -, hprev_sound, hb⟩ := aligned_append.mp h
    have hmeet : (prev.oEnd, prev.nEnd) = (run.oStart, run.nStart) := Eq.trans hb hstart.symm
    simp only [Prod.mk.injEq] at hmeet
    rw [addRun_concat]
    split
    · next hboth =>
      rw [Bool.and_eq_true] at hboth
      have ho := hsound.original
      have hn := hsound.normal
      have hpo := hprev_sound.original
      have hpn := hprev_sound.normal
      have hpi := hprev_sound.identity hboth.2
      rcases he with rfl | ⟨r, hr, hcarries⟩
      · refine ⟨_, List.mem_append_right _ List.mem_cons_self, ?_, ?_⟩
        · intro hchanged
          rw [hboth.1] at hchanged
          cases hchanged
        · intro _
          exact ⟨rfl, by simp only; omega, le_rfl, by simp only; omega, le_rfl,
            by simp only; omega⟩
      · rcases List.mem_append.mp hr with hr | hr
        · exact ⟨r, List.mem_append_left _ hr, hcarries⟩
        · obtain rfl := List.mem_singleton.mp hr
          refine ⟨_, List.mem_append_right _ List.mem_cons_self, ?_, ?_⟩
          · intro hchanged
            -- an unchanged run carries no changed stretch
            rw [hcarries.changed hchanged, hchanged] at hboth
            cases hboth.2
          · intro hunchanged
            obtain ⟨-, h₁, h₂, h₃, h₄, h₅⟩ := hcarries.unchanged hunchanged
            exact ⟨rfl, h₁, by simp only; omega, h₃, by simp only; omega, h₅⟩
    · rcases he with rfl | ⟨r, hr, hcarries⟩
      · exact ⟨e, by simp, carries_self e⟩
      · refine ⟨r, ?_, hcarries⟩
        rcases List.mem_append.mp hr with hr | hr
        · exact List.mem_append_left _ hr
        · obtain rfl := List.mem_singleton.mp hr
          exact List.mem_append_right _ List.mem_cons_self

section Build

variable {U : Unicodedata} {text : PyStr}

/-- The stretch of a chunk whose normal form begins at `n`. -/
def stretch (U : Unicodedata) (text : PyStr) (n : ℕ) (c : ℕ × ℕ) : Run :=
  ⟨c.1, c.2, n, n + (U.nfc (slice text c.1 c.2)).length,
    U.nfc (slice text c.1 c.2) == slice text c.1 c.2⟩

/-- The length of the normal forms of some chunks. -/
def normalLength (U : Unicodedata) (text : PyStr) (cs : List (ℕ × ℕ)) : ℕ :=
  (cs.map fun c => (U.nfc (slice text c.1 c.2)).length).sum

theorem sound_stretch {c : ℕ × ℕ} (hlt : c.1 < c.2) (hle : c.2 ≤ text.length) (n : ℕ) :
    (stretch U text n c).Sound := by
  have hlength : (slice text c.1 c.2).length = c.2 - c.1 := by
    rw [slice, List.length_take, List.length_drop]
    omega
  have hne : slice text c.1 c.2 ≠ [] := by
    apply List.ne_nil_of_length_pos
    omega
  have hpos := List.length_pos_of_ne_nil (U.nfc_ne_nil _ hne)
  refine ⟨hlt, Nat.lt_add_of_pos_right hpos, ?_⟩
  intro hidentity
  have hsame : U.nfc (slice text c.1 c.2) = slice text c.1 c.2 := by
    simpa [stretch] using hidentity
  simp only [stretch, hsame]
  omega

/-- The loop of `_build_map` keeps the runs aligned; what it has carried stays carried. -/
structure Built (U : Unicodedata) (text : PyStr) (b : Building) (cs : List (ℕ × ℕ))
    (b' : Building) : Prop where
  aligned : Aligned (0, 0) (text.length, b'.nPos) b'.runs
  pieces : b.pieces.flatten.length = b.nPos → b'.pieces.flatten.length = b'.nPos
  kept : ∀ e, (∃ r ∈ b.runs, Carries r e) → ∃ r ∈ b'.runs, Carries r e
  carried : ∀ before c after, cs = before ++ c :: after →
    ∃ r ∈ b'.runs, Carries r (stretch U text (b.nPos + normalLength U text before) c)

theorem built_foldl {i : ℕ} {cs : List (ℕ × ℕ)} (hcs : Tiles id (fun _ => True) i cs text.length) {b : Building}
    (hb : Aligned (0, 0) (i, b.nPos) b.runs) :
    Built U text b cs (cs.foldl (Building.add U text) b) := by
  induction cs generalizing i b with
  | nil =>
    obtain rfl : i = text.length := hcs
    exact ⟨hb, id, fun _ => id, by simp⟩
  | cons c cs ih =>
    obtain ⟨rfl, hlt, -, hrest⟩ := hcs
    have hsound : (stretch U text b.nPos c).Sound := sound_stretch hlt hrest.le b.nPos
    have hnext : Aligned (0, 0) (c.2, (Building.add U text b c).nPos)
        (Building.add U text b c).runs := aligned_addRun hb rfl hsound
    have hbuilt := ih hrest hnext
    have hkeep : ∀ e, (e = stretch U text b.nPos c ∨ ∃ r ∈ b.runs, Carries r e) →
        ∃ r ∈ (Building.add U text b c).runs, Carries r e := fun e he =>
      carries_addRun hb rfl hsound he
    rw [List.foldl_cons]
    refine ⟨hbuilt.aligned, ?_, ?_, ?_⟩
    · intro hpieces
      apply hbuilt.pieces
      simp [Building.add, ← hpieces]
    · intro e he
      exact hbuilt.kept e (hkeep e (.inr he))
    · intro before d after hsplit
      cases before with
      | nil =>
        -- the first chunk is carried from this round on
        obtain ⟨rfl, rfl⟩ := List.cons.inj hsplit
        exact hbuilt.kept _ (hkeep _ (.inl rfl))
      | cons c' before =>
        obtain ⟨rfl, hcs⟩ := List.cons.inj hsplit
        have hcarried := hbuilt.carried before d after hcs
        have hpos : b.nPos + normalLength U text (c :: before) =
            (Building.add U text b c).nPos + normalLength U text before := by
          simp [normalLength, Building.add, Nat.add_assoc]
        rw [hpos]
        exact hcarried

end Build

/-! ## What is mapped back -/

/-- Of the stretch `e`, the slice from `start` to `stop` holds what belongs to the normalised
characters from `s` to `t`: all of it or nothing if the stretch was changed, character by
character if it was not. -/
structure Covers (s t start stop : ℕ) (e : Run) : Prop where
  changed : e.identity = false → ∀ p, e.oStart ≤ p → p < e.oEnd →
    ((start ≤ p ∧ p < stop) ↔ (e.nStart < t ∧ s < e.nEnd))
  unchanged : e.identity = true → ∀ k < e.oEnd - e.oStart,
    ((start ≤ e.oStart + k ∧ e.oStart + k < stop) ↔ (s ≤ e.nStart + k ∧ e.nStart + k < t))

section Covering

variable {a b : ℕ × ℕ} {rs : List Run} {r q w e : Run} {s t : ℕ}

theorem back_bounds (hr : r.Sound) (hlow : r.nStart ≤ s) (hhigh : s < r.nEnd) :
    r.oStart ≤ r.back s ∧ r.back s < r.oEnd := by
  have horiginal := hr.original
  unfold Run.back
  split
  · next hidentity =>
    have hsame := hr.identity hidentity
    omega
  · omega

theorem backEnd_bounds (hq : q.Sound) (hlow : q.nStart < t) (hhigh : t ≤ q.nEnd) :
    q.oStart < q.backEnd t ∧ q.backEnd t ≤ q.oEnd := by
  have horiginal := hq.original
  unfold Run.backEnd
  split
  · next hidentity =>
    have hsame := hq.identity hidentity
    omega
  · omega

theorem back_lt_backEnd (h : Aligned a b rs) (hr : r ∈ rs) (hq : q ∈ rs) (hst : s < t)
    (hrs : r.nStart ≤ s) (hsr : s < r.nEnd) (hqt : q.nStart < t) (htq : t ≤ q.nEnd) :
    r.back s < q.backEnd t := by
  have hr_sound := (h.bounds.2.2 r hr).1
  have hq_sound := (h.bounds.2.2 q hq).1
  have hback := back_bounds hr_sound hrs hsr
  have hbackEnd := backEnd_bounds hq_sound hqt htq
  rcases h.trichotomy hr hq with rfl | hbefore | hbefore
  · unfold Run.back Run.backEnd
    have horiginal := hr_sound.original
    split <;> omega
  · have := hbefore.1
    omega
  · have := hbefore.2
    omega

/-- The first offset is mapped back in front of, into or behind a run, as it stands to it. -/
theorem back_le_iff (h : Aligned a b rs) (hr : r ∈ rs) (hw : w ∈ rs) (hrs : r.nStart ≤ s)
    (hsr : s < r.nEnd) {p : ℕ} (hp : w.oStart ≤ p) (hp' : p < w.oEnd) :
    (w.identity = false → (r.back s ≤ p ↔ s < w.nEnd)) ∧
      (w.identity = true → ∀ n, p + w.nStart = n + w.oStart → (r.back s ≤ p ↔ s ≤ n)) := by
  have hback := back_bounds (h.bounds.2.2 r hr).1 hrs hsr
  have hw_sound := (h.bounds.2.2 w hw).1
  have hnormal := hw_sound.normal
  have hsame := hw_sound.identity
  rcases h.trichotomy hr hw with rfl | ⟨ho, hn⟩ | ⟨ho, hn⟩
  · constructor
    · intro hchanged
      simp only [Run.back, hchanged, Bool.false_eq_true, if_false]
      omega
    · intro hidentity n hpn
      simp only [Run.back, hidentity, if_true]
      omega
  · exact ⟨fun _ => by omega, fun _ n hpn => by omega⟩
  · exact ⟨fun _ => by omega, fun hidentity n hpn => by have := hsame hidentity; omega⟩

theorem lt_backEnd_iff (h : Aligned a b rs) (hq : q ∈ rs) (hw : w ∈ rs) (hqt : q.nStart < t)
    (htq : t ≤ q.nEnd) {p : ℕ} (hp : w.oStart ≤ p) (hp' : p < w.oEnd) :
    (w.identity = false → (p < q.backEnd t ↔ w.nStart < t)) ∧
      (w.identity = true → ∀ n, p + w.nStart = n + w.oStart → (p < q.backEnd t ↔ n < t)) := by
  have hback := backEnd_bounds (h.bounds.2.2 q hq).1 hqt htq
  have hw_sound := (h.bounds.2.2 w hw).1
  have hnormal := hw_sound.normal
  have hsame := hw_sound.identity
  rcases h.trichotomy hq hw with rfl | ⟨ho, hn⟩ | ⟨ho, hn⟩
  · constructor
    · intro hchanged
      simp only [Run.backEnd, hchanged, Bool.false_eq_true, if_false]
      omega
    · intro hidentity n hpn
      simp only [Run.backEnd, hidentity, if_true]
      omega
  · exact ⟨fun _ => by omega, fun _ n hpn => by omega⟩
  · exact ⟨fun _ => by omega, fun hidentity n hpn => by have := hsame hidentity; omega⟩

theorem covers_of_carries (h : Aligned a b rs) (hr : r ∈ rs) (hq : q ∈ rs) (hw : w ∈ rs)
    (hrs : r.nStart ≤ s) (hsr : s < r.nEnd) (hqt : q.nStart < t)
    (htq : t ≤ q.nEnd) (hcarries : Carries w e) : Covers s t (r.back s) (q.backEnd t) e := by
  constructor
  · intro hchanged p hp hp'
    obtain rfl := hcarries.changed hchanged
    rw [(back_le_iff h hr hw hrs hsr hp hp').1 hchanged,
      (lt_backEnd_iff h hq hw hqt htq hp hp').1 hchanged, and_comm]
  · intro hunchanged k hk
    obtain ⟨hidentity, ho, ho', -, -, hshift⟩ := hcarries.unchanged hunchanged
    have hp : w.oStart ≤ e.oStart + k := by omega
    have hp' : e.oStart + k < w.oEnd := by omega
    have hn : e.oStart + k + w.nStart = e.nStart + k + w.oStart := by omega
    rw [(back_le_iff h hr hw hrs hsr hp hp').2 hidentity _ hn,
      (lt_backEnd_iff h hq hw hqt htq hp hp').2 hidentity _ hn]

end Covering

/-- **Offsets into the NFC form are mapped back safely**: the chunks tile the text, and
whenever the map can be built, a pair of offsets becomes a proper slice of the text that
holds the characters belonging to it, chunk by chunk. -/
theorem offsets_cover (U : Unicodedata) (text : PyStr) :
    Tiles id (fun _ => True) 0 (chunks U text) text.length ∧
      ∀ m, buildMap U text (U.nfc text) = .ok m →
        ∀ s t, s < t → t ≤ (U.nfc text).length →
          ∃ start stop, m.start s = some start ∧ m.stop t = some stop ∧
            start < stop ∧ stop ≤ text.length ∧
            ∀ before c after, chunks U text = before ++ c :: after →
              Covers s t start stop (stretch U text (normalLength U text before) c) := by
  refine ⟨tiles_chunks U text, ?_⟩
  intro m hm s t hst ht
  have hnew : Aligned (0, 0) (0, 0) [] := rfl
  have hbuilt : Built U text ⟨[], [], 0⟩ (chunks U text)
      ((chunks U text).foldl (Building.add U text) ⟨[], [], 0⟩) :=
    built_foldl (tiles_chunks U text) hnew
  unfold buildMap at hm
  simp only at hm
  split at hm
  · cases hm
  next hjoined =>
  rw [not_ne_iff] at hjoined
  cases hm
  have hnPos := hbuilt.pieces rfl
  rw [hjoined] at hnPos
  have haligned := hbuilt.aligned
  rw [← hnPos] at haligned
  obtain ⟨r, hr, hrs, hsr⟩ := haligned.exists_run (Nat.zero_le s) (hst.trans_le ht)
  obtain ⟨q, hq, hqt, htq⟩ := haligned.exists_run (Nat.zero_le (t - 1))
    (show t - 1 < (U.nfc text).length by omega)
  have hqt' : q.nStart < t := by omega
  have htq' : t ≤ q.nEnd := by omega
  refine ⟨r.back s, q.backEnd t, start_eq haligned hr hrs hsr, stop_eq haligned hq hqt' htq',
    back_lt_backEnd haligned hr hq hst hrs hsr hqt' htq', ?_, ?_⟩
  · obtain ⟨hsound, -, -, hend, -⟩ := haligned.bounds.2.2 q hq
    exact (backEnd_bounds hsound hqt' htq').2.trans hend
  · intro before c after hsplit
    obtain ⟨w, hw, hcarries⟩ := hbuilt.carried before c after hsplit
    rw [Nat.zero_add] at hcarries
    exact covers_of_carries haligned hr hq hw hrs hsr hqt' htq' hcarries

/-- An acute accent behind an `e` is the only mark, and they compose. -/
def composeAcute : PyStr → PyStr
  | [] => []
  | [c] => [c]
  | c :: d :: s =>
      if c = .scalar 'e' ∧ d = .scalar '\u0301' then .scalar '\u00e9' :: composeAcute s
      else c :: composeAcute (d :: s)

def acute : Unicodedata where
  combining c := if c = .scalar '\u0301' then 230 else 0
  nfc := composeAcute
  nfc_ne_nil s hs := by
    match s with
    | [c] => simp [composeAcute]
    | c :: d :: s =>
      rw [composeAcute]
      split <;> simp

/-- The middle of three normalised characters stands for two of the text. -/
theorem offsets_cover_acute :
    ∃ m, buildMap acute "xe\u0301y".py (acute.nfc "xe\u0301y".py) = .ok m ∧
      m.start 1 = some 1 ∧ m.stop 2 = some 3 ∧
      ∀ before c after, chunks acute "xe\u0301y".py = before ++ c :: after →
        Covers 1 2 1 3 (stretch acute "xe\u0301y".py (normalLength acute "xe\u0301y".py before) c) := by
  have hmap : buildMap acute "xe\u0301y".py (acute.nfc "xe\u0301y".py) =
      .ok ⟨[⟨0, 1, 0, 1, true⟩, ⟨1, 3, 1, 2, false⟩, ⟨3, 4, 2, 3, true⟩], 3, 4⟩ := by
    decide +kernel
  obtain ⟨start, stop, hstart, hstop, -, -, hcover⟩ :=
    (offsets_cover acute "xe\u0301y".py).2 _ hmap 1 2 (by decide) (by decide +kernel)
  have hstart' : some start = some 1 := hstart.symm.trans (by decide +kernel)
  have hstop' : some stop = some 3 := hstop.symm.trans (by decide +kernel)
  cases hstart'
  cases hstop'
  exact ⟨_, hmap, hstart, hstop, hcover⟩

end CorpLlmGateway.Detectors.CorpNer
