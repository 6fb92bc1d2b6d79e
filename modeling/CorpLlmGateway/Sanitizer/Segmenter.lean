import CorpLlmGateway.Data.Intervals
import CorpLlmGateway.Sanitizer.Placeholder

/-!
# The segmenter

The model of `sanitizer/segmenter/segment.py`: a text is split at fenced code blocks,
and a block into comments and code.

* `splitSegments_tiles` — the segments tile the text: each is the slice it names, and
  the next one starts where it ends;
* `splitSegments_contiguous` — the same as properties of the list of segments.
-/

namespace CorpLlmGateway.Sanitizer.Segmenter

open TextScan Regex Pat CorpLlmGateway.Sanitizer

inductive SegmentKind where
  | prose
  | code
  | comment
deriving DecidableEq, Repr

structure Segment where
  text : Text
  kind : SegmentKind
  start : ℕ
  stop : ℕ
deriving DecidableEq, Repr

/-- Any character, line feeds included. -/
def dotAll : Pat := chr fun _ => true

/-- `_FENCE_RE`; group 1 is the code. -/
def fencePat : Pat :=
  seqs [str "```", star (notCls "\n`" []), lit '\n', group 1 (rep false 0 none dotAll), str "```"]

/-- `_BLOCK_COMMENT_RE`. -/
def blockCommentPat : Pat := seqs [str "/*", rep false 0 none dotAll, str "*/"]

/-- `_LINE_COMMENT_RE`. -/
def lineCommentPat : Pat := seq (alt (str "//") (lit '#')) (star (notCls "\n" []))

def ranges (pattern : Pat) (text : Text) : List (ℕ × ℕ) :=
  (finditer (matcher pattern) text).map fun m => (m.start, m.stop)

/-- Block comments, and line comments that do not start inside one, in order. -/
def commentSpans (code : Text) : List (ℕ × ℕ) :=
  let blocks := ranges blockCommentPat code
  let lines := (ranges lineCommentPat code).filter fun l =>
    !blocks.any fun b => b.1 ≤ l.1 && l.1 < b.2
  (blocks ++ lines).insertionSort fun a b => a.1 < b.1 ∨ (a.1 = b.1 ∧ a.2 ≤ b.2)

/-- The loop of `_split_code_block` from position `pos` of the block. -/
def codeSegments (code : Text) (offset : ℕ) : ℕ → List (ℕ × ℕ) → List Segment
  | pos, [] =>
      if pos < code.length then [⟨code.drop pos, .code, offset + pos, offset + code.length⟩] else []
  | pos, c :: cs =>
      -- a comment that overlaps an earlier one is clipped
      let s := max c.1 pos
      let e := max c.2 pos
      if e ≤ pos then codeSegments code offset pos cs
      else
        (if pos < s then [⟨slice code pos s, .code, offset + pos, offset + s⟩] else []) ++
          ⟨slice code s e, .comment, offset + s, offset + e⟩ :: codeSegments code offset e cs

/-- `_split_code_block(code, abs_offset)`. -/
def splitCodeBlock (code : Text) (offset : ℕ) : List Segment :=
  codeSegments code offset 0 (commentSpans code)

/-- A prose segment, unless it is empty. -/
def proseSegment (text : Text) (a b : ℕ) : List Segment :=
  if a < b then [⟨slice text a b, .prose, a, b⟩] else []

/-- The loop of `split_segments` from position `pos`. -/
def segmentsFrom (text : Text) : ℕ → List (Hit (List (ℕ × ℕ × ℕ))) → List Segment
  | pos, [] => proseSegment text pos text.length
  | pos, m :: ms =>
      let block := (span m 1).getD (m.stop, m.stop)
      proseSegment text pos m.start ++ proseSegment text m.start block.1 ++
        splitCodeBlock (slice text block.1 block.2) block.1 ++
        proseSegment text block.2 m.stop ++ segmentsFrom text m.stop ms

/-- `split_segments(text)`. -/
def splitSegments (text : Text) : List Segment :=
  segmentsFrom text 0 (finditer (matcher fencePat) text)

/-! ## The segments tile the text -/

/-- Consecutive segments of a text from `a` to `b`, each with the text it covers. -/
abbrev Tiles (text : Text) : ℕ → List Segment → ℕ → Prop :=
  Intervals.Tiles (fun s => (s.start, s.stop)) fun s => s.text = slice text s.start s.stop

theorem tiles_prose (text : Text) {a b : ℕ} (hab : a ≤ b) : Tiles text a (proseSegment text a b) b := by
  unfold proseSegment
  split
  · next h => exact ⟨rfl, h, rfl, rfl⟩
  · next h => exact show a = b by omega

theorem tiles_code {text : Text} {a b : ℕ} (hab : a ≤ b) (hb : b ≤ text.length) (pos : ℕ)
    (hpos : pos ≤ b - a) (comments : List (ℕ × ℕ))
    (h : ∀ c ∈ comments, c.1 < c.2 ∧ c.2 ≤ b - a) :
    Tiles text (a + pos) (codeSegments (slice text a b) a pos comments) b := by
  have hlen : (slice text a b).length = b - a := slice_length hab hb
  induction comments generalizing pos with
  | nil =>
    unfold codeSegments
    rw [hlen]
    split
    · next hlt =>
      have hend : a + (b - a) = b := by omega
      refine ⟨rfl, ?_, ?_, ?_⟩
      · show a + pos < a + (b - a)
        omega
      · show (slice text a b).drop pos = slice text (a + pos) (a + (b - a))
        rw [slice, slice, List.drop_take, List.drop_drop]
        congr 1
        omega
      · exact hend
    · next hge => exact show a + pos = b by omega
  | cons c cs ih =>
    rcases h c List.mem_cons_self with ⟨hlt, hend⟩
    have hcs : ∀ d ∈ cs, d.1 < d.2 ∧ d.2 ≤ b - a := fun d hd => h d (List.mem_cons_of_mem _ hd)
    unfold codeSegments
    simp only
    split
    · exact ih pos hpos hcs
    · next he =>
      have hs : Tiles text (a + pos) (if pos < max c.1 pos then
          [⟨slice (slice text a b) pos (max c.1 pos), .code, a + pos, a + max c.1 pos⟩] else [])
          (a + max c.1 pos) := by
        split
        · next hlt' =>
          refine ⟨rfl, ?_, slice_slice (by omega), rfl⟩
          show a + pos < a + max c.1 pos
          omega
        · next hge => exact show a + pos = a + max c.1 pos by omega
      refine hs.append ⟨rfl, ?_, slice_slice (by omega), ih _ (by omega) hcs⟩
      show a + max c.1 pos < a + max c.2 pos
      omega

theorem ranges_bounds {pattern : Pat} (hp : pattern.consumes = true) {text : Text} :
    ∀ r ∈ ranges pattern text, r.1 < r.2 ∧ r.2 ≤ text.length := by
  intro r hr
  rcases List.mem_map.mp hr with ⟨m, hm, rfl⟩
  exact ⟨(matcher_proper hp).start_lt hm, (matcher_sound pattern).stop_le hm⟩

theorem commentSpans_bounds {code : Text} :
    ∀ c ∈ commentSpans code, c.1 < c.2 ∧ c.2 ≤ code.length := by
  intro c hc
  rcases List.mem_append.mp ((List.mem_insertionSort _).mp hc) with hc | hc
  · exact ranges_bounds rfl c hc
  · exact ranges_bounds rfl c (List.mem_filter.mp hc).1

theorem tiles_codeBlock {text : Text} {a b : ℕ} (hab : a ≤ b) (hb : b ≤ text.length) :
    Tiles text a (splitCodeBlock (slice text a b) a) b := by
  refine tiles_code hab hb 0 (Nat.zero_le _) _ ?_
  intro c hc
  rw [← slice_length hab hb]
  exact commentSpans_bounds c hc

/-- The block of a fence lies inside it. -/
theorem block_bounds {text : Text} {m : Hit (List (ℕ × ℕ × ℕ))}
    (hm : m ∈ finditer (matcher fencePat) text) :
    m.start ≤ ((span m 1).getD (m.stop, m.stop)).1 ∧
      ((span m 1).getD (m.stop, m.stop)).1 ≤ ((span m 1).getD (m.stop, m.stop)).2 ∧
      ((span m 1).getD (m.stop, m.stop)).2 ≤ m.stop ∧ m.stop ≤ text.length := by
  have hstop := (matcher_sound fencePat).stop_le hm
  cases hs : span m 1 with
  | none => exact ⟨(mem_finditer hm).2.1, le_rfl, le_rfl, hstop⟩
  | some r => exact span_bounds hm hs

theorem tiles_segmentsFrom {text : Text} (pos : ℕ) (hpos : pos ≤ text.length)
    (ms : List (Hit (List (ℕ × ℕ × ℕ)))) (hms : ∀ m ∈ ms, m ∈ finditer (matcher fencePat) text)
    (hcur : ∀ m ∈ ms, pos ≤ m.start)
    (hsort : ms.Pairwise fun a b => a.start < b.start ∧ a.stop ≤ b.start) :
    Tiles text pos (segmentsFrom text pos ms) text.length := by
  induction ms generalizing pos with
  | nil => exact tiles_prose text hpos
  | cons m ms ih =>
    rw [List.pairwise_cons] at hsort
    rcases block_bounds (hms m List.mem_cons_self) with ⟨h₁, h₂, h₃, h₄⟩
    have hrest := ih m.stop h₄ (fun x hx => hms x (List.mem_cons_of_mem _ hx))
      (fun x hx => (hsort.1 x hx).2) hsort.2
    unfold segmentsFrom
    exact ((((tiles_prose text (hcur m List.mem_cons_self)).append (tiles_prose text h₁)).append
      (tiles_codeBlock h₂ (h₃.trans h₄))).append (tiles_prose text h₃)).append hrest

/-- **The segments tile the text.** -/
theorem splitSegments_tiles (text : Text) : Tiles text 0 (splitSegments text) text.length :=
  tiles_segmentsFrom 0 (Nat.zero_le _) _ (fun _ h => h) (fun _ _ => Nat.zero_le _)
    (finditer_pairwise _ _)

/-- The segments of a text, whatever fences and comments it has: none is empty, each is the
slice it names and starts where the previous one ends, the first at 0, and the last one
ends with the text. An empty text has no segment. -/
theorem splitSegments_contiguous (text : Text) :
    (∀ s ∈ splitSegments text, s.text ≠ [] ∧ s.start < s.stop ∧ s.stop ≤ text.length ∧
      s.text = slice text s.start s.stop) ∧
    (splitSegments text).IsChain (fun s t => t.start = s.stop) ∧
    (splitSegments text).head?.map Segment.start = (if text = [] then none else some 0) ∧
    (splitSegments text).getLast?.map Segment.stop =
      (if text = [] then none else some text.length) := by
  have htiles := splitSegments_tiles text
  refine ⟨?_, htiles.isChain, ?_⟩
  · intro s hs
    obtain ⟨-, hlt, hstop, htext⟩ := htiles.mem s hs
    refine ⟨?_, hlt, hstop, htext⟩
    intro hnil
    have hlen := slice_length (Nat.le_of_lt hlt) hstop
    rw [← htext, hnil, List.length_nil] at hlen
    omega
  · by_cases hnil : text = []
    · rw [if_pos hnil, if_pos hnil, hnil]
      decide
    · have hpos : 0 < text.length := List.length_pos_iff.mpr hnil
      rw [if_neg hnil, if_neg hnil]
      exact ⟨htiles.head?_start hpos, htiles.getLast?_stop hpos⟩

end CorpLlmGateway.Sanitizer.Segmenter
