import CorpLlmGateway.Data.Intervals
import CorpLlmGateway.Detectors.RegexChecksum
import CorpLlmGateway.Text.Runs

/-!
# What the card scan finds

`_card_candidates` looks into each digit run of a text for the numbers that an issuer could
have given out and that pass the Luhn check. A number may be preceded or followed by other
digits of its run, but not both.

* `mem_runs_iff` — the pass over the text finds its maximal digit runs;
* `mem_runCards_iff` — the windows of one run that qualify;
* `mergeSpans_spec` — merging keeps the union and leaves disjoint spans;
* `cardCandidates_spec` — the spans of the whole text.
-/

namespace CorpLlmGateway.Detectors

open TextScan Regex Runs Intervals CorpLlmGateway.Sanitizer

/-! ## The specification -/

/-- A single character between the digits of a run. -/
def isCardSep (c : Char) : Bool := c == ' ' || c == '-'

/-- A digit run that no other one contains. -/
def MaximalRun (text : Text) (a b : ℕ) : Prop := Maximal Unicode.isDecimal isCardSep text a b

/-- The digits of a range of a text. -/
def digitsIn (text : Text) (a b : ℕ) : Text := (slice text a b).filter Unicode.isDecimal

/-- A window `[s, e)` of the run `[a, b)` that is taken for a card number. -/
structure CardWindow (text : Text) (a b s e : ℕ) : Prop where
  inside : a ≤ s ∧ s < e ∧ e ≤ b
  first : HoldsAt Unicode.isDecimal text s
  last : HoldsAt Unicode.isDecimal text (e - 1)
  flush : s = a ∨ e = b
  length : (digitsIn text s e).length ∈ cardLengths ((digitsIn text s e).take 4)
  luhn : luhnOk (digitsIn text s e) = true

/-! ## Digit runs -/

theorem isCardSep_of_isDecimal (c : Char) (h : Unicode.isDecimal c = true) : isCardSep c = false := by
  have hspace : Unicode.isDecimal ' ' = false := by decide
  have hdash : Unicode.isDecimal '-' = false := by decide
  rw [Bool.eq_false_iff]
  intro hsep
  simp only [isCardSep, Bool.or_eq_true, beq_iff_eq] at hsep
  rcases hsep with rfl | rfl
  · rw [hspace] at h
    cases h
  · rw [hdash] at h
    cases h

theorem digitRunPat_eq : digitRunPat = runPat Unicode.isDecimal isCardSep := by
  have hsep : cardSep = .chr isCardSep := by
    unfold cardSep Pat.cls
    congr 1
    funext c
    simp [isCardSep, Bool.beq_eq_decide_eq]
  rw [digitRunPat, hsep]
  rfl

/-- The pass over a text finds its maximal digit runs. -/
theorem mem_runs_iff {text : Text} {hit : Hit (List (ℕ × ℕ × ℕ))} :
    hit ∈ finditer (matcher digitRunPat) text ↔
      MaximalRun text hit.start hit.stop ∧ hit.val = [] := by
  rw [digitRunPat_eq]
  exact mem_finditer_iff isCardSep_of_isDecimal

/-! ## Merging -/

section Merging

variable {spans : List (ℕ × ℕ)}

/-- Disjoint spans in increasing order. -/
def Apart (x y : ℕ × ℕ) : Prop := x.1 < y.1 ∧ x.2 ≤ y.1

theorem mergeFrom_spec {cur : ℕ × ℕ} (hcur : cur.1 < cur.2) (hne : ∀ s ∈ spans, s.1 < s.2)
    (hsorted : (cur :: spans).Pairwise fun x y => x.1 ≤ y.1) :
    (mergeFrom cur spans).Pairwise Apart ∧
      (∀ m ∈ mergeFrom cur spans, m.1 < m.2 ∧ cur.1 ≤ m.1) ∧
      ∀ p, Within (· ∈ mergeFrom cur spans) p ↔
        (cur.1 ≤ p ∧ p < cur.2) ∨ Within (· ∈ spans) p := by
  induction spans generalizing cur with
  | nil => simp [mergeFrom, Within, hcur]
  | cons s ss ih =>
    obtain ⟨hs, hss⟩ := List.forall_mem_cons.mp hne
    rw [List.pairwise_cons] at hsorted
    obtain ⟨hfirst, hrest⟩ := hsorted
    have hle := hfirst s List.mem_cons_self
    have hwithin : ∀ p, Within (· ∈ s :: ss) p ↔ (s.1 ≤ p ∧ p < s.2) ∨ Within (· ∈ ss) p := by
      simp [Within]
    unfold mergeFrom
    split
    · next hlt =>
      -- `s` begins inside `cur`, so the two together are one span
      obtain ⟨hpair, hmem, hunion⟩ := ih (show (cur.1, max cur.2 s.2).1 < _ by simp [hcur])
        hss (List.pairwise_cons.mpr
          ⟨fun t ht => hfirst t (List.mem_cons_of_mem _ ht), (List.pairwise_cons.mp hrest).2⟩)
      refine ⟨hpair, hmem, fun p => ?_⟩
      rw [hunion, hwithin, ← or_assoc]
      refine or_congr_left ?_
      simp only [lt_max_iff]
      omega
    · next hge =>
      obtain ⟨hpair, hmem, hunion⟩ := ih hs hss hrest
      refine ⟨List.pairwise_cons.mpr ⟨fun m hm => ?_, hpair⟩, ?_, fun p => ?_⟩
      · have hm' := (hmem m hm).2
        constructor <;> omega
      · refine List.forall_mem_cons.mpr ⟨⟨hcur, le_rfl⟩, fun m hm => ?_⟩
        obtain ⟨hm, hle'⟩ := hmem m hm
        exact ⟨hm, hle.trans hle'⟩
      · rw [hwithin, ← hunion p]
        simp [Within]

/-- The order in which `sorted` puts spans. -/
def SpanLe (a b : ℕ × ℕ) : Prop := a.1 < b.1 ∨ (a.1 = b.1 ∧ a.2 ≤ b.2)

instance : Std.Total SpanLe := ⟨fun a b => by unfold SpanLe; omega⟩

instance : IsTrans (ℕ × ℕ) SpanLe := ⟨fun a b c hab hbc => by unfold SpanLe at *; omega⟩

instance : DecidableRel SpanLe := fun a b =>
  inferInstanceAs (Decidable (a.1 < b.1 ∨ (a.1 = b.1 ∧ a.2 ≤ b.2)))

/-- Merging keeps the union and leaves disjoint spans in increasing order. -/
theorem mergeSpans_spec (hne : ∀ s ∈ spans, s.1 < s.2) :
    (mergeSpans spans).Pairwise Apart ∧ (∀ m ∈ mergeSpans spans, m.1 < m.2) ∧
      ∀ p, Within (· ∈ mergeSpans spans) p ↔ Within (· ∈ spans) p := by
  have hmem : ∀ s, s ∈ spans.insertionSort SpanLe ↔ s ∈ spans := fun s =>
    List.mem_insertionSort SpanLe
  have hsorted : (spans.insertionSort SpanLe).Pairwise fun x y => x.1 ≤ y.1 := by
    refine (List.pairwise_insertionSort SpanLe spans).imp ?_
    intro a b hab
    unfold SpanLe at hab
    omega
  have hmerge : ∀ s ss, spans.insertionSort SpanLe = s :: ss → mergeSpans spans = mergeFrom s ss := by
    intro s ss hsort
    have hsorted' : spans.insertionSort (fun a b => a.1 < b.1 ∨ a.1 = b.1 ∧ a.2 ≤ b.2) = s :: ss :=
      hsort
    rw [mergeSpans, hsorted']
  cases hsort : spans.insertionSort SpanLe with
  | nil =>
    have hnil : spans = [] := by
      rw [List.eq_nil_iff_forall_not_mem]
      intro s hs
      rw [← hmem, hsort] at hs
      cases hs
    have hempty : mergeSpans [] = [] := rfl
    rw [hnil, hempty]
    simp [Within]
  | cons s ss =>
    rw [hmerge s ss hsort]
    rw [hsort] at hsorted
    have hcons : ∀ t ∈ s :: ss, t.1 < t.2 := by
      intro t ht
      rw [← hsort, hmem] at ht
      exact hne t ht
    obtain ⟨hs, hss⟩ := List.forall_mem_cons.mp hcons
    obtain ⟨hpair, hmem', hunion⟩ := mergeFrom_spec hs hss hsorted
    refine ⟨hpair, fun m hm => (hmem' m hm).1, fun p => ?_⟩
    rw [hunion]
    simp only [Within, ← hmem, hsort, List.mem_cons, exists_eq_or_imp]

end Merging

/-! ## The windows of a run -/

section Windows

theorem cardLengths_bounds {digits : Text} {len : ℕ} (h : len ∈ cardLengths digits) : 13 ≤ len := by
  -- the branches of `cardLengths` return one of these
  have hall : ∀ l ∈ [[], [16, 19], [16], [15], [14, 16], [13, 16, 19]], ∀ n ∈ l, 13 ≤ n := by decide
  have hite : ∀ {c : Prop} [Decidable c] {a b : List ℕ} {table : List (List ℕ)}, a ∈ table →
      b ∈ table → (if c then a else b) ∈ table := by
    intro c _ a b table ha hb
    split
    · exact ha
    · exact hb
  refine hall (cardLengths digits) ?_ len h
  unfold cardLengths
  repeat' apply hite
  all_goals simp

theorem getElem?_digitOffsets {pos i q : ℕ} {run : Text} :
    (digitOffsets pos run)[i]? = some q ↔
      ∃ x, q = pos + x ∧ HoldsAt Unicode.isDecimal run x ∧
        (run.take x).countP Unicode.isDecimal = i := by
  induction run generalizing pos i with
  | nil => simp [digitOffsets, HoldsAt]
  | cons c cs ih =>
    have hsucc : ∀ x, HoldsAt Unicode.isDecimal (c :: cs) (x + 1) ↔
        HoldsAt Unicode.isDecimal cs x := fun x => by simp [HoldsAt]
    unfold digitOffsets
    split
    · next hc =>
      cases i with
      | zero =>
        simp only [List.getElem?_cons_zero, Option.some.injEq]
        constructor
        · rintro rfl
          exact ⟨0, rfl, ⟨c, rfl, hc⟩, rfl⟩
        · rintro ⟨x, rfl, hx, hcount⟩
          cases x with
          | zero => rfl
          | succ x => simp [hc] at hcount
      | succ i =>
        rw [List.getElem?_cons_succ, ih]
        constructor
        · rintro ⟨x, rfl, hx, hcount⟩
          exact ⟨x + 1, by omega, (hsucc x).mpr hx, by simp [hc, hcount]⟩
        · rintro ⟨x, rfl, hx, hcount⟩
          cases x with
          | zero => simp at hcount
          | succ x =>
            exact ⟨x, by omega, (hsucc x).mp hx, by simpa [hc] using hcount⟩
    · next hc =>
      rw [ih]
      constructor
      · rintro ⟨x, rfl, hx, hcount⟩
        exact ⟨x + 1, by omega, (hsucc x).mpr hx, by simp [hc, hcount]⟩
      · rintro ⟨x, rfl, hx, hcount⟩
        cases x with
        | zero =>
          obtain ⟨e, he, hd⟩ := hx
          cases he
          exact absurd hd hc
        | succ x => exact ⟨x, by omega, (hsucc x).mp hx, by simpa [hc] using hcount⟩

theorem length_digitOffsets (pos : ℕ) (run : Text) :
    (digitOffsets pos run).length = run.countP Unicode.isDecimal := by
  induction run generalizing pos with
  | nil => rfl
  | cons c cs ih =>
    unfold digitOffsets
    split
    · next hc => simp [ih, hc]
    · next hc => simp [ih, hc]

theorem ungroup_eq_filter {run : Text}
    (h : ∀ c ∈ run, Unicode.isDecimal c = true ∨ isCardSep c = true) :
    ungroup run = run.filter Unicode.isDecimal := by
  refine List.filter_congr fun c hc => ?_
  rcases h c hc with hd | hs
  · have hsep := isCardSep_of_isDecimal c hd
    simp only [isCardSep, Bool.or_eq_false_iff] at hsep
    simp [hd, bne, hsep.1, hsep.2]
  · have hd : Unicode.isDecimal c = false := by
      rw [Bool.eq_false_iff]
      intro hd
      rw [isCardSep_of_isDecimal c hd] at hs
      cases hs
    simp only [isCardSep, Bool.or_eq_true] at hs
    rcases hs with hs | hs <;> simp [hd, bne, hs]

/-- The digit windows that `_card_candidates` tries, in the numbers of the digits. -/
theorem mem_runCards {pos : ℕ} {run : Text} {span : ℕ × ℕ} (hlen : run.countP Unicode.isDecimal =
    (ungroup run).length) :
    span ∈ runCards pos run ↔
      ∃ i len, len ∈ cardLengths (slice (ungroup run) i (i + 4)) ∧
        i + len ≤ (ungroup run).length ∧ (i = 0 ∨ i + len = (ungroup run).length) ∧
        luhnOk (slice (ungroup run) i (i + len)) = true ∧
        (digitOffsets pos run)[i]? = some span.1 ∧
        (digitOffsets pos run)[i + len - 1]? = some (span.2 - 1) ∧ 0 < span.2 := by
  have hn := length_digitOffsets pos run
  rw [hlen] at hn
  simp only [runCards, List.mem_flatMap, List.mem_range, List.mem_filterMap, hn]
  constructor
  · rintro ⟨i, hi, len, hmem, hspan⟩
    have hge := cardLengths_bounds hmem
    split at hspan
    · cases hspan
    split at hspan
    · cases hspan
    split at hspan
    · next hle hflush hluhn =>
      have hi' : i < (digitOffsets pos run).length := by omega
      have hj : i + len - 1 < (digitOffsets pos run).length := by omega
      cases hspan
      refine ⟨i, len, hmem, by omega, ?_, hluhn, ?_, ?_, by omega⟩
      · simp only [cardStrayMargin] at hflush
        omega
      · rw [List.getD_eq_getElem _ _ hi', List.getElem?_eq_getElem hi']
      · rw [List.getD_eq_getElem _ _ hj, List.getElem?_eq_getElem hj]
        rfl
    · cases hspan
  · rintro ⟨i, len, hmem, hle, hflush, hluhn, hfirst, hlast, hpos⟩
    have hge := cardLengths_bounds hmem
    refine ⟨i, by omega, len, hmem, ?_⟩
    rw [if_neg (by omega), if_neg (by omega), if_pos hluhn]
    simp only [List.getD_eq_getElem?_getD, hfirst, hlast, Option.getD_some, Option.some.injEq]
    ext
    · rfl
    · simp only
      omega

theorem countP_take_pos {p : Char → Bool} {run : Text} (h : HoldsAt p run 0) {x : ℕ} :
    (run.take x).countP p = 0 → x = 0 := by
  intro hcount
  by_contra hx
  have hle := countP_take_le p run (Nat.one_le_iff_ne_zero.mpr hx)
  rw [countP_take_succ h, hcount] at hle
  omega

theorem countP_take_full {p : Char → Bool} {run : Text} (h : HoldsAt p run (run.length - 1)) {y : ℕ}
    (hy : y ≤ run.length) : (run.take y).countP p = run.countP p → y = run.length := by
  intro hcount
  by_contra hne
  have hle := countP_take_le p run (show y ≤ run.length - 1 by omega)
  have hsucc := countP_take_succ h
  rw [Nat.sub_add_cancel (by omega), List.take_length] at hsucc
  omega

theorem slice_take_four (digits : Text) {i len : ℕ} (h : 4 ≤ len) :
    (slice digits i (i + len)).take 4 = slice digits i (i + 4) := by
  simp only [slice, Nat.add_sub_cancel_left, List.take_take, Nat.min_eq_left h]

/-- The windows of one run that qualify. -/
theorem mem_runCards_iff {pos s e : ℕ} {run : Text}
    (hchars : ∀ c ∈ run, Unicode.isDecimal c = true ∨ isCardSep c = true)
    (hfirst : HoldsAt Unicode.isDecimal run 0)
    (hlast : HoldsAt Unicode.isDecimal run (run.length - 1)) :
    (s, e) ∈ runCards pos run ↔
      ∃ x y, s = pos + x ∧ e = pos + y ∧ CardWindow run 0 run.length x y := by
  have hdigits := ungroup_eq_filter hchars
  have hcount : run.countP Unicode.isDecimal = (run.filter Unicode.isDecimal).length :=
    List.countP_eq_length_filter
  -- the digits of a window, in the numbers of the digits
  have hwindow : ∀ {x y i len : ℕ}, x ≤ y → (run.take x).countP Unicode.isDecimal = i →
      (run.take y).countP Unicode.isDecimal = i + len →
      digitsIn run x y = slice (run.filter Unicode.isDecimal) i (i + len) := by
    intro x y i len hxy hx hy
    rw [digitsIn, filter_slice hxy, hx, hy]
  rw [mem_runCards (by rw [hdigits, hcount]), hdigits]
  constructor
  · rintro ⟨i, len, hmem, hle, hflush, hluhn, hs, he, hpos⟩
    have hge := cardLengths_bounds hmem
    obtain ⟨x, rfl, hx, hxi⟩ := getElem?_digitOffsets.mp hs
    obtain ⟨z, hz, hzd, hzi⟩ := getElem?_digitOffsets.mp he
    simp only at hz hpos
    obtain rfl : e = pos + (z + 1) := by omega
    have hyi := countP_take_succ hzd
    rw [hzi, Nat.sub_add_cancel (by omega)] at hyi
    have hxz : x < z := by
      by_contra hzx
      have hmono := countP_take_le Unicode.isDecimal run (Nat.le_of_not_lt hzx)
      omega
    have hz' : z < run.length := by
      obtain ⟨c, hc, -⟩ := hzd
      exact (List.getElem?_eq_some_iff.mp hc).1
    have hdig := hwindow (Nat.le_succ_of_le hxz.le) hxi hyi
    refine ⟨x, z + 1, rfl, rfl, ⟨by omega, hx, hzd, ?_, ?_, ?_⟩⟩
    · rcases hflush with rfl | hflush
      · exact .inl (countP_take_pos hfirst hxi)
      · exact .inr (countP_take_full hlast hz' (by rw [hyi, hflush, hcount]))
    · rw [hdig, slice_length (Nat.le_add_right i len) hle, Nat.add_sub_cancel_left,
        slice_take_four _ (by omega)]
      exact hmem
    · rw [hdig]
      exact hluhn
  · rintro ⟨x, y, rfl, rfl, hw⟩
    obtain ⟨-, hxy, hy⟩ := hw.inside
    set i := (run.take x).countP Unicode.isDecimal with hi
    set len := (digitsIn run x y).length with hlen
    have hge : 13 ≤ len := cardLengths_bounds hw.length
    have hyi : (run.take y).countP Unicode.isDecimal = i + len := by
      have hsplit : run.take y = run.take x ++ slice run x y := by
        rw [← slice_zero, ← slice_zero, slice_append_slice (Nat.zero_le x) hxy.le]
      rw [hsplit, List.countP_append, hlen, digitsIn, ← List.countP_eq_length_filter]
    have hdig := hwindow hxy.le rfl hyi
    have hle : i + len ≤ (run.filter Unicode.isDecimal).length := by
      rw [← hyi, ← hcount]
      exact (List.take_sublist y run).countP_le
    refine ⟨i, len, ?_, hle, ?_, ?_, ?_, ?_, by simp only; omega⟩
    · rw [← slice_take_four _ (by omega : 4 ≤ len), ← hdig]
      exact hw.length
    · rcases hw.flush with rfl | rfl
      · exact .inl (by simp [hi])
      · refine .inr ?_
        rw [← hyi, List.take_length, hcount]
    · rw [← hdig]
      exact hw.luhn
    · exact getElem?_digitOffsets.mpr ⟨x, rfl, hw.first, rfl⟩
    · refine getElem?_digitOffsets.mpr ⟨y - 1, by simp only; omega, hw.last, ?_⟩
      have hsucc := countP_take_succ hw.last
      rw [Nat.sub_add_cancel (by omega), hyi] at hsucc
      omega

end Windows

/-! ## The whole text -/

section Text

variable {text : Text} {a b : ℕ}

theorem holdsAt_slice {p : Char → Bool} {x : ℕ} (hx : a + x < b) :
    HoldsAt p (slice text a b) x ↔ HoldsAt p text (a + x) := by
  have hget : (slice text a b)[x]? = text[a + x]? := by
    rw [slice, List.getElem?_take_of_lt (by omega), List.getElem?_drop]
  simp only [HoldsAt, hget]

/-- A window of a range is a window of the text. -/
theorem cardWindow_slice {x y : ℕ} (hab : a ≤ b) :
    CardWindow (slice text a b) 0 (b - a) x y ↔ CardWindow text a b (a + x) (a + y) := by
  constructor
  · intro h
    obtain ⟨-, hxy, hy⟩ := h.inside
    have hdig : digitsIn (slice text a b) x y = digitsIn text (a + x) (a + y) := by
      rw [digitsIn, slice_slice (by omega), digitsIn]
    refine ⟨by omega, (holdsAt_slice (by omega)).mp h.first, ?_, by have := h.flush; omega,
      hdig ▸ h.length, hdig ▸ h.luhn⟩
    rw [show a + y - 1 = a + (y - 1) by omega]
    exact (holdsAt_slice (by omega)).mp h.last
  · intro h
    obtain ⟨-, hxy, hy⟩ := h.inside
    have hdig : digitsIn (slice text a b) x y = digitsIn text (a + x) (a + y) := by
      rw [digitsIn, slice_slice (by omega), digitsIn]
    refine ⟨by omega, (holdsAt_slice (by omega)).mpr h.first, ?_, by have := h.flush; omega,
      hdig.symm ▸ h.length, hdig.symm ▸ h.luhn⟩
    refine (holdsAt_slice (by omega)).mpr ?_
    rw [show a + (y - 1) = a + y - 1 by omega]
    exact h.last

theorem mem_slice_of_isRun (h : IsRun Unicode.isDecimal isCardSep text a b) :
    ∀ c ∈ slice text a b, Unicode.isDecimal c = true ∨ isCardSep c = true := by
  intro c hc
  obtain ⟨x, hx, rfl⟩ := List.getElem_of_mem hc
  have hlt : a + x < b := by
    rw [slice_length h.1.le h.le_length] at hx
    have := h.1
    omega
  have hget : (slice text a b)[x]? = some (slice text a b)[x] := List.getElem?_eq_getElem hx
  rcases h.2 (a + x) (Nat.le_add_right a x) hlt with hd | ⟨hs, -⟩
  · obtain ⟨c, hc, hd⟩ := (holdsAt_slice hlt).mpr hd
    rw [hget] at hc
    cases hc
    exact .inl hd
  · obtain ⟨c, hc, hs⟩ := (holdsAt_slice hlt).mpr hs
    rw [hget] at hc
    cases hc
    exact .inr hs

/-- The spans that `_card_candidates` collects in a run are its windows. -/
theorem mem_runCards_slice (h : IsRun Unicode.isDecimal isCardSep text a b) {s e : ℕ} :
    (s, e) ∈ runCards a (slice text a b) ↔ CardWindow text a b s e := by
  have hlt := h.1
  have hlen : (slice text a b).length = b - a := slice_length hlt.le h.le_length
  have hfirst : HoldsAt Unicode.isDecimal (slice text a b) 0 :=
    (holdsAt_slice (by omega)).mpr h.first
  have hlast : HoldsAt Unicode.isDecimal (slice text a b) ((slice text a b).length - 1) := by
    rw [hlen, holdsAt_slice (by omega), show a + (b - a - 1) = b - 1 by omega]
    exact h.last
  rw [mem_runCards_iff (mem_slice_of_isRun h) hfirst hlast, hlen]
  constructor
  · rintro ⟨x, y, rfl, rfl, hw⟩
    exact (cardWindow_slice hlt.le).mp hw
  · intro hw
    obtain ⟨hs, hse, -⟩ := hw.inside
    refine ⟨s - a, e - a, by omega, by omega, (cardWindow_slice hlt.le).mpr ?_⟩
    rwa [Nat.add_sub_cancel' hs, Nat.add_sub_cancel' (hs.trans hse.le)]

/-- What one run of the text yields. -/
theorem mergeSpans_runCards (h : IsRun Unicode.isDecimal isCardSep text a b) :
    (mergeSpans (runCards a (slice text a b))).Pairwise Apart ∧
      (∀ m ∈ mergeSpans (runCards a (slice text a b)), m.1 < m.2 ∧ a ≤ m.1 ∧ m.2 ≤ b) ∧
      ∀ p, Within (· ∈ mergeSpans (runCards a (slice text a b))) p ↔
        ∃ s e, CardWindow text a b s e ∧ s ≤ p ∧ p < e := by
  have hne : ∀ s ∈ runCards a (slice text a b), s.1 < s.2 := fun s hs =>
    ((mem_runCards_slice h).mp hs).inside.2.1
  obtain ⟨hpair, hmem, hunion⟩ := mergeSpans_spec hne
  have hwithin : ∀ p, Within (· ∈ mergeSpans (runCards a (slice text a b))) p ↔
      ∃ s e, CardWindow text a b s e ∧ s ≤ p ∧ p < e := by
    intro p
    rw [hunion]
    simp only [Within, Prod.exists, mem_runCards_slice h]
  refine ⟨hpair, fun m hm => ?_, hwithin⟩
  -- the first and the last position of a merged span lie in windows of the run
  have hlt := hmem m hm
  obtain ⟨s, e, hw, hs, -⟩ := (hwithin m.1).mp ⟨m, hm, le_rfl, hlt⟩
  obtain ⟨s', e', hw', -, he'⟩ := (hwithin (m.2 - 1)).mp ⟨m, hm, by omega, by omega⟩
  have hin := hw.inside
  have hin' := hw'.inside
  omega

/-- **The card scan.** The spans are in increasing order and disjoint, and together they cover
exactly the windows, at one end of a maximal digit run, that an issuer could have given out
and that pass the Luhn check. -/
theorem cardCandidates_spec (text : Text) :
    (cardCandidates text).Pairwise (fun x y => x.1 < y.1 ∧ x.2 ≤ y.1) ∧
      (∀ c ∈ cardCandidates text, c.1 < c.2) ∧
      ∀ p, Within (· ∈ cardCandidates text) p ↔
        ∃ a b s e, MaximalRun text a b ∧ CardWindow text a b s e ∧ s ≤ p ∧ p < e := by
  have hrun : ∀ hit ∈ finditer (matcher digitRunPat) text,
      IsRun Unicode.isDecimal isCardSep text hit.start hit.stop := fun hit hh =>
    (mem_runs_iff.mp hh).1.run
  refine ⟨?_, ?_, fun p => ?_⟩
  · refine List.pairwise_flatMap.mpr ⟨fun hit hh => (mergeSpans_runCards (hrun hit hh)).1, ?_⟩
    refine (finditer_pairwise _ text).imp_of_mem fun {x y} hx hy hxy c hc c' hc' => ?_
    -- spans of different runs
    have hin := (mergeSpans_runCards (hrun x hx)).2.1 c hc
    have hin' := (mergeSpans_runCards (hrun y hy)).2.1 c' hc'
    omega
  · intro c hc
    obtain ⟨hit, hh, hc⟩ := List.mem_flatMap.mp hc
    exact ((mergeSpans_runCards (hrun hit hh)).2.1 c hc).1
  · constructor
    · rintro ⟨c, hc, hle, hlt⟩
      obtain ⟨hit, hh, hc⟩ := List.mem_flatMap.mp hc
      obtain ⟨s, e, hw, hs⟩ := ((mergeSpans_runCards (hrun hit hh)).2.2 p).mp ⟨c, hc, hle, hlt⟩
      exact ⟨hit.start, hit.stop, s, e, (mem_runs_iff.mp hh).1, hw, hs⟩
    · rintro ⟨a, b, s, e, hmax, hw, hs⟩
      have hh : (⟨a, b, []⟩ : Hit (List (ℕ × ℕ × ℕ))) ∈ finditer (matcher digitRunPat) text :=
        mem_runs_iff.mpr ⟨hmax, rfl⟩
      obtain ⟨c, hc, hp⟩ := ((mergeSpans_runCards hmax.run).2.2 p).mpr ⟨s, e, hw, hs⟩
      exact ⟨c, List.mem_flatMap.mpr ⟨_, hh, hc⟩, hp⟩

/-- A card number between two words. -/
theorem cardCandidates_spec_visa :
    let text := "pay 4111 1111 1111 1111 now".toList
    (4, 23) ∈ cardCandidates text ∧ ((4, 23) : ℕ × ℕ).1 < ((4, 23) : ℕ × ℕ).2 ∧
      ∃ a b s e, MaximalRun text a b ∧ CardWindow text a b s e ∧ s ≤ 10 ∧ 10 < e := by
  intro text
  have hmem : (4, 23) ∈ cardCandidates text := by decide +kernel
  obtain ⟨-, hne, hunion⟩ := cardCandidates_spec text
  exact ⟨hmem, hne _ hmem, (hunion 10).mp ⟨_, hmem, by decide, by decide⟩⟩

end Text

end CorpLlmGateway.Detectors
