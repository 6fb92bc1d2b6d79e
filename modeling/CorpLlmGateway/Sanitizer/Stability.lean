import CorpLlmGateway.Sanitizer.Restoration

/-!
# Which texts are stable

Two ways in which the tokens of a text stay unambiguous while they are restored:

* `ForeignMarked.stable` — bracket tokens, none of which occurs in the restored text;
* `BracketMarked.stable` — all bracket tokens of a text in which any two `[` have a
  `]` between them, with originals free of brackets.

Each is a predicate on marked texts that makes them unambiguous and that restoring a
token keeps.
-/

namespace CorpLlmGateway.Sanitizer

open TextScan

/-- A predicate that restoring a token keeps and that makes a text unambiguous makes
it stable. -/
theorem stable_of_invariant {entries : List ReverseEntry} {P : Marks → Prop}
    (hstep : ∀ ms ms', P ms → RestoreStep ReverseEntry.replacement ms ms' → P ms')
    (hunamb : ∀ ms, P ms → Unambiguous entries ms) {ms : Marks} (h : P ms) :
    Stable entries ms := by
  intro ms' hr
  apply hunamb
  induction hr with
  | refl => exact h
  | tail _ hr ih => exact hstep _ _ ih hr

/-- The tokens left after one was restored. -/
theorem token_mem_of_step {xs ys : Marks} {e e' : ReverseEntry}
    (h : .token e' ∈ xs ++ (plains _ e.replacement ++ ys)) : .token e' ∈ xs ++ .token e :: ys :=
  token_mem_of_restores (.single (.mk xs e ys)) h

/-- A position in a plain mark is its only character. -/
theorem plain_split {c : Char} {z z' : Text}
    (h : (Mark.plain c : Mark Char ReverseEntry).text ReverseEntry.placeholder = z ++ z')
    (hz' : z' ≠ []) : z = [] ∧ z' = [c] := by
  rcases List.cons_eq_append_iff.mp h with ⟨rfl, h'⟩ | ⟨_, _, hnil⟩
  · exact ⟨rfl, h'⟩
  · exact absurd (List.append_eq_nil_iff.mp hnil.symm).2 hz'

/-! ## Bracket tokens -/

section Bracketed

variable {entries : List ReverseEntry} (htok : ∀ e ∈ entries, IsToken '[' ']' e.placeholder)
  (hnodup : (entries.map ReverseEntry.placeholder).Nodup)

include htok

include hnodup

/-- Bracket tokens are unambiguous if none starts at a plain character: a token
has no other one inside or as a prefix. -/
theorem unambiguous_of_tokens {ms : Marks} (hknown : ∀ e, .token e ∈ ms → e ∈ entries)
    (hplain : ∀ xs c ys, ms = xs ++ .plain c :: ys → ∀ e ∈ entries,
      ¬ e.placeholder <+: c :: written ys) : Unambiguous entries ms := by
  intro xs m ys z z' heq hm hz' e he
  cases m with
  | plain c =>
    rcases plain_split hm hz' with ⟨rfl, rfl⟩
    constructor
    · intro hpre
      exact absurd hpre (hplain xs c ys heq e he)
    · intro hc
      exact absurd hc.1 (by simp)
  | token e' =>
    have he' : e' ∈ entries := hknown e' (by simp [heq])
    have hm' : e'.placeholder = z ++ z' := hm
    by_cases hz : z = []
    · subst hz
      rw [List.nil_append] at hm'
      subst hm'
      constructor
      · intro hpre
        have hpp := (htok e he).eq_of_prefix_append (htok e' he') hpre
        have hee : e = e' := List.inj_on_of_nodup_map hnodup he he' hpp
        exact ⟨by rw [hee], rfl⟩
      · rintro ⟨hee, _⟩
        rw [Mark.token.inj hee]
        exact List.prefix_append _ _
    · constructor
      · intro hpre
        exact absurd hpre ((htok e he).not_prefix_inside (htok e' he') (by decide) hm' hz hz')
      · intro hc
        exact absurd hc.2 hz

end Bracketed

/-! ## Tokens that are foreign to the text -/

/-- Bracket tokens none of which occurs in the restored text. -/
structure ForeignMarked (entries : List ReverseEntry) (ms : Marks) : Prop where
  known : ∀ e, .token e ∈ ms → e ∈ entries
  absent : ∀ e ∈ entries, ¬ e.placeholder <:+: restored ms

/-- Up to its first token, a marked text is the restored one. -/
theorem exists_common_prefix {entries : List ReverseEntry}
    (htok : ∀ e ∈ entries, IsToken '[' ']' e.placeholder) {ms : Marks}
    (hknown : ∀ e, .token e ∈ ms → e ∈ entries) :
    ∃ a, a <+: restored ms ∧ (written ms = a ∨ ∃ r, written ms = a ++ '[' :: r) := by
  induction ms with
  | nil => exact ⟨[], List.prefix_rfl, Or.inl rfl⟩
  | cons m ms ih =>
    cases m with
    | plain c =>
      rcases ih fun e he => hknown e (List.mem_cons_of_mem _ he) with ⟨a, ha, hw⟩
      refine ⟨c :: a, List.cons_prefix_cons.mpr ⟨rfl, ha⟩, ?_⟩
      rcases hw with hw | ⟨r, hw⟩
      · exact Or.inl (congrArg (List.cons c) hw)
      · exact Or.inr ⟨r, congrArg (List.cons c) hw⟩
    | token e =>
      rcases htok e (hknown e List.mem_cons_self) with ⟨w, _, _, hw⟩
      refine ⟨[], List.nil_prefix, Or.inr ⟨w ++ [']'] ++ written ms, ?_⟩⟩
      simp [written, Mark.text, hw]

theorem ForeignMarked.stable {entries : List ReverseEntry}
    (htok : ∀ e ∈ entries, IsToken '[' ']' e.placeholder)
    (hnodup : (entries.map ReverseEntry.placeholder).Nodup) {ms : Marks}
    (h : ForeignMarked entries ms) : Stable entries ms := by
  refine stable_of_invariant ?_ ?_ h
  · rintro _ _ h ⟨xs, e, ys⟩
    refine ⟨fun e' he' => h.known e' (token_mem_of_step he'), ?_⟩
    have hval := marked_val_of_restores (.single (.mk xs e ys) : Restores
      ReverseEntry.replacement _ _)
    intro e' he'
    rw [restored, hval]
    exact h.absent e' he'
  · intro ms h
    refine unambiguous_of_tokens htok hnodup h.known ?_
    intro xs c ys heq e he hpre
    apply h.absent e he
    -- an occurrence that starts at a plain character ends before the next token
    have hys : ∀ e', .token e' ∈ ys → e' ∈ entries := fun e' he' => h.known e' (by simp [heq, he'])
    rcases exists_common_prefix htok hys with ⟨a, ha, hw⟩
    have hca : e.placeholder <+: c :: a := by
      rcases hw with hw | ⟨r, hw⟩
      · rwa [hw] at hpre
      · rw [hw] at hpre
        exact (htok e he).prefix_of_append (by decide) (List.cons_ne_nil c a) hpre
    have hin : c :: a <:+: restored ms := by
      rcases ha with ⟨r, hr⟩
      refine ⟨restored xs, r, ?_⟩
      simp [heq, restored, Mark.text, ← hr]
    exact hca.isInfix.trans hin

/-! ## Marking a text -/

/-- Every text can be marked from the left, wherever a placeholder stands. -/
theorem exists_marks {entries : List ReverseEntry} (hne : ∀ e ∈ entries, e.placeholder ≠ [])
    (t : Text) :
    ∃ ms : Marks, written ms = t ∧ (∀ e, .token e ∈ ms → e ∈ entries) ∧
      ∀ xs c ys, ms = xs ++ .plain c :: ys → ∀ e ∈ entries, ¬ e.placeholder <+: c :: written ys := by
  induction hn : t.length using Nat.strong_induction_on generalizing t with
  | _ n ih =>
    by_cases hex : ∃ e ∈ entries, e.placeholder <+: t
    · rcases hex with ⟨e, he, t', rfl⟩
      have hpos : 0 < e.placeholder.length := List.length_pos_iff.mpr (hne e he)
      rcases ih t'.length (by simp [← hn, hpos]) t' rfl with ⟨ms, rfl, htoken, hplain⟩
      refine ⟨.token e :: ms, rfl, ?_, ?_⟩
      · intro e' he'
        rcases List.mem_cons.mp he' with hee | he'
        · exact Mark.token.inj hee ▸ he
        · exact htoken e' he'
      · intro xs c ys heq
        cases xs with
        | nil => simp at heq
        | cons x xs => exact hplain xs c ys (List.cons.inj heq).2
    · cases t with
      | nil => exact ⟨[], rfl, by simp, by simp⟩
      | cons c t =>
        rcases ih t.length (by simp [← hn]) t rfl with ⟨ms, rfl, htoken, hplain⟩
        refine ⟨.plain c :: ms, rfl, fun e he => htoken e (by simpa using he), ?_⟩
        intro xs d ys heq e he hpre
        cases xs with
        | nil =>
          rcases List.cons.inj heq with ⟨hcd, rfl⟩
          rcases Mark.plain.inj hcd with rfl
          exact hex ⟨e, he, hpre⟩
        | cons x xs => exact hplain xs d ys (List.cons.inj heq).2 e he hpre

/-! ## Well-bracketed texts -/

/-- Any two `[` have a `]` between them. -/
def WellBracketed (t : Text) : Prop :=
  ∀ a b c, t = a ++ '[' :: (b ++ '[' :: c) → ']' ∈ b

theorem WellBracketed.middle {x t y : Text} (h : WellBracketed (x ++ (t ++ y))) :
    WellBracketed t := by
  rintro a b c rfl
  apply h (x ++ a) b (c ++ y)
  simp

theorem wellBracketed_cons {c : Char} {t : Text} :
    WellBracketed (c :: t) ↔
      WellBracketed t ∧ (c = '[' → ∀ b r, t = b ++ '[' :: r → ']' ∈ b) := by
  constructor
  · intro h
    refine ⟨WellBracketed.middle (x := [c]) (y := []) (by simpa using h), ?_⟩
    rintro rfl b r rfl
    exact h [] b r rfl
  · rintro ⟨ht, hc⟩ a b r heq
    cases a with
    | nil =>
      rcases List.cons.inj heq with ⟨rfl, rfl⟩
      exact hc rfl b r rfl
    | cons x a =>
      rcases List.cons.inj heq with ⟨_, rfl⟩
      exact ht a b r rfl

/-- A token may be replaced by a text without `[`. -/
theorem WellBracketed.replace_token {x tok o y : Text} (htok : IsToken '[' ']' tok)
    (ho : '[' ∉ o) (h : WellBracketed (x ++ (tok ++ y))) : WellBracketed (x ++ (o ++ y)) := by
  induction x with
  | nil =>
    have hy : WellBracketed y := WellBracketed.middle (x := tok) (y := []) (by simpa using h)
    clear h
    induction o with
    | nil => exact hy
    | cons c o ih =>
      rw [List.mem_cons, not_or] at ho
      exact wellBracketed_cons.mpr ⟨ih ho.2, fun hc => absurd hc.symm ho.1⟩
  | cons c x ih =>
    rcases wellBracketed_cons.mp h with ⟨hx, hc⟩
    refine wellBracketed_cons.mpr ⟨ih hx, ?_⟩
    rintro rfl b r heq
    -- the token opens a bracket, so one is closed before it
    have hclosed : ']' ∈ x := by
      rcases htok with ⟨w, _, _, rfl⟩
      exact hc rfl x (w ++ [']'] ++ y) (by simp)
    rcases append_split heq with ⟨x', rfl, _⟩ | ⟨x', _, rfl⟩
    · exact hc rfl b (x' ++ (tok ++ y)) (by simp)
    · exact List.mem_append_left _ hclosed

/-- A token at an open bracket ends with the first closing one. -/
theorem token_prefix_of_closed {tok u v : Text} (htok : IsToken '[' ']' tok) (hu : ']' ∈ u)
    (h : tok <+: '[' :: (u ++ v)) : tok <+: '[' :: u := by
  rcases htok with ⟨w, _, hw, rfl⟩
  rcases List.eq_append_cons_of_mem hu with ⟨u₁, u₂, rfl, hu₁⟩
  rw [List.cons_prefix_cons] at h ⊢
  rcases h.2 with ⟨r, hr⟩
  have heq : w = u₁ := middle_unique hw hu₁ (by simpa using hr)
  refine ⟨rfl, u₂, ?_⟩
  simp [heq]

/-- A marked text over a bracketed mapping: well bracketed, and no placeholder is
left unmarked. -/
structure BracketMarked (entries : List ReverseEntry) (ms : Marks) : Prop where
  known : ∀ e, .token e ∈ ms → e ∈ entries
  wellBracketed : WellBracketed (written ms)
  plain : ∀ xs c ys, ms = xs ++ .plain c :: ys → ∀ e ∈ entries,
    ¬ e.placeholder <+: c :: written ys

/-- Where a plain character stands after a token was restored: before the token,
inside the restored text or behind it. -/
theorem plain_after_step {xs ys xs' ys' : Marks} {o : Text} {c : Char}
    (h : xs ++ (plains _ o ++ ys) = xs' ++ .plain c :: ys') :
    (∃ zs, xs = xs' ++ .plain c :: zs ∧ ys' = zs ++ (plains _ o ++ ys)) ∨
    (∃ a b, o = a ++ c :: b ∧ xs' = xs ++ plains _ a ∧ ys' = plains _ b ++ ys) ∨
    ∃ zs, ys = zs ++ .plain c :: ys' ∧ xs' = xs ++ (plains _ o ++ zs) := by
  rcases append_split h with ⟨zs, hxs, hys⟩ | ⟨zs, hzs, rfl⟩
  · exact Or.inl ⟨zs, hxs, hys⟩
  · rcases append_split hzs with ⟨zs', ho, rfl⟩ | ⟨zs', hys, rfl⟩
    · rcases List.map_eq_append_iff.mp ho with ⟨a, r, rfl, rfl, hr⟩
      rcases List.map_eq_cons_iff.mp hr with ⟨d, b, rfl, hd, rfl⟩
      rcases Mark.plain.inj hd with rfl
      exact Or.inr (Or.inl ⟨a, b, rfl, rfl, rfl⟩)
    · exact Or.inr (Or.inr ⟨zs', hys, rfl⟩)

/-- A marked text over a bracketed mapping is stable when the originals are free of
brackets. -/
theorem BracketMarked.stable {entries : List ReverseEntry}
    (htok : ∀ e ∈ entries, IsToken '[' ']' e.placeholder)
    (hnodup : (entries.map ReverseEntry.placeholder).Nodup)
    (hfree : ∀ e ∈ entries, '[' ∉ e.replacement) {ms : Marks} (h : BracketMarked entries ms) :
    Stable entries ms := by
  refine stable_of_invariant ?_
    (fun ms h => unambiguous_of_tokens htok hnodup h.known h.plain) h
  rintro _ _ h ⟨xs, e, ys⟩
  have he : e ∈ entries := h.known e (by simp)
  have hwb : WellBracketed (written xs ++ (e.placeholder ++ written ys)) := by
    simpa [written, Mark.text] using h.wellBracketed
  refine ⟨fun e' he' => h.known e' (token_mem_of_step he'), ?_, ?_⟩
  · simpa [written] using hwb.replace_token (htok e he) (hfree e he)
  · intro xs' c ys' heq e' he' hpre
    have hc : c = '[' := by
      rcases htok e' he' with ⟨w, _, _, hw⟩
      rw [hw, List.cons_prefix_cons] at hpre
      exact hpre.1.symm
    rcases plain_after_step heq with ⟨zs, rfl, rfl⟩ | ⟨a, b, ho, _, _⟩ | ⟨zs, rfl, rfl⟩
    · -- a bracket in front of the token is closed before it
      have hclosed : ']' ∈ written zs := by
        apply hwb (written xs') (written zs) (e.placeholder.tail ++ written ys)
        rcases htok e he with ⟨w, _, _, hw⟩
        simp [written, Mark.text, hw, hc]
      have htext : c :: written (zs ++ (plains _ e.replacement ++ ys)) =
          '[' :: (written zs ++ (e.replacement ++ written ys)) := by
        simp [written, hc]
      rw [htext] at hpre
      refine h.plain xs' c (zs ++ .token e :: ys) (by simp) e' he' ?_
      refine (token_prefix_of_closed (htok e' he') hclosed hpre).trans ?_
      simp [written, hc]
    · -- the restored text brings no bracket
      exact hfree e he (by simp [ho, hc])
    · exact h.plain (xs ++ .token e :: zs) c ys' (by simp) e' he' hpre

/-- A well-bracketed text has stable marks under a mapping from bracket tokens to originals
without brackets. -/
theorem exists_stable_marks {pairs : List Pair} (htok : ∀ e ∈ pairs, IsToken '[' ']' e.2)
    (hfree : ∀ e ∈ pairs, '[' ∉ e.1) {text : Text} (hwb : WellBracketed text) :
    ∃ ms : Marks, written ms = text ∧ (∀ e, .token e ∈ ms → e ∈ reverseEntries pairs) ∧
      Stable (reverseEntries pairs) ms := by
  have htok' : ∀ e ∈ reverseEntries pairs, IsToken '[' ']' e.placeholder := fun e he =>
    htok _ (mem_of_mem_reverseEntries he)
  rcases exists_marks (fun e he => (htok' e he).ne_nil) text with ⟨ms, rfl, hknown, hplain⟩
  have hmarked : BracketMarked (reverseEntries pairs) ms := ⟨hknown, hwb, hplain⟩
  exact ⟨ms, rfl, hknown, hmarked.stable htok' (reverseEntries_nodup pairs) fun e he =>
    hfree _ (mem_of_mem_reverseEntries he)⟩

end CorpLlmGateway.Sanitizer
