import CorpLlmGateway.Text.Scan

/-!
# Marked texts

A text in which some stretches are marked as tokens. `tok t` is how the token `t`
is written and `val t` what it stands for, so `marked tok ms` is the text as it is
written and `marked val ms` the text with every token restored. Restoring tokens
one by one turns their marks into plain characters.

* `marked_split` — a position of the text lies in exactly one mark;
* `splice_tokenHits` — rewriting the occurrences of a token restores it;
* `marked_val_of_restores` — restoring some tokens does not change what the text
  stands for.
-/

namespace TextScan

variable {α τ : Type}

/-- A plain character, or a token. -/
inductive Mark (α τ : Type) where
  | plain (c : α)
  | token (t : τ)
deriving DecidableEq, Repr

/-- A mark as text, tokens written by `tok`. -/
def Mark.text (tok : τ → List α) : Mark α τ → List α
  | .plain c => [c]
  | .token t => tok t

/-- The text of a list of marks. -/
def marked (tok : τ → List α) (ms : List (Mark α τ)) : List α := ms.flatMap (Mark.text tok)

/-- A text without tokens. -/
def plains (τ : Type) (s : List α) : List (Mark α τ) := s.map .plain

section Basic

variable (tok : τ → List α)

@[simp] theorem marked_nil : marked tok [] = [] := rfl

@[simp] theorem marked_cons (m : Mark α τ) (ms : List (Mark α τ)) :
    marked tok (m :: ms) = m.text tok ++ marked tok ms := rfl

@[simp] theorem marked_append (ms ms' : List (Mark α τ)) :
    marked tok (ms ++ ms') = marked tok ms ++ marked tok ms' := List.flatMap_append

@[simp] theorem marked_plains (s : List α) : marked tok (plains τ s) = s := by
  induction s with
  | nil => rfl
  | cons c s ih =>
    show c :: marked tok (plains τ s) = c :: s
    rw [ih]

@[simp] theorem plains_append (s s' : List α) : plains τ (s ++ s') = plains τ s ++ plains τ s' :=
  List.map_append

theorem token_not_mem_plains (s : List α) (t : τ) : Mark.token t ∉ plains τ s := by
  simp [plains]

/-- A token behind a plain text. -/
theorem token_after_plains {s : List α} {ms xs ys : List (Mark α τ)} {t : τ}
    (h : plains τ s ++ ms = xs ++ .token t :: ys) :
    ∃ xs', xs = plains τ s ++ xs' ∧ ms = xs' ++ .token t :: ys := by
  induction s generalizing xs with
  | nil => exact ⟨xs, rfl, h⟩
  | cons c s ih =>
    cases xs with
    | nil => exact absurd (List.cons.inj h).1 (by simp)
    | cons x xs =>
      rcases List.cons.inj h with ⟨rfl, h'⟩
      rcases ih h' with ⟨xs', rfl, rfl⟩
      exact ⟨xs', rfl, rfl⟩

/-- Marks without tokens are plain text. -/
theorem exists_plains {ms : List (Mark α τ)} (h : ∀ t, Mark.token t ∉ ms) :
    ∃ s, ms = plains τ s := by
  induction ms with
  | nil => exact ⟨[], rfl⟩
  | cons m ms ih =>
    rcases ih fun t ht => h t (List.mem_cons_of_mem _ ht) with ⟨s, rfl⟩
    cases m with
    | plain c => exact ⟨c :: s, rfl⟩
    | token t => exact absurd List.mem_cons_self (h t)

end Basic

/-! ## Positions -/

/-- An element of a joined list lies in the first part or in the second. -/
theorem append_split {γ : Type} {l r l' r' : List γ} {x : γ} (h : l ++ r = l' ++ x :: r') :
    (∃ z, l = l' ++ x :: z ∧ r' = z ++ r) ∨ ∃ z, r = z ++ x :: r' ∧ l' = l ++ z := by
  rcases List.append_eq_append_iff.mp h with ⟨z, rfl, hz⟩ | ⟨z, rfl, hz⟩
  · exact Or.inr ⟨z, hz, rfl⟩
  · cases z with
    | nil => exact Or.inr ⟨[], by simpa using hz.symm, by simp⟩
    | cons y z =>
      rcases List.cons.inj hz with ⟨rfl, hz'⟩
      exact Or.inl ⟨z, rfl, hz'⟩

section Positions

variable {tok : τ → List α}

/-- A position before the end of the text lies in a mark. -/
theorem marked_split {ms : List (Mark α τ)} {a b : List α} (h : marked tok ms = a ++ b)
    (hb : b ≠ []) :
    ∃ xs m ys z z', ms = xs ++ m :: ys ∧ m.text tok = z ++ z' ∧ z' ≠ [] ∧
      a = marked tok xs ++ z ∧ b = z' ++ marked tok ys := by
  induction ms generalizing a with
  | nil =>
    have hnil := List.append_eq_nil_iff.mp h.symm
    exact absurd hnil.2 hb
  | cons m ms ih =>
    rw [marked_cons] at h
    rcases List.append_eq_append_iff.mp h with ⟨a', rfl, ha'⟩ | ⟨z', hz', hb'⟩
    · rcases ih ha' with ⟨xs, m', ys, z, z', rfl, hm, hz, rfl, rfl⟩
      refine ⟨m :: xs, m', ys, z, z', rfl, hm, hz, ?_, rfl⟩
      simp
    · by_cases hz : z' = []
      · -- the position is the end of the mark, so it belongs to the next one
        subst hz
        rw [List.nil_append] at hb'
        rcases ih (a := []) (by rw [hb', List.nil_append]) with
          ⟨xs, m', ys, z, z', rfl, hm, hz, hnil, rfl⟩
        refine ⟨m :: xs, m', ys, z, z', rfl, hm, hz, ?_, rfl⟩
        rw [List.append_nil] at hz'
        rw [marked_cons, hz', List.append_assoc, ← hnil, List.append_nil]
      · exact ⟨[], m, ms, a, z', rfl, hz', hz, by simp, hb'⟩

/-- Cutting a marked text cuts its marks, and at most one token is cut in two. -/
theorem marked_cut {ms : List (Mark α τ)} {a b : List α} (h : marked tok ms = a ++ b) :
    ∃ xs ys s, ms = xs ++ ys ∧ a = marked tok xs ++ s ∧ marked tok ys = s ++ b ∧
      (s = [] ∨ ∃ t ys', ys = .token t :: ys' ∧ s <+: tok t ∧ s ≠ tok t) := by
  by_cases hb : b = []
  · exact ⟨ms, [], [], by simp, by simpa [hb] using h.symm, by simp [hb], Or.inl rfl⟩
  · rcases marked_split h hb with ⟨xs, m, ys, z, z', rfl, hm, hz', rfl, rfl⟩
    refine ⟨xs, m :: ys, z, rfl, rfl, by simp [hm], ?_⟩
    cases m with
    | plain c =>
      left
      rcases List.cons_eq_append_iff.mp hm with ⟨hz, _⟩ | ⟨_, _, hnil⟩
      · exact hz
      · exact absurd (List.append_eq_nil_iff.mp hnil.symm).2 hz'
    | token t =>
      right
      refine ⟨t, ys, rfl, ⟨z', hm.symm⟩, ?_⟩
      intro heq
      have hlen := congrArg List.length hm
      simp only [Mark.text, heq, List.length_append] at hlen
      exact hz' (List.length_eq_zero_iff.mp (by omega))

/-- Of two tokens at different positions, one ends before the other starts. -/
theorem tokens_disjoint (tok : τ → List α) {xs ys xs' ys' : List (Mark α τ)} {t t' : τ}
    (h : xs ++ .token t :: ys = xs' ++ .token t' :: ys')
    (hlt : (marked tok xs).length < (marked tok xs').length) :
    (marked tok xs).length + (tok t).length ≤ (marked tok xs').length := by
  rcases List.append_eq_append_iff.mp h with ⟨ws, rfl, hws⟩ | ⟨ws, rfl, _⟩
  · cases ws with
    | nil => simp at hlt
    | cons m ws =>
      rcases List.cons.inj hws with ⟨rfl, _⟩
      simp [Mark.text]
  · simp only [marked_append, List.length_append] at hlt
    omega

end Positions

/-! ## Restoring -/

/-- One token is restored. -/
inductive RestoreStep (val : τ → List α) : List (Mark α τ) → List (Mark α τ) → Prop
  | mk (xs : List (Mark α τ)) (t : τ) (ys : List (Mark α τ)) :
      RestoreStep val (xs ++ .token t :: ys) (xs ++ (plains τ (val t) ++ ys))

/-- Some tokens are restored. -/
abbrev Restores (val : τ → List α) : List (Mark α τ) → List (Mark α τ) → Prop :=
  Relation.ReflTransGen (RestoreStep val)

theorem marked_val_of_restores {val : τ → List α} {ms ms' : List (Mark α τ)}
    (h : Restores val ms ms') : marked val ms' = marked val ms := by
  induction h with
  | refl => rfl
  | tail _ hstep ih =>
    rw [← ih]
    cases hstep
    simp [Mark.text]

/-- Tokens are only removed. -/
theorem token_mem_of_restores {val : τ → List α} {ms ms' : List (Mark α τ)} {t : τ}
    (h : Restores val ms ms') (ht : Mark.token t ∈ ms') : Mark.token t ∈ ms := by
  induction h with
  | refl => exact ht
  | tail _ hstep ih =>
    apply ih
    cases hstep with
    | mk xs u ys =>
      rcases List.mem_append.mp ht with ht | ht
      · exact List.mem_append_left _ ht
      · rcases List.mem_append.mp ht with ht | ht
        · exact absurd ht (token_not_mem_plains _ _)
        · exact List.mem_append_right _ (List.mem_cons_of_mem _ ht)

/-- A part of a marked text is restored in place. -/
theorem Restores.context {val : τ → List α} {ms ms' : List (Mark α τ)} (h : Restores val ms ms')
    (xs ys : List (Mark α τ)) : Restores val (xs ++ (ms ++ ys)) (xs ++ (ms' ++ ys)) := by
  induction h with
  | refl => exact .refl
  | tail _ hstep ih =>
    refine ih.tail ?_
    cases hstep with
    | mk xs' t ys' =>
      have hctx : RestoreStep val ((xs ++ xs') ++ .token t :: (ys' ++ ys))
          ((xs ++ xs') ++ (plains τ (val t) ++ (ys' ++ ys))) := .mk _ t _
      simpa using hctx

section Entry

variable [DecidableEq τ] (tok val : τ → List α)

/-- Every occurrence of the token `t` restored. -/
def restore (t : τ) : List (Mark α τ) → List (Mark α τ)
  | [] => []
  | .plain c :: ms => .plain c :: restore t ms
  | .token u :: ms =>
      if u = t then plains τ (val t) ++ restore t ms else .token u :: restore t ms

theorem restores_restore (t : τ) (ms : List (Mark α τ)) : Restores val ms (restore val t ms) := by
  induction ms with
  | nil => exact .refl
  | cons m ms ih =>
    cases m with
    | plain c => simpa [restore] using ih.context [.plain c] []
    | token u =>
      by_cases hu : u = t
      · subst hu
        have hstep : RestoreStep val (.token u :: ms) (plains τ (val u) ++ ms) := .mk [] u ms
        refine .head hstep ?_
        simpa [restore] using ih.context (plains τ (val u)) []
      · simpa [restore, hu] using ih.context [.token u] []

theorem token_mem_restore {t u : τ} {ms : List (Mark α τ)}
    (h : Mark.token u ∈ restore val t ms) : u ≠ t ∧ Mark.token u ∈ ms := by
  refine ⟨?_, token_mem_of_restores (restores_restore val t ms) h⟩
  rintro rfl
  induction ms with
  | nil => simp [restore] at h
  | cons m ms ih =>
    cases m with
    | plain c =>
      apply ih
      simpa [restore] using h
    | token w =>
      by_cases hw : w = u
      · subst hw
        apply ih
        rw [restore, if_pos rfl, List.mem_append] at h
        exact h.resolve_left (token_not_mem_plains _ _)
      · rw [restore, if_neg hw, List.mem_cons] at h
        rcases h with h | h
        · exact hw (Mark.token.inj h).symm
        · exact ih h

/-- The occurrences of the token `t`, from position `pos` on. -/
def tokenHits (t : τ) : ℕ → List (Mark α τ) → List (Hit Unit)
  | _, [] => []
  | pos, .plain _ :: ms => tokenHits t (pos + 1) ms
  | pos, .token u :: ms =>
      if u = t then ⟨pos, pos + (tok t).length, ()⟩ :: tokenHits t (pos + (tok t).length) ms
      else tokenHits t (pos + (tok u).length) ms

theorem mem_tokenHits {t : τ} {pos : ℕ} {ms : List (Mark α τ)} {h : Hit Unit} :
    h ∈ tokenHits tok t pos ms ↔ ∃ xs ys, ms = xs ++ .token t :: ys ∧
      h = ⟨pos + (marked tok xs).length, pos + (marked tok xs).length + (tok t).length, ()⟩ := by
  induction ms generalizing pos with
  | nil => simp [tokenHits]
  | cons m ms ih =>
    have hcons : (∃ xs ys, m :: ms = xs ++ .token t :: ys ∧
        h = ⟨pos + (marked tok xs).length, pos + (marked tok xs).length + (tok t).length, ()⟩) ↔
        (m = .token t ∧ h = ⟨pos, pos + (tok t).length, ()⟩) ∨
          h ∈ tokenHits tok t (pos + (m.text tok).length) ms := by
      rw [ih]
      constructor
      · rintro ⟨xs, ys, heq, rfl⟩
        cases xs with
        | nil =>
          rcases List.cons.inj heq with ⟨rfl, _⟩
          exact Or.inl ⟨rfl, by simp⟩
        | cons x xs =>
          rcases List.cons.inj heq with ⟨rfl, rfl⟩
          refine Or.inr ⟨xs, ys, rfl, ?_⟩
          simp [Nat.add_assoc]
      · rintro (⟨rfl, rfl⟩ | ⟨xs, ys, rfl, rfl⟩)
        · exact ⟨[], ms, rfl, by simp⟩
        · refine ⟨m :: xs, ys, rfl, ?_⟩
          simp [Nat.add_assoc]
    rw [hcons]
    cases m with
    | plain c => simp [tokenHits, Mark.text]
    | token u =>
      by_cases hu : u = t
      · subst hu
        simp [tokenHits, Mark.text]
      · simp [tokenHits, Mark.text, hu]

theorem tokenHits_pairwise {t : τ} (hne : tok t ≠ []) (pos : ℕ) (ms : List (Mark α τ)) :
    (tokenHits tok t pos ms).Pairwise fun a b => a.start < b.start ∧ a.stop ≤ b.start := by
  have hpos : 0 < (tok t).length := List.length_pos_iff.mpr hne
  induction ms generalizing pos with
  | nil => exact .nil
  | cons m ms ih =>
    cases m with
    | plain c => exact ih _
    | token u =>
      by_cases hu : u = t
      · subst hu
        simp only [tokenHits, if_true, List.pairwise_cons]
        refine ⟨?_, ih _⟩
        intro h hh
        rcases (mem_tokenHits tok).mp hh with ⟨xs, _, _, rfl⟩
        simp only
        omega
      · simp only [tokenHits, if_neg hu]
        exact ih _

/-- Rewriting the occurrences of a token restores it. -/
theorem splice_tokenHits (t : τ) (u s : List α) (ms : List (Mark α τ)) :
    splice (u ++ (marked tok ms ++ s)) (tokenHits tok t u.length ms) (fun _ => val t) =
      u ++ (marked tok (restore val t ms) ++ s) := by
  have hgen : ∀ cursor ≤ u.length,
      spliceFrom (u ++ (marked tok ms ++ s)) (fun _ => val t) cursor (tokenHits tok t u.length ms) =
        u.drop cursor ++ (marked tok (restore val t ms) ++ s) := by
    induction ms generalizing u with
    | nil =>
      intro cursor hc
      simp [tokenHits, spliceFrom, restore, List.drop_append_of_le_length hc]
    | cons m ms ih =>
      -- marks that are not rewritten join the text already passed
      have hpass : ∀ v : List α, ∀ cursor ≤ u.length,
          spliceFrom (u ++ (v ++ (marked tok ms ++ s))) (fun _ => val t) cursor
              (tokenHits tok t (u.length + v.length) ms) =
            u.drop cursor ++ (v ++ (marked tok (restore val t ms) ++ s)) := by
        intro v cursor hc
        have h := ih (u ++ v) cursor (by simp; omega)
        rw [List.drop_append_of_le_length hc, List.length_append] at h
        simpa using h
      intro cursor hc
      cases m with
      | plain c => simpa [tokenHits, restore, Mark.text] using hpass [c] cursor hc
      | token w =>
        by_cases hw : w = t
        · subst hw
          have h := ih (u ++ tok w) (u ++ tok w).length le_rfl
          rw [List.drop_length, List.length_append] at h
          have hslice : slice (u ++ (tok w ++ (marked tok ms ++ s))) cursor u.length =
              u.drop cursor := by
            rw [slice, List.drop_append_of_le_length hc, List.take_append_of_le_length (by simp),
              List.take_of_length_le (by simp)]
          simp only [tokenHits, if_true, spliceFrom, restore, marked_cons, Mark.text,
            List.append_assoc, hslice, marked_append, marked_plains]
          simp only [List.append_assoc, List.nil_append] at h
          rw [h]
        · simpa [tokenHits, restore, Mark.text, hw] using hpass (tok w) cursor hc
  simpa [splice] using hgen 0 (Nat.zero_le _)

end Entry

end TextScan
