import CorpLlmGateway.Text.Scan

/-!
# Literal patterns and delimited tokens

`lit p` matches the text `p` itself and `replaceAll p r` is the global
replacement of a fixed text. The second half is about *tokens*, texts
`op w cl` whose middle `w` avoids both delimiters: two tokens at one position are
equal, and no token starts inside another one or straddles its start.
-/

namespace TextScan

variable {α : Type}

/-! ## Literals -/

/-- `p` matches the head of `after` character by character, up to `r`. -/
def prefixBy (r : α → α → Bool) : List α → List α → Bool
  | [], _ => true
  | _ :: _, [] => false
  | a :: p, b :: t => r a b && prefixBy r p t

/-- The literal `p`, compared up to `r`. -/
def litBy (r : α → α → Bool) (p : List α) : Matcher α Unit := fun _ after =>
  if prefixBy r p after then some (p.length, ()) else none

/-- The literal `p`. -/
def lit [BEq α] (p : List α) : Matcher α Unit := litBy (fun a b => a == b) p

theorem prefixBy_length {r : α → α → Bool} {p t : List α} (h : prefixBy r p t = true) :
    p.length ≤ t.length := by
  induction p generalizing t with
  | nil => simp
  | cons a p ih =>
    cases t with
    | nil => simp [prefixBy] at h
    | cons b t =>
      simp only [prefixBy, Bool.and_eq_true] at h
      simpa using ih h.2

theorem prefixBy_beq [BEq α] [LawfulBEq α] {p t : List α} :
    prefixBy (fun a b => a == b) p t = true ↔ p <+: t := by
  induction p generalizing t with
  | nil => simp [prefixBy]
  | cons a p ih =>
    cases t with
    | nil => simp [prefixBy]
    | cons b t => simp [prefixBy, ih]

theorem litBy_sound (r : α → α → Bool) (p : List α) : (litBy r p).Sound := by
  intro prev after n v h
  unfold litBy at h
  split at h
  · next hp =>
    simp only [Option.some.injEq, Prod.mk.injEq] at h
    exact h.1 ▸ prefixBy_length hp
  · exact absurd h (by simp)

theorem litBy_at {r : α → α → Bool} {p text : List α} {i n : ℕ} :
    (litBy r p).at text i = some (n, ()) ↔
      prefixBy r p (text.drop i) = true ∧ n = p.length := by
  unfold Matcher.at litBy
  split
  · next hp => simp [hp, eq_comm]
  · next hp => simp [hp]

/-- A text occurs in another iff it stands at some position of it. -/
theorem infix_iff_drop {p text : List α} :
    p <:+: text ↔ ∃ i ≤ text.length, p <+: text.drop i := by
  constructor
  · rintro ⟨a, b, rfl⟩
    refine ⟨a.length, by simp, b, ?_⟩
    simp
  · rintro ⟨i, _, h⟩
    exact h.isInfix.trans (List.drop_suffix i text).isInfix

section Lawful

variable [BEq α] [LawfulBEq α]

theorem lit_at {p text : List α} {i n : ℕ} :
    (lit p).at text i = some (n, ()) ↔ p <+: text.drop i ∧ n = p.length := by
  unfold lit
  rw [litBy_at, prefixBy_beq]

/-! ## Global replacement -/

/-- `text.replace(p, r)`. -/
def replaceAll (p r text : List α) : List α := sub (lit p) (fun _ => r) text

end Lawful

/-! ## Delimited tokens -/

/-- A token: `op`, a middle free of both delimiters, `cl`. -/
def IsToken (op cl : α) (t : List α) : Prop :=
  ∃ w, op ∉ w ∧ cl ∉ w ∧ t = op :: (w ++ [cl])

theorem IsToken.head? {op cl : α} {t : List α} (ht : IsToken op cl t) : t.head? = some op := by
  rcases ht with ⟨w, _, _, rfl⟩
  rfl

theorem IsToken.ne_nil {op cl : α} {t : List α} (ht : IsToken op cl t) : t ≠ [] := by
  rcases ht with ⟨w, _, _, rfl⟩
  simp

/-- Two texts that agree up to their first delimiter have the same middle. -/
theorem middle_unique {cl : α} {w w' rest rest' : List α} (hw : cl ∉ w) (hw' : cl ∉ w')
    (h : w ++ cl :: rest = w' ++ cl :: rest') : w = w' := by
  induction w generalizing w' with
  | nil =>
    cases w' with
    | nil => rfl
    | cons a w' =>
      have ha : cl = a := by simpa using congrArg List.head? h
      exact absurd (by simp [ha]) hw'
  | cons a w ih =>
    cases w' with
    | nil =>
      have ha : a = cl := by simpa using congrArg List.head? h
      exact absurd (by simp [ha]) hw
    | cons a' w' =>
      simp only [List.cons_append, List.cons.injEq] at h
      rw [h.1, ih (fun hm => hw (by simp [hm])) (fun hm => hw' (by simp [hm])) h.2]

/-- A token at the front of a text that starts with a token is that token. -/
theorem IsToken.eq_of_prefix_append {op cl : α} {t t' rest : List α} (ht : IsToken op cl t)
    (ht' : IsToken op cl t') (h : t <+: t' ++ rest) : t = t' := by
  rcases ht with ⟨w, _, hw, rfl⟩
  rcases ht' with ⟨w', _, hw', rfl⟩
  rcases h with ⟨s, hs⟩
  simp only [List.cons_append, List.append_assoc, List.cons.injEq, true_and, List.nil_append] at hs
  rw [middle_unique hw hw' hs]

/-- A token that starts before an opening delimiter ends before it. -/
theorem IsToken.prefix_of_append {op cl : α} {t v rest : List α} (ht : IsToken op cl t)
    (hne : op ≠ cl) (hv : v ≠ []) (h : t <+: v ++ op :: rest) : t <+: v := by
  rcases ht with ⟨w, hop, _, rfl⟩
  rcases List.exists_cons_of_ne_nil hv with ⟨c, v, rfl⟩
  rw [List.cons_append, List.cons_prefix_cons] at h
  rw [List.cons_prefix_cons]
  refine ⟨h.1, ?_⟩
  rcases le_or_gt (w ++ [cl]).length v.length with hlen | hlen
  · exact List.prefix_of_prefix_length_le h.2 (List.prefix_append v _) hlen
  · -- otherwise the opening delimiter would stand inside the token
    exfalso
    rcases h.2 with ⟨s, hs⟩
    have hget := congrArg (fun l => l[v.length]?) hs
    simp only [List.getElem?_append_right (le_refl v.length), Nat.sub_self,
      List.getElem?_cons_zero, List.getElem?_append_left hlen] at hget
    have hmem : op ∈ w ++ [cl] := List.mem_of_getElem? hget
    rcases List.mem_append.mp hmem with hm | hm
    · exact hop hm
    · exact hne (by simpa using hm)

/-- No token starts strictly inside another one. -/
theorem IsToken.not_prefix_inside {op cl : α} {t t' a v rest : List α} (ht : IsToken op cl t)
    (ht' : IsToken op cl t') (hne : op ≠ cl) (hsplit : t' = a ++ v) (ha : a ≠ []) (hv : v ≠ []) :
    ¬ t <+: v ++ rest := by
  rcases ht with ⟨w, _, _, rfl⟩
  rcases ht' with ⟨w', hop', _, rfl⟩
  rcases List.exists_cons_of_ne_nil ha with ⟨c, a, rfl⟩
  rcases List.exists_cons_of_ne_nil hv with ⟨d, v, rfl⟩
  intro h
  rw [List.cons_append, List.cons_prefix_cons] at h
  have hmem : op ∈ w' ++ [cl] := by
    simp only [List.cons_append, List.cons.injEq] at hsplit
    rw [hsplit.2, h.1]
    simp
  rcases List.mem_append.mp hmem with hm | hm
  · exact hop' hm
  · exact hne (by simpa using hm)

end TextScan
