import CorpLlmGateway.Text.Regex

/-!
# The first match

A backtracking engine answers with the first way that a pattern matches. Where only one way
of matching the front of a sequence lets the rest match, the engine comes to it whatever it
tries before: the first match of the sequence is the first match of the rest.

* `first_seq` — the rule for a sequence;
* `first_rep_seq` — a repetition of characters in front of something that begins with
  another one takes all of them.
-/

namespace Regex

variable {χ : Type} {a b : Pat χ} {s x : St χ}

/-- The first way to match. -/
def first (a : Pat χ) (s : St χ) : Option (St χ) := (run a s).head?

/-- Only one element of the list adds anything. -/
theorem head?_flatMap_of_unique {α β : Type} {l : List α} {f : α → List β} {x : α} (hx : x ∈ l)
    (hunique : ∀ y ∈ l, f y ≠ [] → y = x) : (l.flatMap f).head? = (f x).head? := by
  induction l with
  | nil => exact absurd hx List.not_mem_nil
  | cons y l ih =>
    obtain ⟨hy, hrest⟩ := List.forall_mem_cons.mp hunique
    rw [List.flatMap_cons]
    by_cases hfy : f y = []
    · rw [hfy, List.nil_append]
      rcases List.mem_cons.mp hx with rfl | hx
      · -- then nothing behind it adds anything either
        have hnil : l.flatMap f = [] := by
          rw [List.flatMap_eq_nil_iff]
          intro z hz
          by_contra hfz
          exact hfz (hrest z hz hfz ▸ hfy)
        rw [hnil, hfy]
      · exact ih hx hrest
    · obtain rfl : y = x := hy hfy
      rw [List.head?_append_of_ne_nil _ hfy]

/-- **A sequence** whose rest can match in one state only. -/
theorem first_seq (hx : x ∈ run a s) (hunique : ∀ y ∈ run a s, run b y ≠ [] → y = x) :
    first (.seq a b) s = first b x :=
  head?_flatMap_of_unique hx hunique

theorem first_seq_of_run (h : run a s = [x]) : first (.seq a b) s = first b x := by
  apply first_seq
  · rw [h]
    exact List.mem_singleton_self x
  · intro y hy _
    rw [h] at hy
    exact List.mem_singleton.mp hy

/-- The first way of an alternative, if its first part lets the rest match. -/
theorem first_alt_seq {c : Pat χ} {t : St χ} (h : first (.seq a c) s = some t) :
    first (.seq (.alt a b) c) s = some t := by
  have happend : run (.seq (.alt a b) c) s = run (.seq a c) s ++ run (.seq b c) s := by
    simp only [run, List.flatMap_append]
  rw [first] at h
  rw [first, happend, List.head?_append, h]
  rfl

/-! ## What a pattern begins with -/

/-- Wherever the pattern matches, the text goes on with a character of the class. -/
def Begins (q : χ → Prop) (a : Pat χ) : Prop :=
  ∀ s, run a s ≠ [] → ∃ c rest, s.rest = c :: rest ∧ q c

theorem begins_chr (p : χ → Bool) : Begins (fun c => p c = true) (.chr p) := by
  intro s h
  obtain ⟨t, ht⟩ := List.exists_mem_of_ne_nil _ h
  obtain ⟨c, cs, hs, hp, -⟩ := mem_run_chr.mp ht
  exact ⟨c, cs, hs, hp⟩

theorem Begins.imp {q q' : χ → Prop} (h : Begins q a) (hq : ∀ c, q c → q' c) : Begins q' a := by
  intro s hs
  obtain ⟨c, rest, hrest, hc⟩ := h s hs
  exact ⟨c, rest, hrest, hq c hc⟩

theorem Begins.seq {q : χ → Prop} (h : Begins q a) (b : Pat χ) : Begins q (.seq a b) := by
  intro s hs
  apply h s
  intro hnil
  exact hs (by simp [run, hnil])

theorem Begins.alt {q : χ → Prop} (ha : Begins q a) (hb : Begins q b) : Begins q (.alt a b) := by
  intro s hs
  by_cases hrun : run a s = []
  · apply hb s
    intro hnil
    exact hs (by simp [run, hrun, hnil])
  · exact ha s hrun

theorem Begins.group {q : χ → Prop} (h : Begins q a) (i : ℕ) : Begins q (.group i a) := by
  intro s hs
  apply h s
  intro hnil
  exact hs (by simp [run, hnil])

/-! ## Characters and repetitions -/

theorem run_chr {p : χ → Bool} {c : χ} {rest : List χ} (hs : s.rest = c :: rest) (hc : p c = true) :
    run (.chr p) s = [s.advance [c] rest] := by
  simp [run, hs, hc]

theorem run_lit [DecidableEq χ] {c : χ} {rest : List χ} (hs : s.rest = c :: rest) :
    run (.lit c) s = [s.advance [c] rest] :=
  run_chr hs (by simp)

/-- A block of characters that is followed by one that is not of the class. -/
theorem split_unique {p : χ → Bool} {w u : List χ} {c : χ} {rest rest' : List χ}
    (hw : ∀ d ∈ w, p d = true) (hc : p c = false) (hu : ∀ d ∈ u, p d = true)
    (heq : w ++ c :: rest = u ++ rest') (hhead : ∃ d t, rest' = d :: t ∧ p d = false) :
    u = w ∧ rest' = c :: rest := by
  obtain ⟨d, t, rfl, hd⟩ := hhead
  induction w generalizing u with
  | nil =>
    cases u with
    | nil => exact ⟨rfl, heq.symm⟩
    | cons e u =>
      obtain ⟨rfl, -⟩ := List.cons.inj heq
      exact absurd (hu c List.mem_cons_self) (by simp [hc])
  | cons e w ih =>
    obtain ⟨he, hw⟩ := List.forall_mem_cons.mp hw
    cases u with
    | nil =>
      obtain ⟨rfl, -⟩ := List.cons.inj heq
      exact absurd he (by simp [hd])
    | cons e' u =>
      obtain ⟨rfl, htail⟩ := List.cons.inj heq
      obtain ⟨rfl, hrest⟩ := ih hw (List.forall_mem_cons.mp hu).2 htail
      exact ⟨rfl, hrest⟩

/-- **A repetition in front of something else** takes the whole block. -/
theorem first_rep_seq {p : χ → Bool} {greedy : Bool} {lo : ℕ} {w : List χ} {c : χ} {rest : List χ}
    (hs : s.rest = w ++ c :: rest) (hw : ∀ d ∈ w, p d = true) (hlo : lo ≤ w.length)
    (hc : p c = false) (hb : Begins (fun d => p d = false) b) :
    first (.seq (.rep greedy lo none (.chr p)) b) s = first b (s.advance w (c :: rest)) := by
  apply first_seq
  · exact mem_run_rep_chr.mpr ⟨w, c :: rest, hs, hw, hlo, by simp, rfl⟩
  · intro y hy hrun
    obtain ⟨u, rest', hu, hall, -, -, rfl⟩ := mem_run_rep_chr.mp hy
    obtain ⟨rfl, rfl⟩ := split_unique hw hc hall (hs ▸ hu) (hb _ hrun)
    rfl

/-- The same for a repetition that is captured. -/
theorem first_group_rep_seq {p : χ → Bool} {greedy : Bool} {lo i : ℕ} {w : List χ} {c : χ}
    {rest : List χ} (hs : s.rest = w ++ c :: rest) (hw : ∀ d ∈ w, p d = true) (hlo : lo ≤ w.length)
    (hc : p c = false) (hb : Begins (fun d => p d = false) b) :
    first (.seq (.group i (.rep greedy lo none (.chr p))) b) s =
      first b { s.advance w (c :: rest) with
        caps := (i, s.pos, s.pos + w.length) :: s.caps } := by
  apply first_seq
  · refine mem_run_group.mpr ⟨s.advance w (c :: rest), ?_, rfl⟩
    exact mem_run_rep_chr.mpr ⟨w, c :: rest, hs, hw, hlo, by simp, rfl⟩
  · intro y hy hrun
    obtain ⟨x, hx, rfl⟩ := mem_run_group.mp hy
    obtain ⟨u, rest', hu, hall, -, -, rfl⟩ := mem_run_rep_chr.mp hx
    obtain ⟨rfl, rfl⟩ := split_unique hw hc hall (hs ▸ hu) (hb _ hrun)
    rfl

end Regex
