import CorpLlmGateway.Sanitizer.Placeholder
import CorpLlmGateway.Text.Literal
import CorpLlmGateway.Text.Marked

/-!
# Restoring bracket tokens in passes

The reverse substituter rewrites a text entry by entry, and a streaming caller
runs it again and again on a growing buffer. What such a run does to placeholders in
brackets is described by marks: the placeholders of the text that are still to be restored.

A marked text is *stable* when, whichever of its tokens have been restored, the
placeholder of every entry occurs exactly at the remaining tokens of that entry. A
pass over a window of a stable text then restores the tokens of its entry and
nothing else. The window may start anywhere in the text that was restored before, and
it may end inside a token.

* `Window.hits_eq_tokenHits` — a pass rewrites exactly the tokens of its entry that the
  window shows;
* `Window.reverse_eq` — all passes together leave no token in the window;
* `buildReverseSubstituter_restored` — the one-shot substituter restores a stable
  text.
-/

namespace CorpLlmGateway.Sanitizer

open TextScan

variable {χ : Type} [Letter χ]

/-! ## Stable marked texts -/

/-- A text with its placeholder tokens marked. -/
abbrev Marks (χ : Type := Char) := List (Mark χ (ReverseEntry χ))

/-- The text with the placeholders written out. -/
abbrev written (ms : Marks χ) : List χ := marked ReverseEntry.placeholder ms

/-- The text with the originals in their place. -/
abbrev restored (ms : Marks χ) : List χ := marked ReverseEntry.replacement ms

/-- The placeholders of the entries occur exactly at their tokens. -/
def Unambiguous (entries : List (ReverseEntry χ)) (ms : Marks χ) : Prop :=
  ∀ xs m ys z z', ms = xs ++ m :: ys → m.text ReverseEntry.placeholder = z ++ z' → z' ≠ [] →
    ∀ e ∈ entries, e.placeholder <+: z' ++ written ys ↔ m = .token e ∧ z = []

/-- Unambiguous whichever tokens have been restored already. -/
def Stable (entries : List (ReverseEntry χ)) (ms : Marks χ) : Prop :=
  ∀ ms', Restores ReverseEntry.replacement ms ms' → Unambiguous entries ms'

omit [Letter χ] in
theorem Stable.restores {entries : List (ReverseEntry χ)} {ms ms' : Marks χ} (h : Stable entries ms)
    (hr : Restores ReverseEntry.replacement ms ms') : Stable entries ms' := by
  intro ms'' hr'
  exact h ms'' (hr.trans hr')

/-! ## Windows -/

/-- What a window shows of the next token: nothing, or its first characters. -/
def Held (s : List χ) (rs : Marks χ) : Prop :=
  s = [] ∨ ∃ e rs', rs = .token e :: rs' ∧ s <+: e.placeholder ∧ s ≠ e.placeholder

/-- A window over a stable text: of the text that was restored already, `gone` is no longer
seen and `p` is; the marks `ws` lie inside the window, `s` is what it shows of the marks `rs`
behind it and `rest` is still to come. -/
structure Window (entries : List (ReverseEntry χ)) (gone p : List χ) (ws : Marks χ)
    (s rest : List χ) (rs : Marks χ) : Prop where
  stable : Stable entries (plains _ (gone ++ p) ++ (ws ++ rs))
  known : ∀ e, .token e ∈ ws ++ rs → e ∈ entries
  rest_eq : written rs = s ++ rest
  held : Held s rs

/-- The text the passes see. -/
def windowText (p : List χ) (ws : Marks χ) (s : List χ) : List χ := p ++ (written ws ++ s)

section Window

variable {entries : List (ReverseEntry χ)} {gone p s rest : List χ} {ws rs : Marks χ}
  {e : ReverseEntry χ}

omit [Letter χ] in
/-- A placeholder that occurs at a position of the window is a token. -/
theorem Window.token_of_prefix (h : Window entries gone p ws s rest rs) (he : e ∈ entries)
    {a b : List χ} (hab : windowText p ws s = a ++ b) (hb : b ≠ [])
    (hm : e.placeholder <+: b ++ rest) :
    ∃ xs ys, ws ++ rs = xs ++ .token e :: ys ∧ a = p ++ written xs := by
  have htext : written (plains _ (gone ++ p) ++ (ws ++ rs)) = (gone ++ a) ++ (b ++ rest) := by
    have hjoin : (gone ++ a) ++ (b ++ rest) = gone ++ ((a ++ b) ++ rest) := by simp
    have hrest := h.rest_eq
    simp only [written] at hrest
    rw [hjoin, ← hab]
    simp [windowText, written, hrest]
  rcases marked_split htext (by simp [hb]) with ⟨xs, m, ys, z, z', heq, hmt, hz', ha, hbr⟩
  rw [hbr] at hm
  rcases (h.stable _ .refl xs m ys z z' heq hmt hz' e he).mp hm with ⟨rfl, rfl⟩
  -- what was restored before holds no token
  rcases token_after_plains heq with ⟨xs', rfl, hxs⟩
  refine ⟨xs', ys, hxs, ?_⟩
  simp only [List.append_nil, marked_append, marked_plains, List.append_assoc] at ha
  exact List.append_cancel_left ha

omit [Letter χ] in
/-- Such a token lies inside the window if the window shows all of it. -/
theorem Window.inside_of_prefix (h : Window entries gone p ws s rest rs) (he : e ∈ entries)
    (hne : e.placeholder ≠ []) {a b : List χ} (hab : windowText p ws s = a ++ b)
    (hm : e.placeholder <+: b) :
    ∃ xs ys, ws = xs ++ .token e :: ys ∧ a = p ++ written xs := by
  have hpos : 0 < e.placeholder.length := List.length_pos_iff.mpr hne
  have hlen := hm.length_le
  have hb : b ≠ [] := List.length_pos_iff.mp (by omega)
  rcases h.token_of_prefix he hab hb (hm.trans (List.prefix_append _ _)) with ⟨xs, ys, hxs, ha⟩
  -- a token of `rs` starts where only `s` is shown, and `s` is shorter than it
  have hbehind : ∀ zs, xs = ws ++ zs → rs = zs ++ .token e :: ys → False := by
    rintro zs rfl hrs
    have hlens := congrArg List.length hab
    simp only [ha, windowText, written, marked_append, List.length_append] at hlens
    rcases h.held with rfl | ⟨e', rs', hrs', hpre, hshort⟩
    · simp only [List.length_nil] at hlens
      omega
    · have hs := hpre.length_le
      rw [hrs'] at hrs
      cases zs with
      | nil =>
        rcases List.cons.inj hrs with ⟨hee, _⟩
        rcases Mark.token.inj hee with rfl
        simp only [marked_nil, List.length_nil] at hlens
        exact hshort (hpre.eq_of_length (by omega))
      | cons m zs =>
        rcases List.cons.inj hrs with ⟨rfl, _⟩
        simp only [marked_cons, Mark.text, List.length_append] at hlens
        omega
  rcases List.append_eq_append_iff.mp hxs with ⟨zs, hzs, hrs⟩ | ⟨zs, hzs, hrs⟩
  · exact (hbehind zs hzs hrs).elim
  · cases zs with
    | nil => exact (hbehind [] (by simpa using hzs.symm) (by simpa using hrs.symm)).elim
    | cons m zs =>
      rcases List.cons.inj hrs with ⟨rfl, _⟩
      exact ⟨xs, zs, hzs, ha⟩

theorem ReverseEntry.placeholder_ne_nil (hbracket : e.bracketed = true) : e.placeholder ≠ [] := by
  intro hnil
  simp [ReverseEntry.bracketed, hnil] at hbracket

/-- What a pass rewrites is a token of its entry inside the window. -/
theorem Window.token_of_mem_hits (h : Window entries gone p ws s rest rs) (he : e ∈ entries)
    (hne : e.placeholder ≠ []) {x : Hit Unit}
    (hx : x ∈ finditer (lit e.placeholder) (windowText p ws s)) :
    ∃ xs ys, ws = xs ++ .token e :: ys ∧ x.start = (p ++ written xs).length ∧
      x.stop = x.start + e.placeholder.length := by
  obtain ⟨hle, hss, hat⟩ := mem_finditer hx
  obtain ⟨hpre, hlen⟩ := lit_at.mp hat
  have hsplit := (List.take_append_drop x.start (windowText p ws s)).symm
  rcases h.inside_of_prefix he hne hsplit hpre with ⟨xs, ys, hws, ha⟩
  refine ⟨xs, ys, hws, ?_, by omega⟩
  rw [← ha, List.length_take, Nat.min_eq_left hle]

/-- A pass rewrites every token of its entry inside the window. -/
theorem Window.mem_hits_of_token (h : Window entries gone p ws s rest rs) (he : e ∈ entries)
    (hne : e.placeholder ≠ []) {xs ys : Marks χ} (hws : ws = xs ++ .token e :: ys) :
    ⟨(p ++ written xs).length, (p ++ written xs).length + e.placeholder.length, ()⟩ ∈
      finditer (lit e.placeholder) (windowText p ws s) := by
  have htext : windowText p ws s =
      (p ++ written xs) ++ (e.placeholder ++ (written ys ++ s)) := by
    simp [windowText, hws, Mark.text]
  have hat : (lit e.placeholder).at (windowText p ws s) (p ++ written xs).length =
      some (e.placeholder.length, ()) := by
    rw [lit_at, htext, List.drop_left]
    exact ⟨List.prefix_append _ _, rfl⟩
  have hin : (p ++ written xs).length ≤ (windowText p ws s).length := by
    rw [htext]
    simp
  -- the scan finds the token, or another token over it
  obtain ⟨y, hy, hyat⟩ := finditer_complete hin hat
  rcases hyat with heq | ⟨hlt, hgt⟩
  · have hyval := hit_eq_of_at hy (heq ▸ hat)
    rw [heq] at hyval
    exact hyval ▸ hy
  · exfalso
    rcases h.token_of_mem_hits he hne hy with ⟨xs', ys', hws', hstart, hstop⟩
    simp only [List.length_append] at hstart hlt hgt
    have hdis : (written xs').length + e.placeholder.length ≤ (written xs).length :=
      tokens_disjoint ReverseEntry.placeholder (hws'.symm.trans hws)
        (show (written xs').length < (written xs).length by omega)
    omega

/-- A pass rewrites exactly the tokens of its entry inside the window. -/
theorem Window.hits_eq_tokenHits (h : Window entries gone p ws s rest rs) (he : e ∈ entries)
    (hne : e.placeholder ≠ []) :
    finditer (lit e.placeholder) (windowText p ws s) =
      tokenHits ReverseEntry.placeholder e p.length ws := by
  refine hits_ext (finditer_pairwise _ _) (tokenHits_pairwise _ hne _ _) ?_
  intro x
  rw [mem_tokenHits]
  constructor
  · intro hx
    rcases h.token_of_mem_hits he hne hx with ⟨xs, ys, hws, hstart, hstop⟩
    refine ⟨xs, ys, hws, ?_⟩
    rw [List.length_append] at hstart
    rcases x with ⟨xa, xb, _⟩
    simp only [Hit.mk.injEq, and_true] at *
    exact ⟨hstart, by rw [hstop, hstart]⟩
  · rintro ⟨xs, ys, hws, rfl⟩
    have hmem := h.mem_hits_of_token he hne hws
    rwa [List.length_append] at hmem

/-- A pass restores the tokens of its entry, whether the text may still grow or not. -/
theorem Window.apply_eq (h : Window entries gone p ws s rest rs) (he : e ∈ entries)
    (hbracket : e.bracketed = true) (final : Bool) (protectedPrefix : ℕ) :
    e.apply final protectedPrefix (windowText p ws s) =
      windowText p (restore ReverseEntry.replacement e ws) s := by
  have hsub : e.apply final protectedPrefix (windowText p ws s) =
      splice (windowText p ws s) (finditer (lit e.placeholder) (windowText p ws s))
        fun _ => e.replacement := by
    rw [ReverseEntry.apply, if_pos hbracket]
    exact sub_eq_splice (litBy_sound _ _) _ _
  rw [hsub, h.hits_eq_tokenHits he (e.placeholder_ne_nil hbracket)]
  exact splice_tokenHits _ _ e _ s ws

omit [Letter χ] in
theorem Window.after_restore [DecidableEq χ] (h : Window entries gone p ws s rest rs)
    (e : ReverseEntry χ) :
    Window entries gone p (restore ReverseEntry.replacement e ws) s rest rs := by
  have hr := restores_restore ReverseEntry.replacement e ws
  refine ⟨h.stable.restores (hr.context _ rs), ?_, h.rest_eq, h.held⟩
  intro e' he'
  apply h.known e'
  rcases List.mem_append.mp he' with he' | he'
  · exact List.mem_append_left _ (token_mem_of_restores hr he')
  · exact List.mem_append_right _ he'

section Passes

variable (hbracket : ∀ e ∈ entries, e.bracketed = true)

include hbracket

/-- A sequence of passes over a window restores the tokens of their entries. -/
theorem Window.passes (h : Window entries gone p ws s rest rs) (final : Bool)
    (protectedPrefix : ℕ) (todo : List (ReverseEntry χ)) (htodo : ∀ e ∈ todo, e ∈ entries) :
    ∃ ws', reverse todo final protectedPrefix (windowText p ws s) = windowText p ws' s ∧
      Window entries gone p ws' s rest rs ∧ restored ws' = restored ws ∧
      (∀ e ∈ todo, .token e ∉ ws') ∧ ∀ t, .token t ∈ ws' → .token t ∈ ws := by
  induction todo generalizing ws with
  | nil => exact ⟨ws, rfl, h, rfl, by simp, fun _ ht => ht⟩
  | cons e todo ih =>
    obtain ⟨he, htodo⟩ := List.forall_mem_cons.mp htodo
    rcases ih (h.after_restore e) htodo with ⟨ws', heq, h', hval, hno, hsub⟩
    refine ⟨ws', ?_, h', ?_, ?_, fun t ht => (token_mem_restore _ (hsub t ht)).2⟩
    · rw [reverse, List.foldl_cons, h.apply_eq he (hbracket e he)]
      exact heq
    · rw [hval]
      exact marked_val_of_restores (restores_restore _ e ws)
    · intro e' he'
      rcases List.mem_cons.mp he' with rfl | he'
      · exact fun hm => (token_mem_restore _ (hsub _ hm)).1 rfl
      · exact hno e' he'

/-- All passes over a window: what lies inside it becomes restored text. -/
theorem Window.reverse_eq (h : Window entries gone p ws s rest rs) (final : Bool)
    (protectedPrefix : ℕ) :
    reverse entries final protectedPrefix (windowText p ws s) = p ++ (restored ws ++ s) ∧
      Window entries gone (p ++ restored ws) [] s rest rs := by
  rcases h.passes hbracket final protectedPrefix entries (fun _ he => he) with
    ⟨ws', heq, h', hval, hno, -⟩
  have hplain : ∃ w, ws' = plains _ w := by
    apply exists_plains
    intro e he
    exact hno e (h'.known e (List.mem_append_left _ he)) he
  rcases hplain with ⟨w, rfl⟩
  have hw : w = restored ws := by simpa [restored] using hval
  subst hw
  refine ⟨?_, ?_, ?_, h'.rest_eq, h'.held⟩
  · rw [heq]
    simp [windowText]
  · simpa using h'.stable
  · intro e he
    exact h'.known e (List.mem_append_right _ he)

end Passes

end Window

/-! ## The one-shot substituter -/

theorem bracketed_of_mem {pairs : List (Pair χ)}
    (hbracket : ∀ pair ∈ pairs, pair.2.head? = some Letter.bracket) :
    ∀ e ∈ reverseEntries pairs, e.bracketed = true := by
  intro e he
  have hhead := hbracket _ (mem_of_mem_reverseEntries he)
  simpa [ReverseEntry.bracketed] using hhead

/-- The reverse entries of a mapping restore every stable text made of their
placeholders. -/
theorem buildReverseSubstituter_restored {pairs : List (Pair χ)} {ms : Marks χ}
    (hbracket : ∀ pair ∈ pairs, pair.2.head? = some Letter.bracket)
    (hstable : Stable (reverseEntries pairs) ms)
    (hknown : ∀ e, .token e ∈ ms → e ∈ reverseEntries pairs) :
    buildReverseSubstituter pairs (written ms) = restored ms := by
  have hw : Window (reverseEntries pairs) [] [] ms [] [] [] :=
    ⟨by simpa [plains] using hstable, by simpa using hknown, rfl, Or.inl rfl⟩
  have heq := (hw.reverse_eq (bracketed_of_mem hbracket) true 0).1
  simpa [windowText, buildReverseSubstituter] using heq

end CorpLlmGateway.Sanitizer
