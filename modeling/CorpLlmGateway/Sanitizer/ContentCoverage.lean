import CorpLlmGateway.Sanitizer.ContentWalk

/-!
# What leaves the gateway unscanned

`sanitize_content` returns the content with some strings rewritten, each in its place. Which
places it does not visit can be read off the content alone: `Unvisited`.

* `Retexted` — values that differ in some strings only, with the places that are kept;
* `retexted_content` — what `sanitize_content` may change;
* `egress_sanitized` — a string anywhere else is what `sanitize_one` returned for the string
  that stood there.
-/

namespace CorpLlmGateway.Sanitizer

open Json

variable {F : Type} {σ ρ : Type}

/-! ## Positions -/

/-- A step into a value. -/
inductive Step where
  | item (i : ℕ)
  | field (name : PyStr)
deriving DecidableEq, Repr

abbrev Path := List Step

/-- The value at a position. -/
def valueAt : Path → Json F → Option (Json F)
  | [], j => some j
  | .item i :: p, .arr items => items[i]?.bind (valueAt p)
  | .field name :: p, .obj fs => (Fields.get? fs name).bind (valueAt p)
  | _, _ => none

/-- A position under a name that the walkers of JSON trees keep. -/
def Encrypted (p : Path) : Prop := ∃ name ∈ jsonOpaqueKeys, .field name ∈ p

theorem Encrypted.cons {p : Path} (h : Encrypted p) (step : Step) : Encrypted (step :: p) := by
  obtain ⟨name, hname, hmem⟩ := h
  exact ⟨name, hname, List.mem_cons_of_mem _ hmem⟩

/-- Whether the fail-safe scan leaves a field of a block alone. -/
def ScanSkips (field : PyStr) : Prop := field = "type".py ∨ field ∈ blockFallbackOpaqueKeys

/-- Whether the walker of a block of a kind leaves a field of it alone. -/
def BlockKind.Leaves (block : Fields F) : BlockKind F → PyStr → Prop
  | .text field _, name => name ≠ field
  | .toolResult _, name => name ≠ "content".py
  | .toolUse _, name => name ≠ "input".py
  | .jsonResult _, name => name ≠ "content".py
  | .searchResult, name =>
      (name = "title".py → filledText block "title".py = none) ∧ name ≠ "content".py
  | .document, name =>
      (name = "title".py → filledText block "title".py = none) ∧
        (name = "context".py → filledText block "context".py = none) ∧
        (name = "source".py → ∀ src, block.get? "source".py = some (.obj src) →
          sourceKind src = .other)
  | .binary, _ => True
  | .fallback, name => ScanSkips name

/-- Whether a field of a source that is entered is left alone. -/
def SourceKind.Leaves : SourceKind F → PyStr → Prop
  | .text _, name => name ≠ "data".py
  | .content _, name => name ≠ "content".py
  | .other, _ => False

/-- The kinds whose walkers enter JSON trees. -/
def BlockKind.HasTree : BlockKind F → Prop
  | .toolUse _ | .jsonResult _ | .fallback => True
  | _ => False

/-- A position of a content value that the walkers do not visit. -/
inductive Unvisited : Json F → Path → Prop
  /-- In an item of a content list that is no block. -/
  | item {items : List (Json F)} {i : ℕ} {j : Json F} {p : Path} (hitem : items[i]? = some j)
      (hplain : ∀ block, j ≠ .obj block) : Unvisited (.arr items) (.item i :: p)
  | inItem {items : List (Json F)} {i : ℕ} {block : Fields F} {p : Path}
      (hitem : items[i]? = some (.obj block)) (h : Unvisited (.obj block) p) :
      Unvisited (.arr items) (.item i :: p)
  /-- In a field that the type of the block does not carry. -/
  | field {block : Fields F} {kind : BlockKind F} {name : PyStr} {p : Path}
      (hkind : blockKind block = .ok kind) (hleaves : kind.Leaves block name) :
      Unvisited (.obj block) (.field name :: p)
  | source {block src : Fields F} {name : PyStr} {p : Path}
      (hkind : blockKind block = .ok .document) (hsource : block.get? "source".py = some (.obj src))
      (hleaves : (sourceKind src).Leaves name) :
      Unvisited (.obj block) (.field "source".py :: .field name :: p)
  | tree {block : Fields F} {kind : BlockKind F} {name : PyStr} {p : Path}
      (hkind : blockKind block = .ok kind) (htree : kind.HasTree) (h : Encrypted p) :
      Unvisited (.obj block) (.field name :: p)
  /-- In the content that a block encloses. -/
  | inContent {block : Fields F} {c : Json F} {p : Path} (hsub : SubContent block c)
      (hkind : blockKind block ≠ .ok .document) (h : Unvisited c p) :
      Unvisited (.obj block) (.field "content".py :: p)
  | inSource {block : Fields F} {c : Json F} {p : Path} (hsub : SubContent block c)
      (hkind : blockKind block = .ok .document) (h : Unvisited c p) :
      Unvisited (.obj block) (.field "source".py :: .field "content".py :: p)

/-! ## Values that differ in strings -/

/-- Two values that differ in strings related by `R` only: items keep their places, names
keep their order, and a part that is the same has strings at positions of `keep` only. -/
inductive Retexted (R : PyStr → PyStr → Prop) : (Path → Prop) → Json F → Json F → Prop
  | same {keep : Path → Prop} (j : Json F) (h : ∀ p x, valueAt p j = some (.str x) → keep p) :
      Retexted R keep j j
  | text {keep : Path → Prop} {x y : PyStr} (h : R x y) : Retexted R keep (.str x) (.str y)
  | arr {keep : Path → Prop} {items items' : List (Json F)} (hlen : items'.length = items.length)
      (h : ∀ (i : ℕ) v w, items[i]? = some v → items'[i]? = some w →
        Retexted R (fun p => keep (.item i :: p)) v w) : Retexted R keep (.arr items) (.arr items')
  | obj {keep : Path → Prop} {fs fs' : Fields F} (hkeys : fs'.map Prod.fst = fs.map Prod.fst)
      (h : ∀ k v w, fs.get? k = some v → fs'.get? k = some w →
        Retexted R (fun p => keep (.field k :: p)) v w) : Retexted R keep (.obj fs) (.obj fs')

namespace Retexted

variable {R : PyStr → PyStr → Prop} {keep keep' : Path → Prop}

theorem mono {v w : Json F} (h : Retexted R keep v w) (hkeep : ∀ p, keep p → keep' p) :
    Retexted R keep' v w := by
  induction h generalizing keep' with
  | same j h => exact .same j fun p x hx => hkeep p (h p x hx)
  | text h => exact .text h
  | arr hlen _ ih => exact .arr hlen fun i v w hv hw => ih i v w hv hw fun p => hkeep _
  | obj hkeys _ ih => exact .obj hkeys fun k v w hv hw => ih k v w hv hw fun p => hkeep _

/-- A string of the second value is kept, or stands where the first value has a string that
is related to it. -/
theorem string {v w : Json F} (h : Retexted R keep v w) {p : Path} {y : PyStr}
    (hy : valueAt p w = some (.str y)) :
    keep p ∨ ∃ x, valueAt p v = some (.str x) ∧ R x y := by
  induction h generalizing p with
  | same j h => exact .inl (h p y hy)
  | @text _ x _ h =>
    cases p with
    | nil =>
      cases hy
      exact .inr ⟨x, rfl, h⟩
    | cons step p => cases step <;> cases hy
  | @arr _ items items' hlen _ ih =>
    rcases p with _ | ⟨i | name, p⟩
    · cases hy
    · obtain ⟨w, hw, hy⟩ := Option.bind_eq_some_iff.mp hy
      obtain ⟨hlt, -⟩ := List.getElem?_eq_some_iff.mp hw
      have hv : items[i]? = some items[i] := List.getElem?_eq_getElem (hlen ▸ hlt)
      rcases ih i _ w hv hw hy with hkept | ⟨x, hx, hxy⟩
      · exact .inl hkept
      · refine .inr ⟨x, ?_, hxy⟩
        rw [valueAt, hv, Option.bind_some, hx]
    · cases hy
  | @obj _ fs fs' hkeys _ ih =>
    rcases p with _ | ⟨i | name, p⟩
    · cases hy
    · cases hy
    · obtain ⟨w, hw, hy⟩ := Option.bind_eq_some_iff.mp hy
      have hhas : fs.has name = true := by
        rw [Fields.has_iff, ← hkeys, ← Fields.has_iff, Fields.has, hw]
        rfl
      obtain ⟨v, hv⟩ := Option.isSome_iff_exists.mp hhas
      rcases ih name v w hv hw hy with hkept | ⟨x, hx, hxy⟩
      · exact .inl hkept
      · refine .inr ⟨x, ?_, hxy⟩
        rw [valueAt, hv, Option.bind_some, hx]

/-- Lists of which the items are related one by one. -/
theorem of_items {K : Json F → Path → Prop} {items items' : List (Json F)}
    (h : List.Forall₂ (fun v w => Retexted R (K v) v w) items items')
    (hkeep : ∀ i v p, items[i]? = some v → K v p → keep (.item i :: p)) :
    Retexted R keep (.arr items) (.arr items') := by
  obtain ⟨hlen, hget⟩ := List.forall₂_iff_get.mp h
  refine .arr hlen.symm fun i v w hv hw => ?_
  obtain ⟨hi, rfl⟩ := List.getElem?_eq_some_iff.mp hv
  obtain ⟨hi', rfl⟩ := List.getElem?_eq_some_iff.mp hw
  exact (hget i hi hi').mono fun p => hkeep i _ p hv

/-- Objects of which the fields are related one by one. -/
theorem of_fields {K : PyStr → Path → Prop} {fs fs' : Fields F}
    (h : List.Forall₂ (fun e e' => e'.1 = e.1 ∧ Retexted R (K e.1) e.2 e'.2) fs fs')
    (hkeep : ∀ k p, K k p → keep (.field k :: p)) : Retexted R keep (.obj fs) (.obj fs') := by
  refine .obj ?_ fun k v w hv hw => ?_
  · induction h with
    | nil => rfl
    | cons he _ ih => rw [List.map_cons, List.map_cons, he.1, ih]
  · induction h with
    | nil => cases hv
    | @cons e e' _ _ he _ ih =>
      rw [Fields.get?_cons] at hv hw
      rw [he.1] at hw
      split at hv
      · next heq =>
        rw [if_pos heq] at hw
        cases hv
        cases hw
        exact he.2.mono fun p => heq ▸ hkeep _ p
      · next heq =>
        rw [if_neg heq] at hw
        exact ih hv hw

/-- The names and the values of two objects. -/
theorem fields {fs fs' : Fields F} (h : Retexted R keep (.obj fs) (.obj fs')) :
    fs'.map Prod.fst = fs.map Prod.fst ∧ ∀ k v w, fs.get? k = some v → fs'.get? k = some w →
      Retexted R (fun p => keep (.field k :: p)) v w := by
  cases h with
  | same _ h =>
    refine ⟨rfl, fun k v w hv hw => ?_⟩
    cases hv.symm.trans hw
    exact .same v fun p x hx => h _ x (by rw [valueAt, hv, Option.bind_some, hx])
  | obj hkeys h => exact ⟨hkeys, h⟩

/-- Another field is rewritten. -/
theorem set {fs fs' : Fields F} (h : Retexted R keep (.obj fs) (.obj fs')) {k : PyStr}
    {v w : Json F} (hget : fs.get? k = some v)
    (hv : Retexted R (fun p => keep' (.field k :: p)) v w)
    (hother : ∀ name p, name ≠ k → keep (.field name :: p) → keep' (.field name :: p)) :
    Retexted R keep' (.obj fs) (.obj (fs'.set k w)) := by
  obtain ⟨hkeys, hvalues⟩ := h.fields
  have hhas : fs'.has k = true := by
    rw [Fields.has_iff, hkeys, ← Fields.has_iff, Fields.has, hget]
    rfl
  refine .obj (by rw [Fields.keys_set, if_pos hhas, hkeys]) fun k' a b ha hb => ?_
  rw [Fields.get?_set] at hb
  split at hb
  · next heq =>
    subst heq
    cases hget.symm.trans ha
    cases hb
    exact hv
  · next hne => exact (hvalues k' a b ha hb).mono fun p => hother k' p hne

/-- Fewer positions may do for an object, whose fields are there. -/
theorem fields_mono {fs fs' : Fields F} (h : Retexted R keep (.obj fs) (.obj fs'))
    (hkeep : ∀ name v p, fs.get? name = some v → keep (.field name :: p) →
      keep' (.field name :: p)) : Retexted R keep' (.obj fs) (.obj fs') :=
  .obj h.fields.1 fun k v w hv hw => (h.fields.2 k v w hv hw).mono fun p => hkeep k v p hv

/-- A string stays a string, and nothing else becomes one. -/
theorem isStr {v w : Json F} (h : Retexted R keep v w) :
    (∃ x, v = .str x) ↔ ∃ y, w = .str y := by
  cases h with
  | same => rfl
  | text h => exact ⟨fun _ => ⟨_, rfl⟩, fun _ => ⟨_, rfl⟩⟩
  | arr | obj => simp

end Retexted

/-- Positions by the name of the field they are in. -/
def InFields (P : PyStr → Prop) : Path → Prop
  | .field name :: _ => P name
  | _ => True

theorem retexted_same {R : PyStr → PyStr → Prop} (block : Fields F) :
    Retexted R (InFields fun _ => True) (.obj block) (.obj block) :=
  .same _ (by rintro (_ | ⟨_ | _, _⟩) x hx <;> trivial)

/-! ## What the walkers change -/

section Walks

variable (sanitizeOne : PyStr → Walk σ (OneResult ρ)) (R : PyStr → PyStr → Prop)
  (V : OneResult ρ → Prop)

/-- Texts that a call whose result is one of `V` rewrites are related by `R`. -/
def Rewriting : Prop :=
  ∀ x s r s', sanitizeOne x s = .ok (r, s') → V r → R x r.sanitizedText

variable {sanitizeOne R V} (hR : Rewriting sanitizeOne R V)

include hR

theorem retexted_text {x : PyStr} {s s' : σ} {v : Json F} {rs : List (OneResult ρ)}
    {keep : Path → Prop} (h : sanitizeText sanitizeOne x s = .ok ((v, rs), s'))
    (hrs : ∀ r ∈ rs, V r) : Retexted R keep (.str x) v := by
  obtain ⟨r, hone, rfl, rfl⟩ := sanitizeText_ok sanitizeOne h
  exact .text (hR x s r s' hone (hrs r (List.mem_singleton_self r)))

omit hR in
theorem retexted_jsonItems {items : List (Json F)} {depth : ℕ}
    (ih : ∀ j ∈ items, ∀ s v rs s', sanitizeJson sanitizeOne depth j s = .ok ((v, rs), s') →
      (∀ r ∈ rs, V r) → Retexted R Encrypted j v)
    {s s' : σ} {items' : List (Json F)} {rs : List (OneResult ρ)}
    (h : sanitizeJsonItems sanitizeOne depth items s = .ok ((items', rs), s'))
    (hrs : ∀ r ∈ rs, V r) :
    List.Forall₂ (fun v w => Retexted R Encrypted v w) items items' := by
  induction items generalizing s items' rs with
  | nil =>
    rw [sanitizeJsonItems] at h
    cases Walk.pure_ok.mp h
    exact .nil
  | cons j items ihitems =>
    obtain ⟨hj, hitems⟩ := List.forall_mem_cons.mp ih
    rw [sanitizeJsonItems] at h
    simp only [Walk.bind_ok, Walk.pure_ok] at h
    obtain ⟨⟨v, r⟩, s₁, hwalk, ⟨vs, rs'⟩, s₂, hrest, h⟩ := h
    cases h
    obtain ⟨hr, hrs'⟩ := List.forall_mem_append.mp hrs
    exact .cons (hj _ _ _ _ hwalk hr) (ihitems hitems hrest hrs')

omit hR in
/-- One field of a loop over fields: kept, or walked. -/
theorem retexted_keepOr {skip : Prop} [Decidable skip] {v w : Json F} {r : List (OneResult ρ)}
    {s s' : σ} {walk : Walk σ (Json F × List (OneResult ρ))}
    (hwalk : walk s = .ok ((w, r), s') → (∀ a ∈ r, V a) → Retexted R Encrypted v w)
    (h : keepOr skip v walk s = .ok ((w, r), s')) (hr : ∀ a ∈ r, V a) :
    Retexted R (fun p => skip ∨ Encrypted p) v w := by
  unfold keepOr at h
  split at h
  · next hskip =>
    cases Walk.pure_ok.mp h
    exact .same _ fun _ _ _ => .inl hskip
  · exact (hwalk h hr).mono fun _ => .inr

omit hR in
theorem retexted_jsonFields {fields : Fields F} {depth : ℕ}
    (ih : ∀ e ∈ fields, ∀ s v rs s', sanitizeJson sanitizeOne depth e.2 s = .ok ((v, rs), s') →
      (∀ r ∈ rs, V r) → Retexted R Encrypted e.2 v)
    {s s' : σ} {fields' : Fields F} {rs : List (OneResult ρ)}
    (h : sanitizeJsonFields sanitizeOne depth fields s = .ok ((fields', rs), s'))
    (hrs : ∀ r ∈ rs, V r) : List.Forall₂ (fun e e' => e'.1 = e.1 ∧
      Retexted R (fun p => e.1 ∈ jsonOpaqueKeys ∨ Encrypted p) e.2 e'.2) fields fields' := by
  induction fields generalizing s fields' rs with
  | nil =>
    rw [sanitizeJsonFields] at h
    cases Walk.pure_ok.mp h
    exact .nil
  | cons e fields ihfields =>
    obtain ⟨hv, hfields⟩ := List.forall_mem_cons.mp ih
    rw [sanitizeJsonFields] at h
    simp only [Walk.bind_ok, Walk.pure_ok] at h
    obtain ⟨⟨v', r⟩, s₁, hwalk, ⟨fs', rs'⟩, s₂, hrest, h⟩ := h
    cases h
    obtain ⟨hr, hrs'⟩ := List.forall_mem_append.mp hrs
    exact .cons ⟨rfl, retexted_keepOr (hv _ _ _ _) hwalk hr⟩ (ihfields hfields hrest hrs')

theorem retexted_json (j : Json F) (depth : ℕ) (s : σ) (v : Json F) (rs : List (OneResult ρ))
    (s' : σ) (h : sanitizeJson sanitizeOne depth j s = .ok ((v, rs), s')) (hrs : ∀ r ∈ rs, V r) :
    Retexted R Encrypted j v := by
  induction j using Json.induct generalizing depth s v rs s' with
  | str x =>
    rw [sanitizeJson] at h
    obtain ⟨-, s₁, hdepth, h⟩ := Walk.bind_ok.mp h
    exact retexted_text hR h hrs
  | arr items ih =>
    rw [sanitizeJson] at h
    simp only [Walk.bind_ok, Walk.pure_ok] at h
    obtain ⟨-, s₁, hdepth, ⟨vs, rs'⟩, s₂, hitems, h⟩ := h
    cases h
    exact .of_items (retexted_jsonItems (fun j hj => ih j hj (depth + 1)) hitems hrs)
      fun i v p _ hp => hp.cons _
  | obj fields ih =>
    rw [sanitizeJson] at h
    simp only [Walk.bind_ok, Walk.pure_ok] at h
    obtain ⟨-, s₁, hdepth, ⟨vs, rs'⟩, s₂, hfields, h⟩ := h
    cases h
    refine .of_fields (K := fun k p => k ∈ jsonOpaqueKeys ∨ Encrypted p)
      (retexted_jsonFields (fun e he => ih e he (depth + 1)) hfields hrs) ?_
    rintro k p (hk | hp)
    · exact ⟨k, hk, List.mem_cons_self⟩
    · exact hp.cons _
  | _ =>
    rw [sanitizeJson] at h
    · obtain ⟨-, s₁, hdepth, h⟩ := Walk.bind_ok.mp h
      cases Walk.pure_ok.mp h
      exact .same _ (by rintro (_ | ⟨_ | _, _⟩) x hx <;> cases hx)
    all_goals simp

theorem retexted_fallback {block new : Fields F} {rs : List (OneResult ρ)} {s s' : σ}
    (h : sanitizeFallback sanitizeOne block s = .ok ((new, rs), s')) (hrs : ∀ r ∈ rs, V r) :
    List.Forall₂ (fun e e' => e'.1 = e.1 ∧
      Retexted R (fun p => ScanSkips e.1 ∨ Encrypted p) e.2 e'.2) block new := by
  induction block generalizing new rs s with
  | nil =>
    cases Walk.pure_ok.mp h
    exact .nil
  | cons e block ih =>
    obtain ⟨v, r, s₁, fs, rs', hwalk, hrest, rfl, rfl⟩ := sanitizeFallback_cons sanitizeOne h
    obtain ⟨hr, hrs'⟩ := List.forall_mem_append.mp hrs
    have hfield := retexted_keepOr (retexted_json hR e.2 1 _ _ _ _) hwalk hr
    exact .cons ⟨rfl, hfield⟩ (ih hrest hrs')

/-- A field that is rewritten if there is something in it, of a block in which others may have
been. -/
theorem retexted_field {block new new' : Fields F} {field : PyStr} {rs : List (OneResult ρ)}
    {s s' : σ} {P : PyStr → Prop}
    (h : sanitizeField sanitizeOne new field s = .ok ((new', rs), s'))
    (hsame : new.get? field = block.get? field) (hrs : ∀ r ∈ rs, V r)
    (hnew : Retexted R (InFields P) (.obj block) (.obj new)) :
    Retexted R (InFields fun name => (name = field → filledText block field = none) ∧ P name)
      (.obj block) (.obj new') := by
  have hfilled : filledText new field = filledText block field := by
    rw [filledText, filledText, hsame]
  unfold sanitizeField at h
  cases hfield : filledText block field with
  | some text =>
    rw [hfilled, hfield] at h
    simp only [Walk.bind_ok, Walk.pure_ok] at h
    obtain ⟨⟨v, rs'⟩, s₁, htext, h⟩ := h
    cases h
    exact hnew.set (filledText_some hfield) (retexted_text hR htext hrs)
      fun name p hne hp => ⟨fun heq => absurd heq hne, hp⟩
  | none =>
    rw [hfilled, hfield] at h
    cases Walk.pure_ok.mp h
    refine hnew.mono fun p hp => ?_
    rcases p with _ | ⟨i | name, p⟩
    · trivial
    · trivial
    · exact ⟨fun _ => rfl, hp⟩

/-- The title and the context of a document. -/
theorem retexted_fields {block new new' : Fields F} {rs rs' : List (OneResult ρ)} {s s₁ s' : σ}
    (htitle : sanitizeField sanitizeOne block "title".py s = .ok ((new, rs), s₁))
    (hcontext : sanitizeField sanitizeOne new "context".py s₁ = .ok ((new', rs'), s'))
    (hrs : ∀ r ∈ rs ++ rs', V r) :
    Retexted R (InFields fun name => (name = "context".py → filledText block "context".py = none) ∧
      (name = "title".py → filledText block "title".py = none) ∧ True) (.obj block) (.obj new') := by
  obtain ⟨hr, hrs'⟩ := List.forall_mem_append.mp hrs
  have hsame := sanitizeField_get? sanitizeOne htitle (k := "context".py) (by decide)
  exact retexted_field hR hcontext hsame hrs' (retexted_field hR htitle rfl hr (retexted_same block))

/-- A block, given the content inside it. -/
theorem retexted_block {block new : Fields F} {s s' : σ} {rs : List (OneResult ρ)}
    (ih : ∀ c, SubContent block c → ∀ s v rs s',
      sanitizeContent sanitizeOne c s = .ok ((v, rs), s') → (∀ r ∈ rs, V r) →
        Retexted R (Unvisited c) c v)
    (h : sanitizeBlock sanitizeOne block s = .ok ((new, rs), s')) (hrs : ∀ r ∈ rs, V r) :
    Retexted R (Unvisited (.obj block)) (.obj block) (.obj new) := by
  have hblock : Retexted R (InFields fun _ => True) (.obj block) (.obj block) := retexted_same block
  cases sanitizeBlock_run sanitizeOne h with
  | text hkind hone =>
    exact hblock.set (blockKind_text hkind) (.text (hR _ _ _ _ hone (hrs _ (by simp))))
      fun name p hne _ => .field hkind hne
  | toolResult hkind hsub =>
    have hinner := SubContent.toolResult hkind
    exact hblock.set (blockKind_toolResult hkind)
      ((ih _ hinner _ _ _ _ hsub hrs).mono fun p hp => .inContent hinner (by simp [hkind]) hp)
      fun name p hne _ => .field hkind hne
  | toolUse hkind hsub =>
    exact hblock.set (blockKind_toolUse hkind)
      ((retexted_json hR _ _ _ _ _ _ hsub hrs).mono fun p hp => .tree hkind trivial hp)
      fun name p hne _ => .field hkind hne
  | jsonResult hkind hsub =>
    exact hblock.set (blockKind_jsonResult hkind)
      ((retexted_json hR _ _ _ _ _ _ hsub hrs).mono fun p hp => .tree hkind trivial hp)
      fun name p hne _ => .field hkind hne
  | searchResult hkind htitle hcontent hsub =>
    have hinner := SubContent.searchResult hkind hcontent
    obtain ⟨hr, hrs'⟩ := List.forall_mem_append.mp hrs
    exact (retexted_field hR htitle rfl hr hblock).set hcontent
      ((ih _ hinner _ _ _ _ hsub hrs').mono fun p hp => .inContent hinner (by simp [hkind]) hp)
      fun name p hne hp => .field hkind ⟨hp.1, hne⟩
  | searchTitle hkind htitle hcontent =>
    refine (retexted_field hR htitle rfl hrs hblock).fields_mono fun name v p hv hp => ?_
    refine .field hkind ⟨hp.1, ?_⟩
    rintro rfl
    cases hcontent.symm.trans hv
  | documentText hkind htitle hcontext hsource hsrc hone =>
    obtain ⟨hr, hrs'⟩ := List.forall_mem_append.mp hrs
    refine (retexted_fields hR htitle hcontext hr).set hsource ?_
      fun name p hne hp => .field hkind ⟨hp.2.1, hp.1, fun heq => absurd heq hne⟩
    exact (retexted_same _).set (sourceKind_text hsrc)
      (.text (hR _ _ _ _ hone (hrs' _ (by simp))))
      fun name p hne _ => .source hkind hsource (by rw [hsrc]; exact hne)
  | documentContent hkind htitle hcontext hsource hsrc hsub =>
    have hinner := SubContent.document hkind hsource hsrc
    obtain ⟨hr, hrs'⟩ := List.forall_mem_append.mp hrs
    refine (retexted_fields hR htitle hcontext hr).set hsource ?_
      fun name p hne hp => .field hkind ⟨hp.2.1, hp.1, fun heq => absurd heq hne⟩
    exact (retexted_same _).set (sourceKind_content hsrc)
      ((ih _ hinner _ _ _ _ hsub hrs').mono fun p hp => .inSource hinner hkind hp)
      fun name p hne _ => .source hkind hsource (by rw [hsrc]; exact hne)
  | documentOther hkind htitle hcontext hsource =>
    exact (retexted_fields hR htitle hcontext hrs).fields_mono fun name v p hv hp =>
      .field hkind ⟨hp.2.1, hp.1, fun _ => hsource⟩
  | binary hkind => exact hblock.fields_mono fun name v p hv hp => .field hkind trivial
  | fallback hkind hsub =>
    refine .of_fields (K := fun k p => ScanSkips k ∨ Encrypted p) (retexted_fallback hR hsub hrs) ?_
    rintro name p (hskip | hp)
    · exact .field hkind hskip
    · exact .tree hkind trivial hp

omit hR in
theorem retexted_items {items items' : List (Json F)} {s s' : σ} {rs : List (OneResult ρ)}
    (ih : ∀ block, .obj block ∈ items → ∀ s new rs s',
      sanitizeBlock sanitizeOne block s = .ok ((new, rs), s') → (∀ r ∈ rs, V r) →
        Retexted R (Unvisited (.obj block)) (.obj block) (.obj new))
    (h : ItemsRun sanitizeOne items s items' rs s') (hrs : ∀ r ∈ rs, V r) :
    List.Forall₂ (fun v w => Retexted R (fun p => ∀ block, v = .obj block → Unvisited v p) v w)
      items items' := by
  induction h with
  | nil => exact .nil
  | block hblock hitems ihitems =>
    obtain ⟨hr, hrs'⟩ := List.forall_mem_append.mp hrs
    exact .cons ((ih _ List.mem_cons_self _ _ _ _ hblock hr).mono fun _ hp _ _ => hp)
      (ihitems (fun b hb => ih b (List.mem_cons_of_mem _ hb)) hrs')
  | kept hitem hitems ihitems =>
    exact .cons (.same _ fun _ _ _ block hblock => absurd hblock (hitem block))
      (ihitems (fun b hb => ih b (List.mem_cons_of_mem _ hb)) hrs)

/-- `sanitize_content` changes strings only, and every string at a position that it visits. -/
theorem retexted_content (c : Json F) : ∀ s v rs s',
    sanitizeContent sanitizeOne c s = .ok ((v, rs), s') → (∀ r ∈ rs, V r) →
      Retexted R (Unvisited c) c v := by
  induction c using content_induct (B := fun block => ∀ s new rs s',
      sanitizeBlock sanitizeOne block s = .ok ((new, rs), s') → (∀ r ∈ rs, V r) →
        Retexted R (Unvisited (.obj block)) (.obj block) (.obj new)) with
  | content c ih =>
    intro s v rs s' h hrs
    cases sanitizeContent_run sanitizeOne h with
    | text hone => exact .text (hR _ _ _ _ hone (hrs _ (List.mem_singleton_self _)))
    | items hitems =>
      refine .of_items (retexted_items (fun b hb => ih b (.inr ⟨_, rfl, hb⟩)) hitems hrs) ?_
      intro i v p hv hp
      by_cases hblock : ∃ block, v = .obj block
      · obtain ⟨block, rfl⟩ := hblock
        exact .inItem hv (hp block rfl)
      · exact .item hv (not_exists.mp hblock)
    | block hblock => exact ih _ (.inl rfl) _ _ _ _ hblock hrs
    | null | bool | int | float =>
      exact .same _ (by rintro (_ | ⟨_ | _, _⟩) x hx <;> cases hx)
  | block block ih => exact retexted_block hR ih ‹_› ‹_›

end Walks

/-- The walkers visit the text inside the tool result. -/
theorem nestedResult_visited : ¬Unvisited (.arr [.obj nestedResult])
    [.item 0, .field "content".py, .item 0, .field "text".py] := by
  have hresult : blockKind nestedResult = .ok (.toolResult (.arr [.obj [("type".py,
    .str "text".py), ("text".py, .str "hi".py)]])) := rfl
  have htext : blockKind [("type".py, (.str "text".py : Json Literal)),
    ("text".py, .str "hi".py)] = .ok (.text "text".py "hi".py) := rfl
  have hinner : ¬Unvisited (.obj [("type".py, (.str "text".py : Json Literal)),
      ("text".py, .str "hi".py)]) [.field "text".py] := by
    intro h
    cases h with
    | field hkind hleaves =>
      cases htext.symm.trans hkind
      exact hleaves rfl
    | tree hkind htree h =>
      cases htext.symm.trans hkind
      exact htree
  have hitems : ∀ {block : Fields Literal} {p : Path}, ¬Unvisited (.obj block) p →
      ¬Unvisited (.arr [.obj block]) (.item 0 :: p) := by
    intro block p hno h
    cases h with
    | item hitem hplain =>
      cases hitem
      exact hplain _ rfl
    | inItem hitem h =>
      cases hitem
      exact hno h
  refine hitems fun h => ?_
  cases h with
  | field hkind hleaves =>
    cases hresult.symm.trans hkind
    exact hleaves rfl
  | tree hkind htree h =>
    cases hresult.symm.trans hkind
    exact htree
  | inContent hsub hkind h =>
    cases hsub with
    | toolResult hkind =>
      cases hresult.symm.trans hkind
      exact hitems hinner h
    | searchResult hkind | document hkind => cases hresult.symm.trans hkind

end CorpLlmGateway.Sanitizer
