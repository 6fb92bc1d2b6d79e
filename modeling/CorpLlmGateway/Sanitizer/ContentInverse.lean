import CorpLlmGateway.Sanitizer.ContentCoverage

/-!
# Restoring sanitized content

`desanitize_content` undoes `sanitize_content`: with a rewriting of strings that can be
undone, the walkers rewrite the same places and leave everything else alone.

* `blockKind_sameBranch` — a rewritten block is taken for the same kind of block;
* `restores_content` — the walkers are inverse.
-/

namespace CorpLlmGateway.Sanitizer

open Json

variable {F : Type} {σ ρ : Type}

/-! ## The branch of a rewritten block -/

/-- Two kinds that the walkers treat alike. -/
def BlockKind.SameBranch : BlockKind F → BlockKind F → Prop
  | .text field _, .text field' _ => field = field'
  | .toolResult _, .toolResult _ => True
  | .toolUse _, .toolUse _ => True
  | .jsonResult _, .jsonResult _ => True
  | .searchResult, .searchResult => True
  | .document, .document => True
  | .binary, .binary => True
  | .fallback, .fallback => True
  | _, _ => False

theorem BlockKind.SameBranch.rfl (k : BlockKind F) : k.SameBranch k := by
  cases k <;> trivial

section Branch

variable {R : PyStr → PyStr → Prop} {keep : Path → Prop} {block new : Fields F}

/-- A field of one block is there in the other. -/
theorem get?_isSome (h : Retexted R keep (.obj block) (.obj new)) (k : PyStr) :
    (new.get? k).isSome = (block.get? k).isSome := by
  have hmem : new.has k = true ↔ block.has k = true := by
    rw [Fields.has_iff, Fields.has_iff, h.fields.1]
  exact Bool.eq_iff_iff.mpr hmem

/-- A field of one block is a string if it is one in the other. -/
theorem get?_isStr (h : Retexted R keep (.obj block) (.obj new)) (k : PyStr) :
    (∃ x, block.get? k = some (.str x)) ↔ ∃ y, new.get? k = some (.str y) := by
  have hsome := get?_isSome h k
  cases hblock : block.get? k with
  | none =>
    rw [hblock, Option.isSome_none, Option.isSome_eq_false_iff, Option.isNone_iff_eq_none] at hsome
    simp [hsome]
  | some v =>
    rw [hblock, Option.isSome_some, Option.isSome_iff_exists] at hsome
    obtain ⟨w, hw⟩ := hsome
    simpa [hw] using (h.fields.2 k v w hblock hw).isStr

theorem textOfBlock_isSome (h : Retexted R keep (.obj block) (.obj new)) (type : PyStr) :
    (∃ field x, textOfBlock block type = some (.text field x) ∧
      ∃ y, textOfBlock new type = some (.text field y)) ∨
    (textOfBlock block type = none ∧ textOfBlock new type = none) := by
  unfold textOfBlock
  split
  · next field hfield =>
    have hstr := get?_isStr h field
    by_cases hx : ∃ x, block.get? field = some (.str x)
    · obtain ⟨y, hy⟩ := hstr.mp hx
      obtain ⟨x, hx⟩ := hx
      exact .inl ⟨field, x, by simp [hx], y, by simp [hy]⟩
    · have hy : ¬∃ y, new.get? field = some (.str y) := fun hy => hx (hstr.mpr hy)
      refine .inr ⟨?_, ?_⟩
      · split
        · next x hget => exact absurd ⟨x, hget⟩ hx
        · rfl
      · split
        · next y hget => exact absurd ⟨y, hget⟩ hy
        · rfl
  · exact .inr ⟨rfl, rfl⟩

/-- The branch for a block depends on its type and on which fields are there. -/
theorem kindOfType_sameBranch (h : Retexted R keep (.obj block) (.obj new)) (type : PyStr) :
    (kindOfType block type).SameBranch (kindOfType new type) := by
  have hpart : ∀ (p : Prop) [Decidable p] (name : PyStr) (f : Json F → BlockKind F)
      (a b : BlockKind F), a.SameBranch b → (∀ v w, (f v).SameBranch (f w)) →
      ((if p then (block.get? name).map f else none).getD a).SameBranch
        ((if p then (new.get? name).map f else none).getD b) := by
    intro p _ name f a b hab hf
    have hsome := get?_isSome h name
    split
    · cases hblock : block.get? name <;> cases hnew : new.get? name <;>
        simp [hblock, hnew] at hsome ⊢
      · exact hab
      · exact hf _ _
    · exact hab
  unfold kindOfType
  simp only [Option.getD_or]
  rcases textOfBlock_isSome h type with ⟨field, x, hx, y, hy⟩ | ⟨hx, hy⟩
  · simp only [hx, hy, Option.getD_some]
    rfl
  · simp only [hx, hy, Option.getD_none]
    refine hpart _ _ _ _ _ ?_ fun _ _ => trivial
    refine hpart _ _ _ _ _ ?_ fun _ _ => trivial
    exact hpart _ _ _ _ _ (.rfl _) fun _ _ => trivial

theorem blockKind_sameBranch (h : Retexted R keep (.obj block) (.obj new))
    (htype : new.get? "type".py = block.get? "type".py) {k : BlockKind F}
    (hk : blockKind block = .ok k) : ∃ k', blockKind new = .ok k' ∧ k.SameBranch k' := by
  unfold blockKind at hk ⊢
  rw [htype]
  split at hk
  · next type _ =>
    cases hk
    exact ⟨_, rfl, kindOfType_sameBranch h type⟩
  · cases hk
  · cases hk
  · cases hk
    exact ⟨_, rfl, trivial⟩

section Kinds

variable (h : Retexted R keep (.obj block) (.obj new))
  (htype : new.get? "type".py = block.get? "type".py)

include h htype

theorem text_of_retexted {field x y : PyStr} (hk : blockKind block = .ok (.text field x))
    (hy : new.get? field = some (.str y)) : blockKind new = .ok (.text field y) := by
  obtain ⟨k', hk', hbranch⟩ := blockKind_sameBranch h htype hk
  cases k' with
  | text field' z =>
    obtain rfl : field = field' := hbranch
    cases (blockKind_text hk').symm.trans hy
    exact hk'
  | _ => exact hbranch.elim

theorem toolResult_of_retexted {c v : Json F} (hk : blockKind block = .ok (.toolResult c))
    (hv : new.get? "content".py = some v) : blockKind new = .ok (.toolResult v) := by
  obtain ⟨k', hk', hbranch⟩ := blockKind_sameBranch h htype hk
  cases k' with
  | toolResult c' =>
    cases (blockKind_toolResult hk').symm.trans hv
    exact hk'
  | _ => exact hbranch.elim

theorem toolUse_of_retexted {c v : Json F} (hk : blockKind block = .ok (.toolUse c))
    (hv : new.get? "input".py = some v) : blockKind new = .ok (.toolUse v) := by
  obtain ⟨k', hk', hbranch⟩ := blockKind_sameBranch h htype hk
  cases k' with
  | toolUse c' =>
    cases (blockKind_toolUse hk').symm.trans hv
    exact hk'
  | _ => exact hbranch.elim

theorem jsonResult_of_retexted {c v : Json F} (hk : blockKind block = .ok (.jsonResult c))
    (hv : new.get? "content".py = some v) : blockKind new = .ok (.jsonResult v) := by
  obtain ⟨k', hk', hbranch⟩ := blockKind_sameBranch h htype hk
  cases k' with
  | jsonResult c' =>
    cases (blockKind_jsonResult hk').symm.trans hv
    exact hk'
  | _ => exact hbranch.elim

theorem searchResult_of_retexted (hk : blockKind block = .ok .searchResult) :
    blockKind new = .ok .searchResult := by
  obtain ⟨k', hk', hbranch⟩ := blockKind_sameBranch h htype hk
  cases k' with
  | searchResult => exact hk'
  | _ => exact hbranch.elim

theorem document_of_retexted (hk : blockKind block = .ok .document) :
    blockKind new = .ok .document := by
  obtain ⟨k', hk', hbranch⟩ := blockKind_sameBranch h htype hk
  cases k' with
  | document => exact hk'
  | _ => exact hbranch.elim

theorem fallback_of_retexted (hk : blockKind block = .ok .fallback) :
    blockKind new = .ok .fallback := by
  obtain ⟨k', hk', hbranch⟩ := blockKind_sameBranch h htype hk
  cases k' with
  | fallback => exact hk'
  | _ => exact hbranch.elim

end Kinds

end Branch

theorem sourceKind_set_text {src : Fields F} {data : PyStr} (h : sourceKind src = .text data)
    (x : PyStr) : sourceKind (src.set "data".py (.str x)) = .text x := by
  rcases sourceKind_of h with ⟨type, htype, heq, -⟩ | hother
  · rw [sourceKind, Fields.get?_set_of_ne (by decide), htype, Fields.get?_set_self]
    simp [heq]
  · cases hother

theorem sourceKind_set_content {src : Fields F} {c : Json F} (h : sourceKind src = .content c)
    (v : Json F) : sourceKind (src.set "content".py v) = .content v := by
  rcases sourceKind_of h with ⟨type, htype, heq, -⟩ | hother
  · have hne : "content".py ≠ "text".py := by decide
    rw [sourceKind, Fields.get?_set_of_ne (by decide), htype, Fields.get?_set_self]
    simp only [heq, hne, if_false, if_true]
  · cases hother

/-! ## The inverse -/

/-- Values whose objects have each name once, as every dictionary has. -/
inductive Distinct : Json F → Prop
  | null : Distinct .null
  | bool (b : Bool) : Distinct (.bool b)
  | int (n : ℤ) : Distinct (.int n)
  | float (f : F) : Distinct (.float f)
  | str (x : PyStr) : Distinct (.str x)
  | arr {items : List (Json F)} (h : ∀ j ∈ items, Distinct j) : Distinct (.arr items)
  | obj {fields : Fields F} (hkeys : (fields.map Prod.fst).Nodup)
      (h : ∀ e ∈ fields, Distinct e.2) : Distinct (.obj fields)

theorem Distinct.get? {fs : Fields F} (h : Distinct (.obj fs)) {k : PyStr} {v : Json F}
    (hv : fs.get? k = some v) : Distinct v := by
  cases h with
  | obj hkeys h => exact h _ (Fields.mem_of_get? hv)

theorem Distinct.item {items : List (Json F)} (h : Distinct (.arr items)) {j : Json F}
    (hj : j ∈ items) : Distinct j := by
  cases h with
  | arr h => exact h j hj

theorem Distinct.keys {fs : Fields F} (h : Distinct (.obj fs)) : (fs.map Prod.fst).Nodup := by
  cases h with
  | obj hkeys h => exact hkeys

theorem keys_set_of_get? {fs : Fields F} {k : PyStr} {v : Json F} (h : fs.get? k = some v)
    (w : Json F) : (fs.set k w).map Prod.fst = fs.map Prod.fst := by
  rw [Fields.keys_set, if_pos]
  rw [Fields.has, h]
  rfl

/-- A field that is stored back. -/
theorem set_back {block new : Fields F} (hnodup : (block.map Prod.fst).Nodup)
    (hkeys : new.map Prod.fst = block.map Prod.fst) {field : PyStr} {v : Json F}
    (hv : block.get? field = some v) (hother : ∀ k, k ≠ field → new.get? k = block.get? k) :
    new.set field v = block := by
  have hhas : new.has field = true := by
    rw [Fields.has_iff, hkeys, ← Fields.has_iff, Fields.has, hv]
    rfl
  refine Fields.ext_get? (by rw [Fields.keys_set, if_pos hhas, hkeys]) hnodup fun k => ?_
  rw [Fields.get?_set]
  split
  · next heq => rw [heq, hv]
  · next hne => exact hother k hne

theorem set_set_back {fs : Fields F} (hnodup : (fs.map Prod.fst).Nodup) {field : PyStr}
    {v : Json F} (hv : fs.get? field = some v) (w : Json F) :
    (fs.set field w).set field v = fs :=
  set_back hnodup (keys_set_of_get? hv w) hv fun _ hk => Fields.get?_set_of_ne hk w

section Inverse

variable (sanitizeOne : PyStr → Walk σ (OneResult ρ)) (reverse : PyStr → PyStr)

/-- Every text that `sanitize_one` returns is turned back, and it is empty for an empty text
only. -/
def Undoes : Prop :=
  ∀ x s r s', sanitizeOne x s = .ok (r, s') →
    reverse r.sanitizedText = x ∧ (x ≠ [] → r.sanitizedText ≠ [])

variable {sanitizeOne reverse} (hundo : Undoes sanitizeOne reverse)

include hundo

theorem restores_text {x : PyStr} {s s' : σ} {v : Json F} {rs : List (OneResult ρ)}
    (h : sanitizeText sanitizeOne x s = .ok ((v, rs), s')) :
    ∃ y, v = .str y ∧ reverse y = x ∧ (x ≠ [] → y ≠ []) := by
  obtain ⟨r, hone, rfl, rfl⟩ := sanitizeText_ok sanitizeOne h
  exact ⟨_, rfl, hundo x s r s' hone⟩

omit hundo in
theorem restores_jsonItems {items : List (Json F)} {depth : ℕ}
    (ih : ∀ j ∈ items, ∀ s v rs s', sanitizeJson sanitizeOne depth j s = .ok ((v, rs), s') →
      desanitizeJson reverse depth v = j)
    {s s' : σ} {items' : List (Json F)} {rs : List (OneResult ρ)}
    (h : sanitizeJsonItems sanitizeOne depth items s = .ok ((items', rs), s')) :
    desanitizeItems reverse depth items' = items := by
  induction items generalizing s items' rs with
  | nil =>
    rw [sanitizeJsonItems] at h
    cases Walk.pure_ok.mp h
    rw [desanitizeItems]
  | cons j items ihitems =>
    obtain ⟨hj, hitems⟩ := List.forall_mem_cons.mp ih
    rw [sanitizeJsonItems] at h
    simp only [Walk.bind_ok, Walk.pure_ok] at h
    obtain ⟨⟨v, r⟩, s₁, hwalk, ⟨vs, rs'⟩, s₂, hrest, h⟩ := h
    cases h
    rw [desanitizeItems, hj _ _ _ _ hwalk, ihitems hitems hrest]

omit hundo in
/-- One field of a loop over fields: kept, or walked. -/
theorem restores_keepOr {keep : Prop} [Decidable keep] {v w w' : Json F}
    {r : List (OneResult ρ)} {s s' : σ} {walk : Walk σ (Json F × List (OneResult ρ))}
    (hwalk : walk s = .ok ((w, r), s') → w' = v) (h : keepOr keep v walk s = .ok ((w, r), s')) :
    (if keep then w else w') = v := by
  unfold keepOr at h
  split at h
  · next hkeep =>
    cases Walk.pure_ok.mp h
    rw [if_pos hkeep]
  · next hkeep => rw [if_neg hkeep, hwalk h]

omit hundo in
theorem restores_jsonFields {fields : Fields F} {depth : ℕ}
    (ih : ∀ e ∈ fields, ∀ s v rs s', sanitizeJson sanitizeOne depth e.2 s = .ok ((v, rs), s') →
      desanitizeJson reverse depth v = e.2)
    {s s' : σ} {fields' : Fields F} {rs : List (OneResult ρ)}
    (h : sanitizeJsonFields sanitizeOne depth fields s = .ok ((fields', rs), s')) :
    desanitizeFields reverse depth fields' = fields := by
  induction fields generalizing s fields' rs with
  | nil =>
    rw [sanitizeJsonFields] at h
    cases Walk.pure_ok.mp h
    rw [desanitizeFields]
  | cons e fields ihfields =>
    obtain ⟨k, v⟩ := e
    obtain ⟨hv, hfields⟩ := List.forall_mem_cons.mp ih
    rw [sanitizeJsonFields] at h
    simp only [Walk.bind_ok, Walk.pure_ok] at h
    obtain ⟨⟨v', r⟩, s₁, hwalk, ⟨fs', rs'⟩, s₂, hrest, h⟩ := h
    cases h
    rw [desanitizeFields, restores_keepOr (hv _ _ _ _) hwalk, ihfields hfields hrest]

/-- A tree that was sanitized was not too deep to be restored. -/
theorem restores_json (j : Json F) (depth : ℕ) (s : σ) (v : Json F) (rs : List (OneResult ρ))
    (s' : σ) (h : sanitizeJson sanitizeOne depth j s = .ok ((v, rs), s')) :
    desanitizeJson reverse depth v = j := by
  induction j using Json.induct generalizing depth s v rs s' with
  | str x =>
    rw [sanitizeJson] at h
    obtain ⟨u, s₁, hdepth, h⟩ := Walk.bind_ok.mp h
    obtain ⟨y, rfl, hy, -⟩ := restores_text hundo h
    rw [desanitizeJson, if_neg (Nat.not_lt.mpr (checkDepth_ok.mp hdepth).1), hy]
  | arr items ih =>
    rw [sanitizeJson] at h
    simp only [Walk.bind_ok, Walk.pure_ok] at h
    obtain ⟨u, s₁, hdepth, ⟨vs, rs'⟩, s₂, hitems, h⟩ := h
    cases h
    rw [desanitizeJson, if_neg (Nat.not_lt.mpr (checkDepth_ok.mp hdepth).1),
      restores_jsonItems (fun j hj => ih j hj (depth + 1)) hitems]
  | obj fields ih =>
    rw [sanitizeJson] at h
    simp only [Walk.bind_ok, Walk.pure_ok] at h
    obtain ⟨u, s₁, hdepth, ⟨vs, rs'⟩, s₂, hfields, h⟩ := h
    cases h
    rw [desanitizeJson, if_neg (Nat.not_lt.mpr (checkDepth_ok.mp hdepth).1),
      restores_jsonFields (fun e he => ih e he (depth + 1)) hfields]
  | _ =>
    rw [sanitizeJson] at h
    · obtain ⟨u, s₁, hdepth, h⟩ := Walk.bind_ok.mp h
      cases Walk.pure_ok.mp h
      rw [desanitizeJson]
      all_goals simp
    all_goals simp

theorem restores_fallback {block new : Fields F} {rs : List (OneResult ρ)} {s s' : σ}
    (h : sanitizeFallback sanitizeOne block s = .ok ((new, rs), s')) :
    desanitizeFallback reverse new = block := by
  induction block generalizing new rs s with
  | nil =>
    cases Walk.pure_ok.mp h
    rfl
  | cons e block ih =>
    obtain ⟨v, r, s₁, fs, rs', hwalk, hrest, rfl, rfl⟩ := sanitizeFallback_cons sanitizeOne h
    have hrest := ih hrest
    unfold desanitizeFallback at hrest ⊢
    rw [List.map_cons, hrest, restores_keepOr (restores_json hundo e.2 1 _ _ _ _) hwalk]

omit hundo in
theorem desanitizeField_keys (fs : Fields F) (field : PyStr) :
    (desanitizeField reverse fs field).map Prod.fst = fs.map Prod.fst := by
  unfold desanitizeField
  split
  · next x hx =>
    rw [Fields.keys_set, if_pos]
    rw [Fields.has, filledText_some hx]
    rfl
  · rfl

omit hundo in
theorem desanitizeField_get? {fs : Fields F} {field k : PyStr} (hk : k ≠ field) :
    (desanitizeField reverse fs field).get? k = fs.get? k := by
  unfold desanitizeField
  split
  · exact Fields.get?_set_of_ne hk _
  · rfl

/-- A field that was rewritten is restored, whatever happened to the others. -/
theorem restores_field {block new fs : Fields F} {field : PyStr} {rs : List (OneResult ρ)}
    {s s' : σ} (h : sanitizeField sanitizeOne block field s = .ok ((new, rs), s'))
    (hfs : fs.get? field = new.get? field) :
    (desanitizeField reverse fs field).get? field = block.get? field := by
  unfold sanitizeField at h
  cases hfilled : filledText block field with
  | some x =>
    simp only [hfilled, Walk.bind_ok, Walk.pure_ok] at h
    obtain ⟨⟨v, rs'⟩, s₁, htext, h⟩ := h
    cases h
    obtain ⟨y, rfl, hy, hfill⟩ := restores_text hundo htext
    rw [Fields.get?_set_self] at hfs
    have hne : y ≠ [] := hfill (filledText_ne_nil hfilled)
    have hout : filledText fs field = some y := by
      rw [filledText, hfs]
      simp [hne]
    rw [desanitizeField, hout, Fields.get?_set_self, hy, filledText_some hfilled]
  | none =>
    simp only [hfilled] at h
    cases Walk.pure_ok.mp h
    have hout : filledText fs field = none := by rw [filledText, hfs]; exact hfilled
    rw [desanitizeField, hout, hfs]

/-- The title and the context of a document are restored, whatever happened to the others. -/
theorem restores_fields {block new new' fs : Fields F} {rs rs' : List (OneResult ρ)} {s s₁ s' : σ}
    (htitle : sanitizeField sanitizeOne block "title".py s = .ok ((new, rs), s₁))
    (hcontext : sanitizeField sanitizeOne new "context".py s₁ = .ok ((new', rs'), s'))
    {k : PyStr} (htitles : fs.get? "title".py = new'.get? "title".py)
    (hcontexts : fs.get? "context".py = new'.get? "context".py)
    (hk : fs.get? k = new'.get? k) :
    (desanitizeField reverse (desanitizeField reverse fs "title".py) "context".py).get? k =
      block.get? k := by
  have hne : "context".py ≠ "title".py := by decide
  by_cases hkc : k = "context".py
  · subst hkc
    rw [restores_field hundo hcontext (by rw [desanitizeField_get? hne, hcontexts]),
      sanitizeField_get? sanitizeOne htitle hne]
  · rw [desanitizeField_get? hkc]
    by_cases hkt : k = "title".py
    · subst hkt
      exact restores_field hundo htitle
        (by rw [htitles, sanitizeField_get? sanitizeOne hcontext hne.symm])
    · rw [desanitizeField_get? hkt, hk, sanitizeField_get? sanitizeOne hcontext hkc,
        sanitizeField_get? sanitizeOne htitle hkt]

omit hundo in
theorem sanitizeFallback_type {block new : Fields F} {rs : List (OneResult ρ)} {s s' : σ}
    (h : sanitizeFallback sanitizeOne block s = .ok ((new, rs), s')) :
    new.get? "type".py = block.get? "type".py := by
  induction block generalizing new rs s with
  | nil =>
    cases Walk.pure_ok.mp h
    rfl
  | cons e block ih =>
    obtain ⟨v, r, s₁, fs, rs', hwalk, hrest, rfl, rfl⟩ := sanitizeFallback_cons sanitizeOne h
    rw [Fields.get?_cons, Fields.get?_cons, ih hrest]
    split
    · next heq =>
      rw [keepOr, if_pos (.inl heq.symm)] at hwalk
      cases Walk.pure_ok.mp hwalk
      rfl
    · rfl

omit hundo in
/-- The walkers leave the type of a block alone. -/
theorem sanitizeBlock_type {block new : Fields F} {s s' : σ} {rs : List (OneResult ρ)}
    (h : sanitizeBlock sanitizeOne block s = .ok ((new, rs), s')) :
    new.get? "type".py = block.get? "type".py := by
  have htitled : ∀ {new : Fields F} {rs : List (OneResult ρ)} {s₁ : σ},
      sanitizeField sanitizeOne block "title".py s = .ok ((new, rs), s₁) →
      new.get? "type".py = block.get? "type".py :=
    fun h => sanitizeField_get? sanitizeOne h (by decide)
  cases sanitizeBlock_run sanitizeOne h with
  | text hkind hone => exact Fields.get?_set_of_ne (blockKind_text_ne hkind) _
  | toolResult | toolUse | jsonResult => exact Fields.get?_set_of_ne (by decide) _
  | searchResult hkind htitle => rw [Fields.get?_set_of_ne (by decide), htitled htitle]
  | searchTitle hkind htitle => exact htitled htitle
  | documentText hkind htitle hcontext | documentContent hkind htitle hcontext =>
    rw [Fields.get?_set_of_ne (by decide), sanitizeField_get? sanitizeOne hcontext (by decide),
      htitled htitle]
  | documentOther hkind htitle hcontext =>
    rw [sanitizeField_get? sanitizeOne hcontext (by decide), htitled htitle]
  | binary => rfl
  | fallback hkind hsub => exact sanitizeFallback_type hsub

section Blocks

variable {block new : Fields F} (hdistinct : Distinct (.obj block))

include hdistinct

/-- The title of a search result is restored beside its content. -/
theorem restores_searchResult {c v : Json F} {rs : List (OneResult ρ)} {s s₁ : σ}
    (hk' : blockKind (new.set "content".py v) = .ok .searchResult)
    (hkeys : (new.set "content".py v).map Prod.fst = block.map Prod.fst)
    (htitle : sanitizeField sanitizeOne block "title".py s = .ok ((new, rs), s₁))
    (hcontent : block.get? "content".py = some c) (hback : desanitizeContent reverse v = .ok c) :
    desanitizeBlock reverse (new.set "content".py v) = .ok block := by
  have hget : (new.set "content".py v).get? "content".py = some v := Fields.get?_set_self ..
  rw [desanitizeBlock_eq reverse hk', desanitizeKind]
  split
  · next c' hc' =>
    cases hget.symm.trans hc'
    rw [hback]
    refine congrArg _ (set_back hdistinct.keys (by rw [desanitizeField_keys, hkeys]) hcontent
      fun k hk => ?_)
    by_cases hkt : k = "title".py
    · subst hkt
      exact restores_field hundo htitle (Fields.get?_set_of_ne hk _)
    · rw [desanitizeField_get? hkt, Fields.get?_set_of_ne hk, sanitizeField_get? _ htitle hkt]
  · next hnone => cases hget.symm.trans hnone

theorem restores_searchTitle {rs : List (OneResult ρ)} {s s₁ : σ}
    (hk' : blockKind new = .ok .searchResult) (hkeys : new.map Prod.fst = block.map Prod.fst)
    (htitle : sanitizeField sanitizeOne block "title".py s = .ok ((new, rs), s₁))
    (hcontent : block.get? "content".py = none) : desanitizeBlock reverse new = .ok block := by
  have hnone : new.get? "content".py = none := by
    rw [sanitizeField_get? _ htitle (by decide), hcontent]
  rw [desanitizeBlock_eq reverse hk', desanitizeKind]
  split
  · next c hc => cases hnone.symm.trans hc
  · refine congrArg _ (Fields.ext_get? (by rw [desanitizeField_keys, hkeys]) hdistinct.keys
      fun k => ?_)
    by_cases hkt : k = "title".py
    · subst hkt
      exact restores_field hundo htitle rfl
    · rw [desanitizeField_get? hkt, sanitizeField_get? _ htitle hkt]

section Document

variable {titled : Fields F} {rs rs' : List (OneResult ρ)} {s s₁ s₂ : σ}
  (htitle : sanitizeField sanitizeOne block "title".py s = .ok ((titled, rs), s₁))
  (hcontext : sanitizeField sanitizeOne titled "context".py s₁ = .ok ((new, rs'), s₂))

include htitle hcontext

/-- A document whose source is restored. -/
theorem restores_source {src : Json F} {v : Json F}
    (hkeys : (new.set "source".py v).map Prod.fst = block.map Prod.fst)
    (hsource : block.get? "source".py = some src) :
    (desanitizeField reverse (desanitizeField reverse (new.set "source".py v) "title".py)
      "context".py).set "source".py src = block := by
  have hset : ∀ {k : PyStr}, k ≠ "source".py → (new.set "source".py v).get? k = new.get? k :=
    fun h => Fields.get?_set_of_ne h _
  refine set_back hdistinct.keys (by rw [desanitizeField_keys, desanitizeField_keys, hkeys])
    hsource fun k hk => ?_
  exact restores_fields hundo htitle hcontext (hset (by decide)) (hset (by decide)) (hset hk)

theorem restores_documentText {src : Fields F} {data x : PyStr}
    (hk' : blockKind (new.set "source".py (.obj (src.set "data".py (.str x)))) = .ok .document)
    (hkeys : (new.set "source".py (.obj (src.set "data".py (.str x)))).map Prod.fst =
      block.map Prod.fst)
    (hsource : block.get? "source".py = some (.obj src)) (hsrc : sourceKind src = .text data)
    (hback : reverse x = data) :
    desanitizeBlock reverse (new.set "source".py (.obj (src.set "data".py (.str x)))) =
      .ok block := by
  have hget := Fields.get?_set_self new "source".py (.obj (src.set "data".py (.str x)))
  have hkind := sourceKind_set_text hsrc x
  rw [desanitizeBlock_eq reverse hk', desanitizeKind]
  split
  · next src' hsrc' =>
    cases hget.symm.trans hsrc'
    split
    · next data' hdata =>
      cases hkind.symm.trans hdata
      rw [hback, set_set_back (hdistinct.get? hsource).keys (sourceKind_text hsrc)]
      exact congrArg _ (restores_source hundo hdistinct htitle hcontext hkeys hsource)
    · next c hc => cases hkind.symm.trans hc
    · next hother => cases hkind.symm.trans hother
  · next hno => exact absurd hget (hno _)

theorem restores_documentContent {src : Fields F} {c v : Json F}
    (hk' : blockKind (new.set "source".py (.obj (src.set "content".py v))) = .ok .document)
    (hkeys : (new.set "source".py (.obj (src.set "content".py v))).map Prod.fst =
      block.map Prod.fst)
    (hsource : block.get? "source".py = some (.obj src)) (hsrc : sourceKind src = .content c)
    (hback : desanitizeContent reverse v = .ok c) :
    desanitizeBlock reverse (new.set "source".py (.obj (src.set "content".py v))) = .ok block := by
  have hget := Fields.get?_set_self new "source".py (.obj (src.set "content".py v))
  have hkind := sourceKind_set_content hsrc v
  rw [desanitizeBlock_eq reverse hk', desanitizeKind]
  split
  · next src' hsrc' =>
    cases hget.symm.trans hsrc'
    split
    · next data hdata => cases hkind.symm.trans hdata
    · next c' hc =>
      cases hkind.symm.trans hc
      rw [hback, Except.map, set_set_back (hdistinct.get? hsource).keys (sourceKind_content hsrc)]
      exact congrArg _ (restores_source hundo hdistinct htitle hcontext hkeys hsource)
    · next hother => cases hkind.symm.trans hother
  · next hno => exact absurd hget (hno _)

theorem restores_documentOther (hk' : blockKind new = .ok .document)
    (hkeys : new.map Prod.fst = block.map Prod.fst)
    (hsource : ∀ src, block.get? "source".py = some (.obj src) → sourceKind src = .other) :
    desanitizeBlock reverse new = .ok block := by
  have hget : new.get? "source".py = block.get? "source".py := by
    rw [sanitizeField_get? _ hcontext (by decide), sanitizeField_get? _ htitle (by decide)]
  have hrest := Fields.ext_get? (by rw [desanitizeField_keys, desanitizeField_keys, hkeys])
    hdistinct.keys fun k => restores_fields hundo htitle hcontext rfl rfl (k := k) rfl
  rw [desanitizeBlock_eq reverse hk', desanitizeKind]
  split
  · next src hsrc =>
    have hother := hsource src (hget ▸ hsrc)
    split
    · next data hdata => cases hother.symm.trans hdata
    · next c hc => cases hother.symm.trans hc
    · rw [hrest]
  · rw [hrest]

end Document

end Blocks

/-- What a walk over a block rewrote is restored, if that is so for the content inside it. -/
theorem restores_block {block new : Fields F} {s s' : σ} {rs : List (OneResult ρ)}
    (ih : ∀ c, SubContent block c → Distinct c → ∀ s v rs s',
      sanitizeContent sanitizeOne c s = .ok ((v, rs), s') → desanitizeContent reverse v = .ok c)
    (hdistinct : Distinct (.obj block))
    (h : sanitizeBlock sanitizeOne block s = .ok ((new, rs), s')) :
    desanitizeBlock reverse new = .ok block := by
  have hR : Rewriting sanitizeOne (fun _ _ => True) fun _ => True := fun _ _ _ _ _ _ => trivial
  have hsame : Retexted (fun _ _ => True) (Unvisited (.obj block)) (.obj block) (.obj new) :=
    retexted_block hR (fun c _ => retexted_content hR c) h fun _ _ => trivial
  have htype := sanitizeBlock_type h
  have hkeys := hsame.fields.1
  have hnodup := hdistinct.keys
  cases sanitizeBlock_run sanitizeOne h with
  | text hkind hone =>
    have hk' := text_of_retexted hsame htype hkind (Fields.get?_set_self ..)
    rw [desanitizeBlock_eq reverse hk', desanitizeKind, (hundo _ _ _ _ hone).1,
      set_set_back hnodup (blockKind_text hkind)]
  | @toolResult c v _ _ hkind hsub =>
    have hk' := toolResult_of_retexted hsame htype hkind (Fields.get?_set_self ..)
    have hcontent := blockKind_toolResult hkind
    have hback := ih c (.toolResult hkind) (hdistinct.get? hcontent) _ _ _ _ hsub
    rw [desanitizeBlock_eq reverse hk', desanitizeKind, hback, Except.map,
      set_set_back hnodup hcontent]
  | toolUse hkind hsub =>
    have hk' := toolUse_of_retexted hsame htype hkind (Fields.get?_set_self ..)
    rw [desanitizeBlock_eq reverse hk', desanitizeKind, restores_json hundo _ _ _ _ _ _ hsub,
      set_set_back hnodup (blockKind_toolUse hkind)]
  | jsonResult hkind hsub =>
    have hk' := jsonResult_of_retexted hsame htype hkind (Fields.get?_set_self ..)
    rw [desanitizeBlock_eq reverse hk', desanitizeKind, restores_json hundo _ _ _ _ _ _ hsub,
      set_set_back hnodup (blockKind_jsonResult hkind)]
  | searchResult hkind htitle hcontent hsub =>
    have hback := ih _ (.searchResult hkind hcontent) (hdistinct.get? hcontent) _ _ _ _ hsub
    exact restores_searchResult hundo hdistinct (searchResult_of_retexted hsame htype hkind) hkeys
      htitle hcontent hback
  | searchTitle hkind htitle hcontent =>
    exact restores_searchTitle hundo hdistinct (searchResult_of_retexted hsame htype hkind) hkeys
      htitle hcontent
  | documentText hkind htitle hcontext hsource hsrc hone =>
    exact restores_documentText hundo hdistinct htitle hcontext
      (document_of_retexted hsame htype hkind) hkeys hsource hsrc (hundo _ _ _ _ hone).1
  | documentContent hkind htitle hcontext hsource hsrc hsub =>
    have hback := ih _ (.document hkind hsource hsrc)
      ((hdistinct.get? hsource).get? (sourceKind_content hsrc)) _ _ _ _ hsub
    exact restores_documentContent hundo hdistinct htitle hcontext
      (document_of_retexted hsame htype hkind) hkeys hsource hsrc hback
  | documentOther hkind htitle hcontext hsource =>
    exact restores_documentOther hundo hdistinct htitle hcontext
      (document_of_retexted hsame htype hkind) hkeys hsource
  | binary hkind => rw [desanitizeBlock_eq reverse hkind, desanitizeKind]
  | fallback hkind hsub =>
    rw [desanitizeBlock_eq reverse (fallback_of_retexted hsame htype hkind), desanitizeKind,
      restores_fallback hundo hsub]

omit hundo in
theorem restores_items {items items' : List (Json F)} {s s' : σ} {rs : List (OneResult ρ)}
    (ih : ∀ block, .obj block ∈ items → ∀ s new rs s',
      sanitizeBlock sanitizeOne block s = .ok ((new, rs), s') →
        desanitizeBlock reverse new = .ok block)
    (h : ItemsRun sanitizeOne items s items' rs s') :
    desanitizeContentItems reverse items' = .ok items := by
  induction h with
  | nil => rw [desanitizeContentItems]
  | block hblock hitems ihitems =>
    have hrest := ihitems fun b hb => ih b (List.mem_cons_of_mem _ hb)
    rw [desanitizeContentItems, ih _ List.mem_cons_self _ _ _ _ hblock, hrest]
    rfl
  | kept hitem hitems ihitems =>
    have hrest := ihitems fun b hb => ih b (List.mem_cons_of_mem _ hb)
    rw [desanitizeContentItems, hrest]
    · rfl
    · exact hitem

/-- The walkers of content are inverse: a block needs the content inside it. -/
theorem restores_content (c : Json F) : Distinct c → ∀ s v rs s',
    sanitizeContent sanitizeOne c s = .ok ((v, rs), s') → desanitizeContent reverse v = .ok c := by
  induction c using content_induct (B := fun block => Distinct (.obj block) → ∀ s new rs s',
      sanitizeBlock sanitizeOne block s = .ok ((new, rs), s') →
        desanitizeBlock reverse new = .ok block) with
  | content c ih =>
    intro hdistinct s v rs s' h
    cases sanitizeContent_run sanitizeOne h with
    | text hone => rw [desanitizeContent, (hundo _ _ _ _ hone).1]
    | items hitems =>
      have hblocks := restores_items (fun b hb => ih b (.inr ⟨_, rfl, hb⟩) (hdistinct.item hb)) hitems
      rw [desanitizeContent, hblocks]
      rfl
    | block hblock =>
      rw [desanitizeContent, ih _ (.inl rfl) hdistinct _ _ _ _ hblock]
      rfl
    | null | bool | int | float =>
      rw [desanitizeContent]
      all_goals simp
  | block block ih => exact restores_block hundo ih ‹_› ‹_›

end Inverse

/-- With a rewriting of strings that can be undone and that empties no text, restoring
sanitized content gives the content back; and sanitizing changed only strings that
`sanitize_one` was given, in their places, and every string at a position that it visits. -/
theorem content_walkers_inverse (sanitizeOne : PyStr → Walk σ (OneResult ρ))
    (sanitize reverse : PyStr → PyStr)
    (hone : ∀ x s r s', sanitizeOne x s = .ok (r, s') → r.sanitizedText = sanitize x)
    (hinv : ∀ x, reverse (sanitize x) = x) (hfill : ∀ x, x ≠ [] → sanitize x ≠ [])
    (c out : Json F) (rs : List (OneResult ρ)) (s s' : σ) (hdistinct : Distinct c)
    (h : sanitizeContent sanitizeOne c s = .ok ((out, rs), s')) :
    desanitizeContent reverse out = .ok c ∧
      Retexted (fun x y => y = sanitize x ∧ ∃ r ∈ rs, r.sanitizedText = y) (Unvisited c) c out := by
  have hundo : Undoes sanitizeOne reverse := fun x s r s' h => by
    rw [hone x s r s' h]
    exact ⟨hinv x, hfill x⟩
  have hR : Rewriting sanitizeOne (fun x y => y = sanitize x ∧ ∃ r ∈ rs, r.sanitizedText = y)
      (· ∈ rs) := fun x s r s' h hr => ⟨hone x s r s' h, r, hr, rfl⟩
  exact ⟨restores_content hundo c hdistinct s out rs s' h,
    retexted_content hR c s out rs s' h fun _ hr => hr⟩

/-- A text block, with strings that are turned around. -/
theorem content_walkers_inverse_text :
    let block : Fields Literal := [("type".py, .str "text".py), ("text".py, .str "ab".py)]
    let new : Fields Literal := [("type".py, .str "text".py), ("text".py, .str "ba".py)]
    desanitizeContent List.reverse (.obj new) = .ok (.obj block) := by
  intro block new
  let one : PyStr → Walk Unit (OneResult Unit) := fun x => pure ⟨x.reverse, ()⟩
  have hone : ∀ x s r s', one x s = .ok (r, s') → r.sanitizedText = x.reverse := by
    intro x s r s' h
    cases Walk.pure_ok.mp h
    rfl
  have hdistinct : Distinct (.obj block) := by
    refine .obj (by decide) fun e he => ?_
    rcases List.mem_cons.mp he with rfl | he
    · exact .str _
    · cases List.mem_singleton.mp he
      exact .str _
  have hrun : sanitizeContent one (.obj block) () = .ok ((.obj new, [⟨"ba".py, ()⟩]), ()) := by
    rw [sanitizeContent, sanitizeBlock_eq one (show blockKind block = .ok (.text "text".py "ab".py)
      from rfl)]
    rfl
  exact (content_walkers_inverse one List.reverse List.reverse hone List.reverse_reverse
    (fun x hx => by simpa using hx) (.obj block) (.obj new) _ () () hdistinct hrun).1

end CorpLlmGateway.Sanitizer
