import CorpLlmGateway.Sanitizer.ContentBlocks

/-!
# Walking the content of a request

The block walkers of `sanitizer/content_blocks.py`. Each of them comes three times: it
rewrites texts on the way to the provider (`sanitize`), restores them on the way back
(`desanitize`), or only collects them for the scan before the request (`collect`). The
three decide alike what a block is, so that decision is one definition, `blockKind`.

`sanitize_one` is a parameter: an action that may keep state between the texts and may
raise.

* `blockKind_of` — what the kind of a block says about its fields;
* `sanitizeBlock_run` — what a walk over a block that succeeds did, by its kind;
* `sanitizeBlock_eq`, `desanitizeBlock_eq`, `collectBlockText_eq` — the walkers at a block of a
  kind;
* `content_induct` — induction over a content value and the blocks inside it.
-/

namespace CorpLlmGateway.Sanitizer

open Json

variable {F : Type}

/-! ## Raising -/

/-- What a walker raises. -/
inductive WalkError where
  /-- `ContentTooDeepError`. -/
  | contentTooDeep
  /-- `UnsanitizableToolArgumentsError(type)`. -/
  | unsanitizableToolArguments (type : PyStr)
  /-- `UnsanitizableContentBlockError(field:type)`. -/
  | unsanitizableContentBlock (field type : PyStr)
  /-- `TypeError`: a list or an object is looked up in a set. -/
  | unhashable
  /-- `json.dumps`. -/
  | json (e : Json.Error)
  /-- Whatever `sanitize_one` raised. -/
  | sanitizeOne
deriving DecidableEq, Repr

/-- A walk with the state that `sanitize_one` keeps. -/
abbrev Walk (σ α : Type) := StateT σ (Except WalkError) α

namespace Walk

variable {σ α β : Type} {s : σ}

@[simp] theorem bind_ok {x : Walk σ α} {f : α → Walk σ β} {r : β × σ} :
    (x >>= f) s = .ok r ↔ ∃ a s', x s = .ok (a, s') ∧ f a s' = .ok r := by
  show (x s).bind (fun p => f p.1 p.2) = .ok r ↔ _
  cases x s with
  | error e => simp [Except.bind]
  | ok p => simp [Except.bind, Prod.ext_iff]

/-- The second step by a name, so that it can be analysed before it is run. -/
theorem bind_named {x : Walk σ α} {f : α → Walk σ β} {r : β × σ} (h : (x >>= f) s = .ok r) :
    ∃ a s' next, x s = .ok (a, s') ∧ f a = next ∧ next s' = .ok r := by
  obtain ⟨a, s', hx, hf⟩ := bind_ok.mp h
  exact ⟨a, s', f a, hx, rfl, hf⟩

@[simp] theorem pure_ok {a : α} {r : α × σ} : (pure a : Walk σ α) s = .ok r ↔ (a, s) = r := by
  show Except.ok (a, s) = .ok r ↔ _
  simp

@[simp] theorem map_ok {x : Walk σ α} {f : α → β} {r : β × σ} :
    (f <$> x) s = .ok r ↔ ∃ a s', x s = .ok (a, s') ∧ (f a, s') = r := by
  show (x s).bind (fun p => .ok (f p.1, p.2)) = .ok r ↔ _
  cases x s with
  | error e => simp [Except.bind]
  | ok p => simp [Except.bind, Prod.ext_iff, and_comm]

@[simp] theorem throw_ok {e : WalkError} {r : α × σ} :
    (throw e : Walk σ α) s = .ok r ↔ False := by
  show Except.error e = .ok r ↔ _
  simp

end Walk

/-- `SanitizeResult`, of which the walkers read the text. -/
structure OneResult (ρ : Type) where
  sanitizedText : PyStr
  rest : ρ

/-- The name of the type of a value that is neither text nor a container. -/
def scalarType : Json F → PyStr
  | .null => "NoneType".py
  | .bool _ => "bool".py
  | .int _ => "int".py
  | .float _ => "float".py
  | .str _ => "str".py
  | .arr _ => "list".py
  | .obj _ => "dict".py

/-! ## Kinds of blocks -/

/-- `_BLOCK_FALLBACK_OPAQUE_KEYS`. -/
def blockFallbackOpaqueKeys : List PyStr := jsonOpaqueKeys ++ ["signature".py]

/-- `_TEXT_BLOCK_FIELD`. -/
def textBlockField : List (PyStr × PyStr) :=
  [("text".py, "text".py), ("input_text".py, "text".py), ("output_text".py, "text".py),
    ("reasoning_text".py, "text".py), ("summary_text".py, "text".py),
    ("refusal".py, "refusal".py)]

/-- `_OPAQUE_BLOCK_TYPES`. -/
def opaqueBlockTypes : List PyStr :=
  ["image".py, "image_url".py, "thinking".py, "redacted_thinking".py, "container_upload".py,
    "input_image".py, "input_file".py, "file".py, "input_audio".py, "output_audio".py]

/-- `_TOOL_USE_BLOCK_TYPES`. -/
def toolUseBlockTypes : List PyStr := ["tool_use".py, "server_tool_use".py, "mcp_tool_use".py]

/-- `_JSON_RESULT_BLOCK_TYPES`. -/
def jsonResultBlockTypes : List PyStr :=
  ["web_search_tool_result".py, "code_execution_tool_result".py, "mcp_tool_result".py]

/-- The branches of the block walkers. -/
inductive BlockKind (F : Type) where
  | text (field s : PyStr)
  | toolResult (content : Json F)
  | toolUse (input : Json F)
  | jsonResult (content : Json F)
  | searchResult
  | document
  | binary
  /-- The fail-safe scan of a block that is none of the others. -/
  | fallback

/-- The text of a text block. -/
def textOfBlock (block : Fields F) (type : PyStr) : Option (BlockKind F) :=
  match textBlockField.lookup type with
  | some field =>
      match block.get? field with
      | some (.str s) => some (.text field s)
      | _ => none
  | none => none

/-- The branch that the walkers take for a block with a `type` that is a string. -/
def kindOfType (block : Fields F) (type : PyStr) : BlockKind F :=
  ((textOfBlock block type).or
    ((if type = "tool_result".py then (block.get? "content".py).map .toolResult else none).or
      ((if type ∈ toolUseBlockTypes then (block.get? "input".py).map .toolUse else none).or
        (if type ∈ jsonResultBlockTypes then (block.get? "content".py).map .jsonResult
          else none)))).getD
    (if type = "search_result".py then .searchResult
      else if type = "document".py then .document
      else if type ∈ opaqueBlockTypes then .binary
      else .fallback)

/-- The branch that the walkers take. A type that is a list or an object cannot be looked up. -/
def blockKind (block : Fields F) : Except WalkError (BlockKind F) :=
  match block.get? "type".py with
  | some (.str type) => .ok (kindOfType block type)
  | some (.arr _) | some (.obj _) => .error .unhashable
  | _ => .ok .fallback

/-- What the `source` of a document holds. -/
inductive SourceKind (F : Type) where
  | text (data : PyStr)
  | content (content : Json F)
  /-- Binary, or out of scope. -/
  | other

def sourceKind (src : Fields F) : SourceKind F :=
  match src.get? "type".py with
  | some (.str type) =>
      if type = "text".py then
        match src.get? "data".py with
        | some (.str s) => .text s
        | _ => .other
      else if type = "content".py then
        match src.get? "content".py with
        | some c => .content c
        | none => .other
      else .other
  | _ => .other

/-- A field that is a text with something in it. -/
def filledText (block : Fields F) (field : PyStr) : Option PyStr :=
  match block.get? field with
  | some (.str s) => if s.isEmpty then none else some s
  | _ => none

/-! ### Parts of a block are smaller -/

theorem sizeOf_get? {fs : Fields F} {k : PyStr} {v : Json F} (h : fs.get? k = some v) :
    sizeOf v < sizeOf fs := by
  have hmem := List.sizeOf_lt_of_mem (Fields.mem_of_get? h)
  simp only [Prod.mk.sizeOf_spec] at hmem
  omega

/-- What the kinds say about the source. -/
def SourceKind.Of (src : Fields F) (type : PyStr) : SourceKind F → Prop
  | .text data => type = "text".py ∧ src.get? "data".py = some (.str data)
  | .content c => type = "content".py ∧ src.get? "content".py = some c
  | .other => True

theorem sourceKind_of {src : Fields F} {k : SourceKind F} (h : sourceKind src = k) :
    (∃ type, src.get? "type".py = some (.str type) ∧ k.Of src type) ∨ k = .other := by
  subst h
  unfold sourceKind
  split
  · next type htype =>
    split
    · next heq =>
      split
      · next s hs => exact .inl ⟨type, htype, heq, hs⟩
      · exact .inr rfl
    · split
      · next heq =>
        split
        · next c hc => exact .inl ⟨type, htype, heq, hc⟩
        · exact .inr rfl
      · exact .inr rfl
  · exact .inr rfl

theorem sourceKind_content {src : Fields F} {c : Json F} (h : sourceKind src = .content c) :
    src.get? "content".py = some c := by
  rcases sourceKind_of h with ⟨type, -, -, hc⟩ | hc
  · exact hc
  · cases hc

theorem sourceKind_text {src : Fields F} {data : PyStr} (h : sourceKind src = .text data) :
    src.get? "data".py = some (.str data) := by
  rcases sourceKind_of h with ⟨type, -, -, hc⟩ | hc
  · exact hc
  · cases hc

theorem filledText_some {block : Fields F} {field x : PyStr}
    (h : filledText block field = some x) : block.get? field = some (.str x) := by
  unfold filledText at h
  split at h
  · next hget =>
    split at h
    · cases h
    · cases h
      exact hget
  · cases h

theorem filledText_ne_nil {block : Fields F} {field x : PyStr}
    (h : filledText block field = some x) : x ≠ [] := by
  rintro rfl
  unfold filledText at h
  rw [filledText_some h] at h
  cases h

/-- What the kinds say about the block. -/
def BlockKind.Of (block : Fields F) (type : PyStr) : BlockKind F → Prop
  | .text field s => textBlockField.lookup type = some field ∧ block.get? field = some (.str s)
  | .toolResult c => type = "tool_result".py ∧ block.get? "content".py = some c
  | .toolUse c => type ∈ toolUseBlockTypes ∧ block.get? "input".py = some c
  | .jsonResult c => type ∈ jsonResultBlockTypes ∧ block.get? "content".py = some c
  | .searchResult => type = "search_result".py
  | .document => type = "document".py
  | .binary => type ∈ opaqueBlockTypes
  | .fallback => type ∉ opaqueBlockTypes

theorem textOfBlock_eq_some {block : Fields F} {type : PyStr} {k : BlockKind F}
    (h : textOfBlock block type = some k) : k.Of block type := by
  unfold textOfBlock at h
  split at h
  · next field hfield =>
    split at h
    · next s hs =>
      cases h
      exact ⟨hfield, hs⟩
    · cases h
  · cases h

theorem kindOfType_of (block : Fields F) (type : PyStr) :
    (kindOfType block type).Of block type := by
  have hpart : ∀ {p : Prop} [Decidable p] {name : PyStr} {f : Json F → BlockKind F}
      {k : BlockKind F}, (if p then (block.get? name).map f else none) = some k →
      p ∧ ∃ c, block.get? name = some c ∧ k = f c := by
    intro p _ name f k h
    split at h
    · next hp =>
      obtain ⟨c, hc, rfl⟩ := Option.map_eq_some_iff.mp h
      exact ⟨hp, c, hc, rfl⟩
    · cases h
  unfold kindOfType
  cases hrule : (textOfBlock block type).or
    ((if type = "tool_result".py then (block.get? "content".py).map .toolResult else none).or
      ((if type ∈ toolUseBlockTypes then (block.get? "input".py).map .toolUse else none).or
        (if type ∈ jsonResultBlockTypes then (block.get? "content".py).map .jsonResult
          else none))) with
  | some k =>
    simp only [Option.getD_some]
    rcases Option.or_eq_some_iff.mp hrule with h | ⟨-, hrule⟩
    · exact textOfBlock_eq_some h
    rcases Option.or_eq_some_iff.mp hrule with h | ⟨-, hrule⟩
    · obtain ⟨hp, c, hc, rfl⟩ := hpart h
      exact ⟨hp, hc⟩
    rcases Option.or_eq_some_iff.mp hrule with h | ⟨-, h⟩
    · obtain ⟨hp, c, hc, rfl⟩ := hpart h
      exact ⟨hp, hc⟩
    · obtain ⟨hp, c, hc, rfl⟩ := hpart h
      exact ⟨hp, hc⟩
  | none =>
    simp only [Option.getD_none]
    split_ifs with h1 h2 h3
    · exact h1
    · exact h2
    · exact h3
    · exact h3

/-- What the kind of a block says about it. -/
theorem blockKind_of {block : Fields F} {k : BlockKind F} (h : blockKind block = .ok k) :
    (∃ type, block.get? "type".py = some (.str type) ∧ k.Of block type) ∨ k = .fallback := by
  unfold blockKind at h
  split at h
  · next type htype =>
    cases h
    exact .inl ⟨type, htype, kindOfType_of block type⟩
  · cases h
  · cases h
  · cases h
    exact .inr rfl

theorem blockKind_toolResult {block : Fields F} {c : Json F}
    (h : blockKind block = .ok (.toolResult c)) : block.get? "content".py = some c := by
  rcases blockKind_of h with ⟨type, -, -, hc⟩ | hc
  · exact hc
  · cases hc

theorem blockKind_text {block : Fields F} {field x : PyStr}
    (h : blockKind block = .ok (.text field x)) : block.get? field = some (.str x) := by
  rcases blockKind_of h with ⟨type, -, -, hc⟩ | hc
  · exact hc
  · cases hc

/-- No text is read from the type. -/
theorem blockKind_text_ne {block : Fields F} {field x : PyStr}
    (h : blockKind block = .ok (.text field x)) : "type".py ≠ field := by
  rcases blockKind_of h with ⟨type, -, hfield, -⟩ | hc
  · have hall : ∀ e ∈ textBlockField, "type".py ≠ e.2 := by decide
    obtain ⟨before, after, hsplit, -⟩ := List.lookup_eq_some_iff.mp hfield
    exact hall _ (hsplit ▸ List.mem_append_right _ List.mem_cons_self)
  · cases hc

theorem blockKind_toolUse {block : Fields F} {c : Json F}
    (h : blockKind block = .ok (.toolUse c)) : block.get? "input".py = some c := by
  rcases blockKind_of h with ⟨type, -, -, hc⟩ | hc
  · exact hc
  · cases hc

theorem blockKind_jsonResult {block : Fields F} {c : Json F}
    (h : blockKind block = .ok (.jsonResult c)) : block.get? "content".py = some c := by
  rcases blockKind_of h with ⟨type, -, -, hc⟩ | hc
  · exact hc
  · cases hc

/-! ### The tree of blocks -/

/-- A block that a content value or its list consists of. -/
def IsBlock (c : Json F) (block : Fields F) : Prop :=
  c = .obj block ∨ ∃ items, c = .arr items ∧ .obj block ∈ items

/-- The content that the walkers enter from a block. -/
inductive SubContent (block : Fields F) (c : Json F) : Prop
  | toolResult (hkind : blockKind block = .ok (.toolResult c))
  | searchResult (hkind : blockKind block = .ok .searchResult)
      (hcontent : block.get? "content".py = some c)
  | document {src : Fields F} (hkind : blockKind block = .ok .document)
      (hsource : block.get? "source".py = some (.obj src)) (hsrc : sourceKind src = .content c)

theorem IsBlock.sizeOf_lt {c : Json F} {block : Fields F} (h : IsBlock c block) :
    sizeOf block < sizeOf c := by
  rcases h with rfl | ⟨items, rfl, hmem⟩
  · simp
  · have hlt := List.sizeOf_lt_of_mem hmem
    simp only [Json.obj.sizeOf_spec, Json.arr.sizeOf_spec] at hlt ⊢
    omega

theorem SubContent.sizeOf_lt {block : Fields F} {c : Json F} (h : SubContent block c) :
    sizeOf c < sizeOf block := by
  cases h with
  | toolResult hkind => exact sizeOf_get? (blockKind_toolResult hkind)
  | searchResult hkind hcontent => exact sizeOf_get? hcontent
  | document hkind hsource hsrc =>
    have hsize := sizeOf_get? hsource
    have hinner := sizeOf_get? (sourceKind_content hsrc)
    simp only [Json.obj.sizeOf_spec] at hsize
    omega

/-- To prove something of every content value: from its blocks, and for a block from the
content inside it. -/
theorem content_induct {C : Json F → Prop} {B : Fields F → Prop}
    (content : ∀ c, (∀ block, IsBlock c block → B block) → C c)
    (block : ∀ block, (∀ c, SubContent block c → C c) → B block) (c : Json F) : C c := by
  have hstrong : ∀ n, (∀ c : Json F, sizeOf c < n → C c) ∧ ∀ b : Fields F, sizeOf b < n → B b := by
    intro n
    induction n with
    | zero => exact ⟨nofun, nofun⟩
    | succ n ih =>
      refine ⟨fun c hc => content c fun b hb => ih.2 b ?_, fun b hb => block b fun c hc => ih.1 c ?_⟩
      · have hlt := hb.sizeOf_lt
        omega
      · have hlt := hc.sizeOf_lt
        omega
  exact (hstrong (sizeOf c + 1)).1 c (Nat.lt_succ_self _)

/-- A block somewhere in a content value. -/
inductive Contains : Json F → Fields F → Prop
  | here {c : Json F} {block : Fields F} (h : IsBlock c block) : Contains c block
  | inside {c c' : Json F} {block inner : Fields F} (h : IsBlock c block)
      (hsub : SubContent block c') (hinner : Contains c' inner) : Contains c inner

/-! ## Sanitizing -/

section Sanitize

variable {σ ρ : Type} (sanitizeOne : PyStr → Walk σ (OneResult ρ))

/-- A text that is rewritten. -/
def sanitizeText (s : PyStr) : Walk σ (Json F × List (OneResult ρ)) := do
  let r ← sanitizeOne s
  pure (.str r.sanitizedText, [r])

/-- A value that is kept as it is, or walked. -/
def keepOr (keep : Prop) [Decidable keep] (v : Json F)
    (walk : Walk σ (Json F × List (OneResult ρ))) : Walk σ (Json F × List (OneResult ρ)) :=
  if keep then pure (v, []) else walk

/-- The nesting that the walkers of JSON trees allow. -/
def checkDepth (depth : ℕ) : Walk σ Unit :=
  if maxJsonDepth < depth then throw .contentTooDeep else pure ()

theorem checkDepth_ok {depth : ℕ} {s : σ} {r : Unit × σ} :
    checkDepth depth s = .ok r ↔ depth ≤ maxJsonDepth ∧ ((), s) = r := by
  unfold checkDepth
  split
  · next h => simp [Nat.not_le.mpr h]
  · next h => simp [Nat.not_lt.mp h]

mutual

/-- `_sanitize_json(value, sanitize_one, _depth)`. -/
def sanitizeJson : ℕ → Json F → Walk σ (Json F × List (OneResult ρ))
  | depth, .str s => do
      checkDepth depth
      sanitizeText sanitizeOne s
  | depth, .arr items => do
      checkDepth depth
      let (items, rs) ← sanitizeJsonItems (depth + 1) items
      pure (.arr items, rs)
  | depth, .obj fields => do
      checkDepth depth
      let (fields, rs) ← sanitizeJsonFields (depth + 1) fields
      pure (.obj fields, rs)
  | depth, j => do
      checkDepth depth
      pure (j, [])

def sanitizeJsonItems : ℕ → List (Json F) → Walk σ (List (Json F) × List (OneResult ρ))
  | _, [] => pure ([], [])
  | depth, x :: xs => do
      let (x, r) ← sanitizeJson depth x
      let (xs, rs) ← sanitizeJsonItems depth xs
      pure (x :: xs, r ++ rs)

def sanitizeJsonFields :
    ℕ → List (PyStr × Json F) → Walk σ (List (PyStr × Json F) × List (OneResult ρ))
  | _, [] => pure ([], [])
  | depth, (k, v) :: fs => do
      let (v, r) ← keepOr (k ∈ jsonOpaqueKeys) v (sanitizeJson depth v)
      let (fs, rs) ← sanitizeJsonFields depth fs
      pure ((k, v) :: fs, r ++ rs)

end

/-- The fail-safe scan of a block, field by field. -/
def sanitizeFallback : Fields F → Walk σ (Fields F × List (OneResult ρ))
  | [] => pure ([], [])
  | (k, v) :: fs => do
      let (v, r) ← keepOr (k = "type".py ∨ k ∈ blockFallbackOpaqueKeys) v
        (sanitizeJson sanitizeOne 1 v)
      let (fs, rs) ← sanitizeFallback fs
      pure ((k, v) :: fs, r ++ rs)

/-- A field of a block that is rewritten if it is a text with something in it. -/
def sanitizeField (block : Fields F) (field : PyStr) :
    Walk σ (Fields F × List (OneResult ρ)) :=
  match filledText block field with
  | some s => do
      let (v, rs) ← sanitizeText sanitizeOne s
      pure (block.set field v, rs)
  | none => pure (block, [])

/-- The branches of `_sanitize_block`; `inner` walks the content inside the block. -/
def sanitizeKind (block : Fields F)
    (inner : (c : Json F) → SubContent block c → Walk σ (Json F × List (OneResult ρ))) :
    (kind : BlockKind F) → blockKind block = .ok kind → Walk σ (Fields F × List (OneResult ρ))
  | .text field s, _ => do
      let (v, rs) ← sanitizeText sanitizeOne s
      pure (block.set field v, rs)
  | .toolResult content, hkind => do
      let (v, rs) ← inner content (.toolResult hkind)
      pure (block.set "content".py v, rs)
  | .toolUse input, _ => do
      let (v, rs) ← sanitizeJson sanitizeOne 0 input
      pure (block.set "input".py v, rs)
  | .jsonResult content, _ => do
      let (v, rs) ← sanitizeJson sanitizeOne 0 content
      pure (block.set "content".py v, rs)
  | .searchResult, hkind => do
      let (new, rs) ← sanitizeField sanitizeOne block "title".py
      match hcontent : block.get? "content".py with
      | some content => do
          let (v, rs') ← inner content (.searchResult hkind hcontent)
          pure (new.set "content".py v, rs ++ rs')
      | none => pure (new, rs)
  | .document, hkind => do
      let (new, rs) ← sanitizeField sanitizeOne block "title".py
      let (new, rs') ← sanitizeField sanitizeOne new "context".py
      match hsource : block.get? "source".py with
      | some (.obj src) =>
          match hsrc : sourceKind src with
          | .text data => do
              let (v, rs'') ← sanitizeText sanitizeOne data
              pure (new.set "source".py (.obj (Fields.set src "data".py v)), rs ++ rs' ++ rs'')
          | .content content => do
              let (v, rs'') ← inner content (.document hkind hsource hsrc)
              pure (new.set "source".py (.obj (Fields.set src "content".py v)), rs ++ rs' ++ rs'')
          | .other => pure (new, rs ++ rs')
      | _ => pure (new, rs ++ rs')
  | .binary, _ => pure (block, [])
  | .fallback, _ => sanitizeFallback sanitizeOne block

mutual

/-- `sanitize_content(content, sanitize_one)`. -/
def sanitizeContent (content : Json F) : Walk σ (Json F × List (OneResult ρ)) :=
  match content with
  | .str s => sanitizeText sanitizeOne s
  | .arr items => do
      let (items, rs) ← sanitizeItems items
      pure (.arr items, rs)
  | .obj block => do
      let (block, rs) ← sanitizeBlock block
      pure (.obj block, rs)
  | j => pure (j, [])
termination_by sizeOf content

/-- The items of a content list: blocks are walked, the others are kept. -/
def sanitizeItems (items : List (Json F)) : Walk σ (List (Json F) × List (OneResult ρ)) :=
  match items with
  | [] => pure ([], [])
  | .obj block :: items => do
      let (block, r) ← sanitizeBlock block
      let (items, rs) ← sanitizeItems items
      pure (.obj block :: items, r ++ rs)
  | item :: items => do
      let (items, rs) ← sanitizeItems items
      pure (item :: items, rs)
termination_by sizeOf items

/-- `_sanitize_block(block, sanitize_one)`. -/
def sanitizeBlock (block : Fields F) : Walk σ (Fields F × List (OneResult ρ)) :=
  match hkind : blockKind block with
  | .error e => throw e
  | .ok kind => sanitizeKind sanitizeOne block (fun c _ => sanitizeContent c) kind hkind
termination_by sizeOf block
decreasing_by exact SubContent.sizeOf_lt ‹_›

end

/-- The walker at a block of a kind. -/
theorem sanitizeBlock_eq {block : Fields F} {kind : BlockKind F}
    (h : blockKind block = .ok kind) :
    sanitizeBlock sanitizeOne block =
      sanitizeKind sanitizeOne block (fun c _ => sanitizeContent sanitizeOne c) kind h := by
  rw [sanitizeBlock]
  split
  · next h' => cases h.symm.trans h'
  · next h' =>
    cases h.symm.trans h'
    rfl

/-- What a walk over a block that succeeds did, by the kind of the block. -/
inductive BlockRun (block : Fields F) (s : σ) : Fields F → List (OneResult ρ) → σ → Prop
  | text {field x : PyStr} {r : OneResult ρ} {s' : σ} (hkind : blockKind block = .ok (.text field x))
      (hone : sanitizeOne x s = .ok (r, s')) :
      BlockRun block s (block.set field (.str r.sanitizedText)) [r] s'
  | toolResult {c v : Json F} {rs : List (OneResult ρ)} {s' : σ}
      (hkind : blockKind block = .ok (.toolResult c))
      (hsub : sanitizeContent sanitizeOne c s = .ok ((v, rs), s')) :
      BlockRun block s (block.set "content".py v) rs s'
  | toolUse {c v : Json F} {rs : List (OneResult ρ)} {s' : σ}
      (hkind : blockKind block = .ok (.toolUse c))
      (hsub : sanitizeJson sanitizeOne 0 c s = .ok ((v, rs), s')) :
      BlockRun block s (block.set "input".py v) rs s'
  | jsonResult {c v : Json F} {rs : List (OneResult ρ)} {s' : σ}
      (hkind : blockKind block = .ok (.jsonResult c))
      (hsub : sanitizeJson sanitizeOne 0 c s = .ok ((v, rs), s')) :
      BlockRun block s (block.set "content".py v) rs s'
  | searchResult {new : Fields F} {c v : Json F} {rs rs' : List (OneResult ρ)} {s₁ s' : σ}
      (hkind : blockKind block = .ok .searchResult)
      (htitle : sanitizeField sanitizeOne block "title".py s = .ok ((new, rs), s₁))
      (hcontent : block.get? "content".py = some c)
      (hsub : sanitizeContent sanitizeOne c s₁ = .ok ((v, rs'), s')) :
      BlockRun block s (new.set "content".py v) (rs ++ rs') s'
  | searchTitle {new : Fields F} {rs : List (OneResult ρ)} {s' : σ}
      (hkind : blockKind block = .ok .searchResult)
      (htitle : sanitizeField sanitizeOne block "title".py s = .ok ((new, rs), s'))
      (hcontent : block.get? "content".py = none) : BlockRun block s new rs s'
  | documentText {new new' src : Fields F} {data : PyStr} {r : OneResult ρ}
      {rs rs' : List (OneResult ρ)} {s₁ s₂ s' : σ} (hkind : blockKind block = .ok .document)
      (htitle : sanitizeField sanitizeOne block "title".py s = .ok ((new, rs), s₁))
      (hcontext : sanitizeField sanitizeOne new "context".py s₁ = .ok ((new', rs'), s₂))
      (hsource : block.get? "source".py = some (.obj src)) (hsrc : sourceKind src = .text data)
      (hone : sanitizeOne data s₂ = .ok (r, s')) :
      BlockRun block s (new'.set "source".py (.obj (src.set "data".py (.str r.sanitizedText))))
        (rs ++ rs' ++ [r]) s'
  | documentContent {new new' src : Fields F} {c v : Json F} {rs rs' rs'' : List (OneResult ρ)}
      {s₁ s₂ s' : σ} (hkind : blockKind block = .ok .document)
      (htitle : sanitizeField sanitizeOne block "title".py s = .ok ((new, rs), s₁))
      (hcontext : sanitizeField sanitizeOne new "context".py s₁ = .ok ((new', rs'), s₂))
      (hsource : block.get? "source".py = some (.obj src)) (hsrc : sourceKind src = .content c)
      (hsub : sanitizeContent sanitizeOne c s₂ = .ok ((v, rs''), s')) :
      BlockRun block s (new'.set "source".py (.obj (src.set "content".py v)))
        (rs ++ rs' ++ rs'') s'
  | documentOther {new new' : Fields F} {rs rs' : List (OneResult ρ)} {s₁ s' : σ}
      (hkind : blockKind block = .ok .document)
      (htitle : sanitizeField sanitizeOne block "title".py s = .ok ((new, rs), s₁))
      (hcontext : sanitizeField sanitizeOne new "context".py s₁ = .ok ((new', rs'), s'))
      (hsource : ∀ src, block.get? "source".py = some (.obj src) → sourceKind src = .other) :
      BlockRun block s new' (rs ++ rs') s'
  | binary (hkind : blockKind block = .ok .binary) : BlockRun block s block [] s
  | fallback {new : Fields F} {rs : List (OneResult ρ)} {s' : σ}
      (hkind : blockKind block = .ok .fallback)
      (hsub : sanitizeFallback sanitizeOne block s = .ok ((new, rs), s')) :
      BlockRun block s new rs s'

theorem sanitizeFallback_cons {e : PyStr × Json F} {block new : Fields F} {s s' : σ}
    {rs : List (OneResult ρ)} (h : sanitizeFallback sanitizeOne (e :: block) s = .ok ((new, rs), s')) :
    ∃ v r s₁ fs rs', keepOr (e.1 = "type".py ∨ e.1 ∈ blockFallbackOpaqueKeys) e.2
        (sanitizeJson sanitizeOne 1 e.2) s = .ok ((v, r), s₁) ∧
      sanitizeFallback sanitizeOne block s₁ = .ok ((fs, rs'), s') ∧ new = (e.1, v) :: fs ∧
      rs = r ++ rs' := by
  rw [sanitizeFallback] at h
  simp only [Walk.bind_ok, Walk.pure_ok, Prod.mk.injEq, Prod.exists] at h
  obtain ⟨v, r, s₁, hwalk, fs, rs', s₂, hrest, ⟨rfl, rfl⟩, rfl⟩ := h
  exact ⟨v, r, s₁, fs, rs', hwalk, hrest, rfl, rfl⟩

theorem sanitizeText_ok {x : PyStr} {s s' : σ} {v : Json F} {rs : List (OneResult ρ)}
    (h : sanitizeText sanitizeOne x s = .ok ((v, rs), s')) :
    ∃ r, sanitizeOne x s = .ok (r, s') ∧ v = .str r.sanitizedText ∧ rs = [r] := by
  simp only [sanitizeText, Walk.bind_ok, Walk.pure_ok, Prod.mk.injEq] at h
  obtain ⟨r, s₁, hone, ⟨rfl, rfl⟩, rfl⟩ := h
  exact ⟨r, hone, rfl, rfl⟩

/-- A rewritten field leaves the others alone. -/
theorem sanitizeField_get? {block new : Fields F} {field k : PyStr} {s s' : σ}
    {rs : List (OneResult ρ)} (h : sanitizeField sanitizeOne block field s = .ok ((new, rs), s'))
    (hk : k ≠ field) : new.get? k = block.get? k := by
  unfold sanitizeField at h
  cases hfill : filledText block field with
  | none =>
    simp only [hfill, Walk.pure_ok, Prod.mk.injEq] at h
    rw [← h.1.1]
  | some x =>
    simp only [hfill, Walk.bind_ok, Walk.pure_ok, Prod.mk.injEq, Prod.exists] at h
    obtain ⟨v, rs', s₁, hsub, ⟨rfl, rfl⟩, rfl⟩ := h
    exact Fields.get?_set_of_ne hk v

theorem sanitizeField_filledText {block new : Fields F} {field k : PyStr} {s s' : σ}
    {rs : List (OneResult ρ)} (h : sanitizeField sanitizeOne block field s = .ok ((new, rs), s'))
    (hk : k ≠ field) : filledText new k = filledText block k := by
  unfold filledText
  rw [sanitizeField_get? sanitizeOne h hk]

theorem sanitizeBlock_run {block new : Fields F} {s s' : σ} {rs : List (OneResult ρ)}
    (h : sanitizeBlock sanitizeOne block s = .ok ((new, rs), s')) :
    BlockRun sanitizeOne block s new rs s' := by
  cases hkind : blockKind block with
  | error e =>
    have hthrow : sanitizeBlock sanitizeOne block = throw e := by
      rw [sanitizeBlock]
      split
      · next h' => rw [Except.error.inj (hkind.symm.trans h')]
      · next h' => cases hkind.symm.trans h'
    rw [hthrow] at h
    exact absurd (Walk.throw_ok.mp h) id
  | ok kind =>
    rw [sanitizeBlock_eq sanitizeOne hkind] at h
    cases kind with
    | text field x =>
      simp only [sanitizeKind, Walk.bind_ok, Walk.pure_ok, Prod.mk.injEq, Prod.exists] at h
      obtain ⟨v, rs, s₁, hsub, ⟨rfl, rfl⟩, rfl⟩ := h
      obtain ⟨r, hone, rfl, rfl⟩ := sanitizeText_ok sanitizeOne hsub
      exact .text hkind hone
    | toolResult c =>
      simp only [sanitizeKind, Walk.bind_ok, Walk.pure_ok, Prod.mk.injEq, Prod.exists] at h
      obtain ⟨v, rs, s₁, hsub, ⟨rfl, rfl⟩, rfl⟩ := h
      exact .toolResult hkind hsub
    | toolUse c =>
      simp only [sanitizeKind, Walk.bind_ok, Walk.pure_ok, Prod.mk.injEq, Prod.exists] at h
      obtain ⟨v, rs, s₁, hsub, ⟨rfl, rfl⟩, rfl⟩ := h
      exact .toolUse hkind hsub
    | jsonResult c =>
      simp only [sanitizeKind, Walk.bind_ok, Walk.pure_ok, Prod.mk.injEq, Prod.exists] at h
      obtain ⟨v, rs, s₁, hsub, ⟨rfl, rfl⟩, rfl⟩ := h
      exact .jsonResult hkind hsub
    | searchResult =>
      obtain ⟨⟨new, rs⟩, s₁, next, htitle, hnext, h⟩ := Walk.bind_named h
      simp only at hnext
      split at hnext
      all_goals subst hnext
      · next c hcontent =>
        simp only [Walk.bind_ok, Walk.pure_ok, Prod.mk.injEq, Prod.exists] at h
        obtain ⟨v, rs', s₂, hsub, ⟨rfl, rfl⟩, rfl⟩ := h
        exact .searchResult hkind htitle hcontent hsub
      · next hcontent =>
        cases Walk.pure_ok.mp h
        exact .searchTitle hkind htitle hcontent
    | document =>
      obtain ⟨⟨new, rs⟩, s₁, htitle, h⟩ := Walk.bind_ok.mp h
      obtain ⟨⟨new', rs'⟩, s₂, next, hcontext, hnext, h⟩ := Walk.bind_named h
      simp only at hnext
      split at hnext
      · next src hsource =>
        split at hnext
        all_goals subst hnext
        · next data hsrc =>
          simp only [Walk.bind_ok, Walk.pure_ok, Prod.mk.injEq, Prod.exists] at h
          obtain ⟨v, rs'', s₃, hsub, ⟨rfl, rfl⟩, rfl⟩ := h
          obtain ⟨r, hone, rfl, rfl⟩ := sanitizeText_ok sanitizeOne hsub
          exact .documentText hkind htitle hcontext hsource hsrc hone
        · next c hsrc =>
          simp only [Walk.bind_ok, Walk.pure_ok, Prod.mk.injEq, Prod.exists] at h
          obtain ⟨v, rs'', s₃, hsub, ⟨rfl, rfl⟩, rfl⟩ := h
          exact .documentContent hkind htitle hcontext hsource hsrc hsub
        · next hsrc =>
          cases Walk.pure_ok.mp h
          refine .documentOther hkind htitle hcontext fun src' h => ?_
          cases hsource.symm.trans h
          exact hsrc
      · next hsource =>
        subst hnext
        cases Walk.pure_ok.mp h
        exact .documentOther hkind htitle hcontext fun src h => absurd h (hsource src)
    | binary =>
      cases Walk.pure_ok.mp h
      exact .binary hkind
    | fallback => exact .fallback hkind h

/-- What a walk over the items of a list that succeeds did. -/
inductive ItemsRun : List (Json F) → σ → List (Json F) → List (OneResult ρ) → σ → Prop
  | nil (s : σ) : ItemsRun [] s [] [] s
  | block {block new : Fields F} {items items' : List (Json F)} {r rs : List (OneResult ρ)}
      {s s₁ s' : σ} (hblock : sanitizeBlock sanitizeOne block s = .ok ((new, r), s₁))
      (hitems : ItemsRun items s₁ items' rs s') :
      ItemsRun (.obj block :: items) s (.obj new :: items') (r ++ rs) s'
  | kept {item : Json F} {items items' : List (Json F)} {rs : List (OneResult ρ)} {s s' : σ}
      (hitem : ∀ block, item ≠ .obj block) (hitems : ItemsRun items s items' rs s') :
      ItemsRun (item :: items) s (item :: items') rs s'

theorem sanitizeItems_run {items new : List (Json F)} {s s' : σ} {rs : List (OneResult ρ)}
    (h : sanitizeItems sanitizeOne items s = .ok ((new, rs), s')) :
    ItemsRun sanitizeOne items s new rs s' := by
  induction items generalizing new rs s with
  | nil =>
    rw [sanitizeItems] at h
    cases Walk.pure_ok.mp h
    exact .nil _
  | cons item items ih =>
    cases item with
    | obj block =>
      rw [sanitizeItems] at h
      simp only [Walk.bind_ok, Walk.pure_ok] at h
      obtain ⟨⟨b, r⟩, s₁, hb, ⟨items', rs'⟩, s₂, hitems, h⟩ := h
      cases h
      exact .block hb (ih hitems)
    | _ =>
      rw [sanitizeItems] at h
      · simp only [Walk.bind_ok, Walk.pure_ok] at h
        obtain ⟨⟨items', rs'⟩, s₁, hitems, h⟩ := h
        cases h
        exact .kept (by simp) (ih hitems)
      · simp

/-- What a walk over a content value that succeeds did. -/
inductive ContentRun (s : σ) : Json F → Json F → List (OneResult ρ) → σ → Prop
  | text {x : PyStr} {r : OneResult ρ} {s' : σ} (hone : sanitizeOne x s = .ok (r, s')) :
      ContentRun s (.str x) (.str r.sanitizedText) [r] s'
  | items {items items' : List (Json F)} {rs : List (OneResult ρ)} {s' : σ}
      (hitems : ItemsRun sanitizeOne items s items' rs s') :
      ContentRun s (.arr items) (.arr items') rs s'
  | block {block new : Fields F} {rs : List (OneResult ρ)} {s' : σ}
      (hblock : sanitizeBlock sanitizeOne block s = .ok ((new, rs), s')) :
      ContentRun s (.obj block) (.obj new) rs s'
  | null : ContentRun s .null .null [] s
  | bool (b : Bool) : ContentRun s (.bool b) (.bool b) [] s
  | int (n : ℤ) : ContentRun s (.int n) (.int n) [] s
  | float (f : F) : ContentRun s (.float f) (.float f) [] s

theorem sanitizeContent_run {c v : Json F} {s s' : σ} {rs : List (OneResult ρ)}
    (h : sanitizeContent sanitizeOne c s = .ok ((v, rs), s')) :
    ContentRun sanitizeOne s c v rs s' := by
  cases c with
  | str x =>
    rw [sanitizeContent] at h
    obtain ⟨r, hone, rfl, rfl⟩ := sanitizeText_ok sanitizeOne h
    exact .text hone
  | arr items =>
    rw [sanitizeContent] at h
    simp only [Walk.bind_ok, Walk.pure_ok] at h
    obtain ⟨⟨items', rs'⟩, s₁, hitems, h⟩ := h
    cases h
    exact .items (sanitizeItems_run sanitizeOne hitems)
  | obj block =>
    rw [sanitizeContent] at h
    simp only [Walk.bind_ok, Walk.pure_ok] at h
    obtain ⟨⟨b, rs'⟩, s₁, hb, h⟩ := h
    cases h
    exact .block hb
  | _ =>
    rw [sanitizeContent] at h
    · cases Walk.pure_ok.mp h
      constructor
    all_goals simp

end Sanitize

/-! ## Restoring -/

section Desanitize

variable (reverse : PyStr → PyStr)

/-- The fail-safe scan of a block, field by field. -/
def desanitizeFallback (block : Fields F) : Fields F :=
  block.map fun e =>
    (e.1, if e.1 = "type".py ∨ e.1 ∈ blockFallbackOpaqueKeys then e.2
      else desanitizeJson reverse 1 e.2)

/-- A field of a block that is restored if it is a text with something in it. -/
def desanitizeField (block : Fields F) (field : PyStr) : Fields F :=
  match filledText block field with
  | some s => block.set field (.str (reverse s))
  | none => block

/-- The branches of `_desanitize_block`; `inner` walks the content inside the block. -/
def desanitizeKind (block : Fields F)
    (inner : (c : Json F) → SubContent block c → Except WalkError (Json F)) :
    (kind : BlockKind F) → blockKind block = .ok kind → Except WalkError (Fields F)
  | .text field s, _ => .ok (block.set field (.str (reverse s)))
  | .toolResult content, hkind =>
      (inner content (.toolResult hkind)).map fun v => block.set "content".py v
  | .toolUse input, _ => .ok (block.set "input".py (desanitizeJson reverse 0 input))
  | .jsonResult content, _ => .ok (block.set "content".py (desanitizeJson reverse 0 content))
  | .searchResult, hkind =>
      let new := desanitizeField reverse block "title".py
      match hcontent : block.get? "content".py with
      | some content =>
          (inner content (.searchResult hkind hcontent)).map fun v => new.set "content".py v
      | none => .ok new
  | .document, hkind =>
      let new := desanitizeField reverse (desanitizeField reverse block "title".py) "context".py
      match hsource : block.get? "source".py with
      | some (.obj src) =>
          match hsrc : sourceKind src with
          | .text data =>
              .ok (new.set "source".py (.obj (Fields.set src "data".py (.str (reverse data)))))
          | .content content =>
              (inner content (.document hkind hsource hsrc)).map fun v =>
                new.set "source".py (.obj (Fields.set src "content".py v))
          | .other => .ok new
      | _ => .ok new
  | .binary, _ => .ok block
  | .fallback, _ => .ok (desanitizeFallback reverse block)

mutual

/-- `desanitize_content(content, reverse)`. -/
def desanitizeContent (content : Json F) : Except WalkError (Json F) :=
  match content with
  | .str s => .ok (.str (reverse s))
  | .arr items => (desanitizeContentItems items).map .arr
  | .obj block => (desanitizeBlock block).map .obj
  | j => .ok j
termination_by sizeOf content

/-- The items of a content list: blocks are walked, the others are kept. -/
def desanitizeContentItems (items : List (Json F)) : Except WalkError (List (Json F)) :=
  match items with
  | [] => .ok []
  | .obj block :: items => do
      let block ← desanitizeBlock block
      let items ← desanitizeContentItems items
      .ok (.obj block :: items)
  | item :: items => do
      let items ← desanitizeContentItems items
      .ok (item :: items)
termination_by sizeOf items

/-- `_desanitize_block(block, reverse)`. -/
def desanitizeBlock (block : Fields F) : Except WalkError (Fields F) :=
  match hkind : blockKind block with
  | .error e => .error e
  | .ok kind => desanitizeKind reverse block (fun c _ => desanitizeContent c) kind hkind
termination_by sizeOf block
decreasing_by exact SubContent.sizeOf_lt ‹_›

end

theorem desanitizeBlock_eq {block : Fields F} {kind : BlockKind F}
    (h : blockKind block = .ok kind) :
    desanitizeBlock reverse block =
      desanitizeKind reverse block (fun c _ => desanitizeContent reverse c) kind h := by
  rw [desanitizeBlock]
  split
  · next h' => cases h.symm.trans h'
  · next h' =>
    cases h.symm.trans h'
    rfl

end Desanitize

/-! ## Collecting -/

mutual

/-- `_collect_json_text(value, _depth)`. -/
def collectJsonText : ℕ → Json F → List PyStr
  | depth, .str s => if maxJsonDepth < depth then [] else [s]
  | depth, .arr items => if maxJsonDepth < depth then [] else collectJsonItems (depth + 1) items
  | depth, .obj fields =>
      if maxJsonDepth < depth then [] else collectJsonFields (depth + 1) fields
  | _, _ => []

def collectJsonItems : ℕ → List (Json F) → List PyStr
  | _, [] => []
  | depth, x :: xs => collectJsonText depth x ++ collectJsonItems depth xs

def collectJsonFields : ℕ → List (PyStr × Json F) → List PyStr
  | _, [] => []
  | depth, (k, v) :: fs =>
      (if k ∈ jsonOpaqueKeys then [] else collectJsonText depth v) ++ collectJsonFields depth fs

end

/-- The fail-safe scan of a block. It reads a `signature`, which is never rewritten. -/
def collectFallback (block : Fields F) : List PyStr :=
  block.flatMap fun e =>
    if e.1 = "type".py ∨ e.1 ∈ jsonOpaqueKeys then [] else collectJsonText 1 e.2

/-- The branches of `_collect_block_text`; `inner` walks the content inside the block. -/
def collectKind (block : Fields F)
    (inner : (c : Json F) → SubContent block c → Except WalkError (List PyStr)) :
    (kind : BlockKind F) → blockKind block = .ok kind → Except WalkError (List PyStr)
  | .text _ s, _ => .ok [s]
  | .toolResult content, hkind => inner content (.toolResult hkind)
  | .toolUse input, _ => .ok (collectJsonText 0 input)
  | .jsonResult content, _ => .ok (collectJsonText 0 content)
  | .searchResult, hkind =>
      let title := (filledText block "title".py).toList
      match hcontent : block.get? "content".py with
      | some content =>
          (inner content (.searchResult hkind hcontent)).map fun texts => title ++ texts
      | none => .ok title
  | .document, hkind =>
      let texts := (filledText block "title".py).toList ++ (filledText block "context".py).toList
      match hsource : block.get? "source".py with
      | some (.obj src) =>
          match hsrc : sourceKind src with
          | .text data => .ok (texts ++ [data])
          | .content content =>
              (inner content (.document hkind hsource hsrc)).map fun more => texts ++ more
          | .other => .ok texts
      | _ => .ok texts
  | .binary, _ => .ok []
  | .fallback, _ => .ok (collectFallback block)

mutual

/-- `collect_text(content)`. -/
def collectText (content : Json F) : Except WalkError (List PyStr) :=
  match content with
  | .str s => .ok [s]
  | .arr items => collectItems items
  | .obj block => collectBlockText block
  | _ => .ok []
termination_by sizeOf content

/-- The items of a content list: only blocks are read. -/
def collectItems (items : List (Json F)) : Except WalkError (List PyStr) :=
  match items with
  | [] => .ok []
  | .obj block :: items => do
      let texts ← collectBlockText block
      let more ← collectItems items
      .ok (texts ++ more)
  | _ :: items => collectItems items
termination_by sizeOf items

/-- `_collect_block_text(block)`. -/
def collectBlockText (block : Fields F) : Except WalkError (List PyStr) :=
  match hkind : blockKind block with
  | .error e => .error e
  | .ok kind => collectKind block (fun c _ => collectText c) kind hkind
termination_by sizeOf block
decreasing_by exact SubContent.sizeOf_lt ‹_›

end

theorem collectBlockText_eq {block : Fields F} {kind : BlockKind F}
    (h : blockKind block = .ok kind) :
    collectBlockText block = collectKind block (fun c _ => collectText c) kind h := by
  rw [collectBlockText]
  split
  · next h' => cases h.symm.trans h'
  · next h' =>
    cases h.symm.trans h'
    rfl

/-- A text block inside a tool result. -/
def nestedResult : Fields Literal :=
  [("type".py, .str "tool_result".py),
    ("content".py, .arr [.obj [("type".py, .str "text".py), ("text".py, .str "hi".py)]])]

end CorpLlmGateway.Sanitizer
