import CorpLlmGateway.Sanitizer.MessageWalk

/-!
# The scan before the request sees what is sanitized

The collecting walkers mirror the sanitizing ones. What is handed to `sanitize_one` is what
they collect, in the same order; only the `signature` of a block that falls to the
fail-safe scan is collected and never rewritten.

* `scanned_content` — what a walk over a content value handed to `sanitize_one`;
* `prescan_sees_sanitized` — the same for whole messages and Responses items.
-/

namespace CorpLlmGateway.Sanitizer

open Json

variable {F : Type} {σ ρ α β : Type}

/-- `sanitize_one` with a record of the texts that it is called with. -/
def logged (sanitizeOne : PyStr → Walk σ (OneResult ρ)) (x : PyStr) :
    Walk (σ × List PyStr) (OneResult ρ) := fun p =>
  (sanitizeOne x p.1).map fun q => (q.1, (q.2, p.2 ++ [x]))

/-! ## Walks with a record -/

/-- A walk that calls `sanitize_one` with these texts if it succeeds. -/
def Reads (walk : Walk (σ × List PyStr) α) (texts : List PyStr) : Prop :=
  ∀ p r p', walk p = .ok (r, p') → p'.2 = p.2 ++ texts

namespace Reads

theorem pure (a : α) : Reads (pure a : Walk (σ × List PyStr) α) [] := by
  intro p r p' h
  simp only [Walk.pure_ok, Prod.mk.injEq] at h
  simp [← h.2]

theorem bind {x : Walk (σ × List PyStr) α} {f : α → Walk (σ × List PyStr) β}
    {xs ys : List PyStr} (hx : Reads x xs) (hf : ∀ a, Reads (f a) ys) :
    Reads (x >>= f) (xs ++ ys) := by
  intro p r p' h
  obtain ⟨a, p₁, ha, h⟩ := Walk.bind_ok.mp h
  rw [hf a p₁ r p' h, hx p a p₁ ha, List.append_assoc]

/-- A last step that calls nothing. -/
theorem map {x : Walk (σ × List PyStr) α} {f : α → Walk (σ × List PyStr) β} {xs : List PyStr}
    (hx : Reads x xs) (hf : ∀ a, Reads (f a) []) : Reads (x >>= f) xs := by
  simpa using hx.bind hf

theorem throw (e : WalkError) (texts : List PyStr) :
    Reads (throw e : Walk (σ × List PyStr) α) texts := by
  intro p r p' h
  exact absurd (Walk.throw_ok.mp h) id

variable (sanitizeOne : PyStr → Walk σ (OneResult ρ))

theorem one (x : PyStr) : Reads (logged sanitizeOne x) [x] := by
  intro p r p' h
  unfold logged at h
  cases hone : sanitizeOne x p.1 with
  | error e =>
    rw [hone] at h
    cases h
  | ok q =>
    rw [hone] at h
    cases h
    rfl

theorem text (x : PyStr) :
    Reads (sanitizeText (logged sanitizeOne) x : Walk _ (Json F × _)) [x] :=
  (one sanitizeOne x).map fun _ => pure _

theorem keep (keep : Prop) [Decidable keep] (v : Json F)
    {walk : Walk (σ × List PyStr) (Json F × List (OneResult ρ))} {xs : List PyStr}
    (h : Reads walk xs) : Reads (keepOr keep v walk) (if keep then [] else xs) := by
  unfold keepOr
  split
  · exact pure _
  · exact h

/-- A walk that starts with the check of the depth. -/
theorem deep {depth : ℕ} {walk : Walk (σ × List PyStr) α} {xs : List PyStr}
    (h : depth ≤ maxJsonDepth → Reads walk xs) :
    Reads (do checkDepth depth; walk) xs := by
  intro p r p' hrun
  obtain ⟨u, p₁, hdepth, hrun⟩ := Walk.bind_ok.mp hrun
  obtain ⟨hle, hp⟩ := checkDepth_ok.mp hdepth
  cases hp
  exact h hle p r p' hrun

end Reads

/-! ## JSON trees -/

section Json

variable (sanitizeOne : PyStr → Walk σ (OneResult ρ))

theorem reads_jsonItems {items : List (Json F)}
    (h : ∀ x ∈ items, ∀ depth,
      Reads (sanitizeJson (logged sanitizeOne) depth x) (collectJsonText depth x)) (depth : ℕ) :
    Reads (sanitizeJsonItems (logged sanitizeOne) depth items) (collectJsonItems depth items) := by
  induction items with
  | nil =>
    rw [sanitizeJsonItems, collectJsonItems]
    exact .pure _
  | cons x xs ih =>
    obtain ⟨hx, hxs⟩ := List.forall_mem_cons.mp h
    rw [sanitizeJsonItems, collectJsonItems]
    exact (hx depth).bind fun _ => (ih hxs).map fun _ => .pure _

theorem reads_jsonFields {fields : Fields F}
    (h : ∀ e ∈ fields, ∀ depth,
      Reads (sanitizeJson (logged sanitizeOne) depth e.2) (collectJsonText depth e.2))
    (depth : ℕ) :
    Reads (sanitizeJsonFields (logged sanitizeOne) depth fields)
      (collectJsonFields depth fields) := by
  induction fields with
  | nil =>
    rw [sanitizeJsonFields, collectJsonFields]
    exact .pure _
  | cons e fs ih =>
    obtain ⟨k, v⟩ := e
    obtain ⟨hv, hfs⟩ := List.forall_mem_cons.mp h
    rw [sanitizeJsonFields, collectJsonFields]
    exact (Reads.keep _ v (hv depth)).bind fun _ => (ih hfs).map fun _ => .pure _

/-- A JSON tree is read as it is collected. -/
theorem reads_json (j : Json F) (depth : ℕ) :
    Reads (sanitizeJson (logged sanitizeOne) depth j) (collectJsonText depth j) := by
  induction j using Json.induct generalizing depth with
  | str s =>
    rw [sanitizeJson, collectJsonText]
    exact .deep fun hle => by rw [if_neg (Nat.not_lt.mpr hle)]; exact .text sanitizeOne s
  | arr items ih =>
    rw [sanitizeJson, collectJsonText]
    exact .deep fun hle => by
      rw [if_neg (Nat.not_lt.mpr hle)]
      exact (reads_jsonItems sanitizeOne ih (depth + 1)).map fun _ => .pure _
  | obj fields ih =>
    rw [sanitizeJson, collectJsonText]
    exact .deep fun hle => by
      rw [if_neg (Nat.not_lt.mpr hle)]
      exact (reads_jsonFields sanitizeOne ih (depth + 1)).map fun _ => .pure _
  | _ =>
    rw [sanitizeJson, collectJsonText]
    · exact .deep fun _ => .pure _
    all_goals simp

end Json

/-! ## Content -/

/-- A block that falls to the fail-safe scan and carries a signature. -/
def SignedFallback (block : Fields F) : Prop :=
  blockKind block = .ok .fallback ∧ block.has "signature".py = true

/-- No block of a content value is one. -/
def Unsigned (c : Json F) : Prop := ∀ block, Contains c block → ¬SignedFallback block

/-- Between two states of the record: texts of those that are collected were handed over,
in their order; all of them, if nothing is signed. -/
def Scanned (unsigned : Prop) (collected : Except WalkError (List PyStr))
    (p p' : σ × List PyStr) : Prop :=
  ∃ texts read, collected = .ok texts ∧ p'.2 = p.2 ++ read ∧ read.Sublist texts ∧
    (unsigned → read = texts)

theorem Reads.scanned {walk : Walk (σ × List PyStr) α} {texts : List PyStr} (h : Reads walk texts)
    {p p' : σ × List PyStr} {r : α} (hrun : walk p = .ok (r, p')) (unsigned : Prop) :
    Scanned unsigned (.ok texts) p p' :=
  ⟨texts, texts, rfl, h p r p' hrun, List.Sublist.refl _, fun _ => rfl⟩

theorem Scanned.mono {unsigned unsigned' : Prop} {a : Except WalkError (List PyStr)}
    {p p' : σ × List PyStr} (h : Scanned unsigned a p p') (himp : unsigned' → unsigned) :
    Scanned unsigned' a p p' := by
  obtain ⟨xs, read, ha, hp, hsub, hall⟩ := h
  exact ⟨xs, read, ha, hp, hsub, fun h => hall (himp h)⟩

theorem Scanned.append {unsigned unsigned' both : Prop} {a b : Except WalkError (List PyStr)}
    {p p₁ p' : σ × List PyStr} (h : Scanned unsigned a p p₁) (h' : Scanned unsigned' b p₁ p')
    (hboth : both → unsigned ∧ unsigned') :
    Scanned both (a.bind fun xs => b.map fun ys => xs ++ ys) p p' := by
  obtain ⟨xs, read, rfl, hp, hsub, hall⟩ := h
  obtain ⟨ys, read', rfl, hp', hsub', hall'⟩ := h'
  refine ⟨xs ++ ys, read ++ read', rfl, by rw [hp', hp, List.append_assoc], hsub.append hsub', ?_⟩
  intro h
  rw [hall (hboth h).1, hall' (hboth h).2]

section Content

variable (sanitizeOne : PyStr → Walk σ (OneResult ρ))

theorem reads_field (block : Fields F) (field : PyStr) :
    Reads (sanitizeField (logged sanitizeOne) block field) (filledText block field).toList := by
  unfold sanitizeField
  cases filledText block field with
  | none => exact .pure _
  | some s => exact (Reads.text sanitizeOne s).map fun _ => .pure _

/-- The two texts of a document. -/
theorem scanned_fields {block new new' : Fields F} {rs rs' : List (OneResult ρ)}
    {p p₁ p' : σ × List PyStr}
    (htitle : sanitizeField (logged sanitizeOne) block "title".py p = .ok ((new, rs), p₁))
    (hcontext : sanitizeField (logged sanitizeOne) new "context".py p₁ = .ok ((new', rs'), p')) :
    Scanned True (.ok ((filledText block "title".py).toList ++
      (filledText block "context".py).toList)) p p' := by
  have hsame := sanitizeField_filledText _ htitle (k := "context".py) (by decide)
  have hread := (reads_field sanitizeOne new _).scanned hcontext True
  rw [hsame] at hread
  exact ((reads_field sanitizeOne block _).scanned htitle True).append hread
    fun _ => ⟨trivial, trivial⟩

/-- The fail-safe scan reads what is neither the type nor kept as it is. -/
theorem reads_fallback (block : Fields F) :
    Reads (sanitizeFallback (logged sanitizeOne) block) (block.flatMap fun e =>
      if e.1 = "type".py ∨ e.1 ∈ blockFallbackOpaqueKeys then [] else collectJsonText 1 e.2) := by
  induction block with
  | nil => exact .pure _
  | cons e fs ih =>
    rw [sanitizeFallback, List.flatMap_cons]
    exact (Reads.keep _ e.2 (reads_json sanitizeOne e.2 1)).bind fun _ => ih.map fun _ => .pure _

theorem scanned_fallback {block new : Fields F} {rs : List (OneResult ρ)} {p p' : σ × List PyStr}
    (h : sanitizeFallback (logged sanitizeOne) block p = .ok ((new, rs), p')) :
    Scanned (block.has "signature".py = false) (.ok (collectFallback block)) p p' := by
  refine ⟨_, _, rfl, reads_fallback sanitizeOne block p _ p' h, ?_, fun hsig => ?_⟩
  · refine List.Sublist.flatMap_right block fun e he => ?_
    by_cases hkeep : e.1 = "type".py ∨ e.1 ∈ blockFallbackOpaqueKeys
    · rw [if_pos hkeep]
      exact List.nil_sublist _
    · have hscan : ¬ (e.1 = "type".py ∨ e.1 ∈ jsonOpaqueKeys) := fun h =>
        hkeep (h.imp_right fun hmem => List.mem_append_left _ hmem)
      rw [if_neg hkeep, if_neg hscan]
  · refine List.flatMap_congr fun e he => ?_
    have hname : e.1 ≠ "signature".py := by
      intro hname
      have hhas : block.has "signature".py = true :=
        Fields.has_iff.mpr (hname ▸ List.mem_map_of_mem he)
      rw [hsig] at hhas
      cases hhas
    have hiff : e.1 ∈ blockFallbackOpaqueKeys ↔ e.1 ∈ jsonOpaqueKeys := by
      rw [blockFallbackOpaqueKeys, List.mem_append, List.mem_singleton, or_iff_left hname]
    simp only [hiff]

/-- A block without a signature that is only kept, inside or outside. -/
def UnsignedBlock (block : Fields F) : Prop :=
  ¬SignedFallback block ∧ ∀ c, SubContent block c → Unsigned c

theorem UnsignedBlock.of {c : Json F} {block : Fields F} (h : Unsigned c)
    (hblock : IsBlock c block) : UnsignedBlock block :=
  ⟨h block (.here hblock), fun _ hsub inner hinner => h inner (.inside hblock hsub hinner)⟩

/-- Every walk over a content value reads it as it is collected. -/
def ContentScanned (c : Json F) : Prop := ∀ v rs p p',
  sanitizeContent (logged sanitizeOne) c p = .ok ((v, rs), p') →
    Scanned (Unsigned c) (collectText c) p p'

def BlockScanned (block : Fields F) : Prop := ∀ new rs p p',
  sanitizeBlock (logged sanitizeOne) block p = .ok ((new, rs), p') →
    Scanned (UnsignedBlock block) (collectBlockText block) p p'

/-- A block, given the content inside it. -/
theorem scanned_block {block : Fields F}
    (hsub : ∀ c, SubContent block c → ContentScanned sanitizeOne c) :
    BlockScanned sanitizeOne block := by
  intro new rs p p' h
  cases sanitizeBlock_run _ h with
  | text hkind hone =>
    rw [collectBlockText_eq hkind]
    exact (Reads.one sanitizeOne _).scanned hone _
  | toolResult hkind hrun =>
    rw [collectBlockText_eq hkind]
    exact (hsub _ (.toolResult hkind) _ _ _ _ hrun).mono fun h => h.2 _ (.toolResult hkind)
  | toolUse hkind hrun =>
    rw [collectBlockText_eq hkind]
    exact (reads_json sanitizeOne _ 0).scanned hrun _
  | jsonResult hkind hrun =>
    rw [collectBlockText_eq hkind]
    exact (reads_json sanitizeOne _ 0).scanned hrun _
  | searchResult hkind htitle hcontent hrun =>
    have hinner := SubContent.searchResult hkind hcontent
    rw [collectBlockText_eq hkind, collectKind]
    split
    · next c' hc' =>
      cases hcontent.symm.trans hc'
      exact ((reads_field sanitizeOne block _).scanned htitle True).append
        (hsub _ hinner _ _ _ _ hrun) fun h => ⟨trivial, h.2 _ hinner⟩
    · next hnone => cases hcontent.symm.trans hnone
  | searchTitle hkind htitle hcontent =>
    rw [collectBlockText_eq hkind, collectKind]
    split
    · next c hc => cases hcontent.symm.trans hc
    · exact (reads_field sanitizeOne block _).scanned htitle _
  | documentText hkind htitle hcontext hsource hsrc hone =>
    rw [collectBlockText_eq hkind, collectKind]
    split
    · next src' hsrc' =>
      cases hsource.symm.trans hsrc'
      split
      · next data hdata =>
        cases hsrc.symm.trans hdata
        exact (scanned_fields sanitizeOne htitle hcontext).append
          ((Reads.one sanitizeOne _).scanned hone True) fun _ => ⟨trivial, trivial⟩
      · next hc => cases hsrc.symm.trans hc
      · next hother => cases hsrc.symm.trans hother
    · next hno => exact absurd hsource (hno _)
  | documentContent hkind htitle hcontext hsource hsrc hrun =>
    have hinner := SubContent.document hkind hsource hsrc
    rw [collectBlockText_eq hkind, collectKind]
    split
    · next src' hsrc' =>
      cases hsource.symm.trans hsrc'
      split
      · next hdata => cases hsrc.symm.trans hdata
      · next c hc =>
        cases hsrc.symm.trans hc
        exact (scanned_fields sanitizeOne htitle hcontext).append (hsub _ hinner _ _ _ _ hrun)
          fun h => ⟨trivial, h.2 _ hinner⟩
      · next hother => cases hsrc.symm.trans hother
    · next hno => exact absurd hsource (hno _)
  | documentOther hkind htitle hcontext hsource =>
    rw [collectBlockText_eq hkind, collectKind]
    refine Scanned.mono ?_ fun _ => trivial
    split
    · next src hsome =>
      have hother := hsource src hsome
      split
      · next hdata => cases hother.symm.trans hdata
      · next hc => cases hother.symm.trans hc
      · exact scanned_fields sanitizeOne htitle hcontext
    · exact scanned_fields sanitizeOne htitle hcontext
  | binary hkind =>
    rw [collectBlockText_eq hkind]
    exact (Reads.pure ()).scanned rfl _
  | fallback hkind hrun =>
    rw [collectBlockText_eq hkind]
    exact (scanned_fallback sanitizeOne hrun).mono fun h => by
      simpa [SignedFallback, hkind] using h.1

/-- The items of a content list. -/
theorem scanned_items {items new : List (Json F)} {rs : List (OneResult ρ)}
    {p p' : σ × List PyStr} (h : ItemsRun (logged sanitizeOne) items p new rs p')
    (hblock : ∀ block, .obj block ∈ items → BlockScanned sanitizeOne block) :
    Scanned (∀ block, .obj block ∈ items → UnsignedBlock block) (collectItems items) p p' := by
  induction h with
  | nil p =>
    rw [collectItems]
    exact (Reads.pure ()).scanned rfl _
  | @block block _ _ _ _ _ _ _ _ hrun _ ih =>
    rw [collectItems]
    exact (hblock block List.mem_cons_self _ _ _ _ hrun).append
      (ih fun inner hmem => hblock inner (List.mem_cons_of_mem _ hmem)) fun h =>
        ⟨h block List.mem_cons_self, fun inner hmem => h inner (List.mem_cons_of_mem _ hmem)⟩
  | kept hitem _ ih =>
    rw [collectItems]
    · exact (ih fun inner hmem => hblock inner (List.mem_cons_of_mem _ hmem)).mono
        fun h inner hmem => h inner (List.mem_cons_of_mem _ hmem)
    · exact hitem

/-- **Content is read as it is collected.** -/
theorem scanned_content (c : Json F) : ContentScanned sanitizeOne c := by
  refine content_induct (B := BlockScanned sanitizeOne) ?_ (fun _ => scanned_block sanitizeOne) c
  intro c hblock v rs p p' h
  cases sanitizeContent_run _ h with
  | text hone =>
    rw [collectText]
    exact (Reads.one sanitizeOne _).scanned hone _
  | @items items _ _ _ hitems =>
    have hitem : ∀ block, .obj block ∈ items → IsBlock (.arr items) block :=
      fun block hmem => .inr ⟨items, rfl, hmem⟩
    rw [collectText]
    exact (scanned_items sanitizeOne hitems fun block hmem => hblock block (hitem block hmem)).mono
      fun h block hmem => .of h (hitem block hmem)
  | block hrun =>
    rw [collectText]
    exact (hblock _ (.inl rfl) _ _ _ _ hrun).mono fun h => .of h (.inl rfl)
  | _ =>
    rw [collectText]
    · exact (Reads.pure ()).scanned rfl _
    all_goals simp

end Content

/-! ## Messages -/

section Messages

variable [Floats F] (sanitizeOne : PyStr → Walk σ (OneResult ρ))

theorem reads_arguments (arguments : PyStr) :
    Reads (sanitizeArguments (logged sanitizeOne) arguments : Walk _ (Json F × _))
      (collectArgumentsText F arguments) := by
  unfold sanitizeArguments collectArgumentsText
  cases (loads arguments : Except Json.Error (Json F)) with
  | error e => exact .text sanitizeOne arguments
  | ok parsed =>
    refine (reads_json sanitizeOne parsed 0).map fun ⟨v, rs⟩ => ?_
    simp only
    cases dumps plainStyle v with
    | error e => exact .throw _ _
    | ok text => exact .pure _

theorem reads_toolArguments (arguments : Json F) :
    Reads (sanitizeToolArguments (logged sanitizeOne) arguments)
      (collectToolArgumentsText arguments) := by
  cases arguments with
  | str s => exact reads_arguments sanitizeOne s
  | arr items => exact reads_json sanitizeOne (.arr items) 0
  | obj fields => exact reads_json sanitizeOne (.obj fields) 0
  | null => exact .pure _
  | _ => exact .throw _ _

theorem reads_function (fn : Fields F) (arguments : Json F) :
    Reads (sanitizeFunction (logged sanitizeOne) fn arguments)
      (collectToolArgumentsText arguments) :=
  (reads_toolArguments sanitizeOne arguments).map fun _ => .pure _

theorem reads_call (call : Json F) :
    Reads (sanitizeCall (logged sanitizeOne) call) (collectCallText call) := by
  cases call with
  | obj fields =>
    unfold sanitizeCall collectCallText collectFunctionText
    simp only
    cases calledFunction (Fields.get? fields "function".py) with
    | none => exact .pure _
    | some fn => exact (reads_function sanitizeOne fn.1 fn.2).map fun _ => .pure _
  | _ => exact .pure _

theorem reads_calls (calls : List (Json F)) :
    Reads (sanitizeCalls (logged sanitizeOne) calls) (calls.flatMap collectCallText) := by
  induction calls with
  | nil => exact .pure _
  | cons call calls ih =>
    exact (reads_call sanitizeOne call).bind fun _ => ih.map fun _ => .pure _

theorem reads_messageToolCallsField (message : Fields F) :
    Reads (sanitizeMessageToolCallsField (logged sanitizeOne) message)
      (collectMessageToolCallsFieldText message) := by
  refine .bind ?_ fun a => ?_
  · unfold sanitizeCallsField
    split
    · exact (reads_calls sanitizeOne _).map fun _ => .pure _
    · exact .pure _
  · unfold collectFunctionText
    cases calledFunction (message.get? "function_call".py) with
    | none => exact .pure _
    | some fc => exact (reads_function sanitizeOne fc.1 fc.2).map fun _ => .pure _

theorem scanned_toolCalls {message new : Fields F} {rs : List (OneResult ρ)}
    {p p' : σ × List PyStr}
    (h : sanitizeToolCalls (logged sanitizeOne) message p = .ok ((new, rs), p')) :
    Scanned True (collectToolCallText message) p p' := by
  obtain ⟨a, p₁, hfield, h⟩ := Walk.bind_ok.mp h
  have hread := (reads_messageToolCallsField sanitizeOne message).scanned hfield True
  unfold collectToolCallText
  cases hitem : toolItem message with
  | error e =>
    simp only [hitem] at h
    exact absurd (Walk.throw_ok.mp h) id
  | ok item =>
    simp only [hitem] at h
    cases item with
    | call arguments =>
      have hcall := ((reads_toolArguments sanitizeOne arguments).map fun _ => .pure _).scanned h True
      exact hread.append hcall fun _ => ⟨trivial, trivial⟩
    | output output =>
      have houtput := ((reads_json sanitizeOne output 0).map fun _ => .pure _).scanned h True
      exact hread.append houtput fun _ => ⟨trivial, trivial⟩
    | none =>
      cases Walk.pure_ok.mp h
      exact hread

/-- The content of a message plays no part in its tool calls. -/
theorem collectToolCallText_set (message : Fields F) (v : Json F) :
    collectToolCallText (message.set "content".py v) = collectToolCallText message := by
  have hget : ∀ {k : PyStr}, k ≠ "content".py →
      (message.set "content".py v).get? k = message.get? k := fun h => Fields.get?_set_of_ne h v
  unfold collectToolCallText collectMessageToolCallsFieldText toolItem
  rw [hget (k := "tool_calls".py) (by decide), hget (k := "function_call".py) (by decide),
    hget (k := "type".py) (by decide), hget (k := "arguments".py) (by decide),
    hget (k := "output".py) (by decide)]

/-- The non-empty texts of a list. -/
def nonEmpty (texts : List PyStr) : List PyStr := texts.filter fun x => !x.isEmpty

/-- Of what is collected, non-empty texts were handed over in their order; all of them, if
nothing is signed. -/
def SeenBefore (unsigned : Prop) (collected : Except WalkError (List PyStr))
    (read : List PyStr) : Prop :=
  ∃ texts, collected = .ok texts ∧ (nonEmpty read).Sublist (nonEmpty texts) ∧
    (unsigned → nonEmpty read = nonEmpty texts)

theorem Scanned.seenBefore {unsigned : Prop} {collected : Except WalkError (List PyStr)}
    {s s' : σ} {log : List PyStr} (h : Scanned unsigned collected (s, []) (s', log)) :
    SeenBefore unsigned collected log := by
  obtain ⟨texts, read, hcollected, hlog, hsub, hall⟩ := h
  have hread : log = read := hlog
  exact ⟨texts, hcollected, hread ▸ hsub.filter _, fun h => by rw [hread, hall h]⟩

/-- No block of the content of a message is signed and falls to the fail-safe scan. -/
def UnsignedMessage (message : Fields F) : Prop :=
  ∀ c, message.get? "content".py = some c → Unsigned c

omit [Floats F] in
theorem filledContent_some {message : Fields F} {c : Json F} (h : filledContent message = some c) :
    message.get? "content".py = some c := by
  unfold filledContent at h
  split at h
  all_goals first
    | cases h
    | exact h

omit [Floats F] in
/-- Content that is not walked has no text either. -/
theorem filledContent_none {message : Fields F} (h : filledContent message = none) :
    ∃ texts, collectText ((message.get? "content".py).getD .null) = .ok texts ∧
      nonEmpty texts = [] := by
  unfold filledContent at h
  split at h
  · rename_i hget
    exact ⟨[], by rw [hget, Option.getD_none, collectText]; all_goals simp, rfl⟩
  · rename_i hget
    exact ⟨[], by rw [hget, Option.getD_some, collectText]; all_goals simp, rfl⟩
  · rename_i hget
    exact ⟨[[]], by rw [hget, Option.getD_some, collectText], rfl⟩
  · rename_i hnone _ _
    exact absurd h hnone

theorem seenBefore_message {message new : Fields F} {rs : List (OneResult ρ)} {s s' : σ}
    {log : List PyStr}
    (h : sanitizeMessage (logged sanitizeOne) message (s, []) = .ok ((new, rs), (s', log))) :
    SeenBefore (UnsignedMessage message) (collectMessageText message) log := by
  unfold sanitizeMessage at h
  unfold collectMessageText
  cases hfilled : filledContent message with
  | some c =>
    simp only [hfilled, Walk.bind_ok, Walk.pure_ok] at h
    obtain ⟨⟨v, rs₁⟩, p₁, hcontent, ⟨new', rs₂⟩, p₂, hcalls, h⟩ := h
    cases h
    have hget := filledContent_some hfilled
    have hcalls := scanned_toolCalls sanitizeOne hcalls
    rw [collectToolCallText_set] at hcalls
    have himp : UnsignedMessage message → Unsigned c ∧ True := fun h => ⟨h c hget, trivial⟩
    have hboth := (scanned_content sanitizeOne c _ _ _ _ hcontent).append hcalls himp
    rw [hget]
    exact hboth.seenBefore
  | none =>
    simp only [hfilled] at h
    obtain ⟨texts, hcontent, hempty⟩ := filledContent_none hfilled
    obtain ⟨calls, hcalls, hsub, hall⟩ := (scanned_toolCalls sanitizeOne h).seenBefore
    have happend : nonEmpty (texts ++ calls) = nonEmpty calls := by
      rw [nonEmpty, List.filter_append]
      exact congrArg (· ++ nonEmpty calls) hempty
    refine ⟨texts ++ calls, by rw [hcontent, hcalls]; rfl, ?_, fun _ => ?_⟩
    · rw [happend]
      exact hsub
    · rw [happend]
      exact hall trivial

end Messages

/-! ## Responses items -/

section Items

variable [Floats F] (sanitizeOne : PyStr → Walk σ (OneResult ρ))

omit [Floats F] in
theorem reads_leaves (value : Json F) :
    Reads (sanitizeLeaves (logged sanitizeOne) value) (collectLeaves value) := by
  cases value with
  | str s => exact (Reads.text sanitizeOne s).map fun _ => .pure _
  | arr items => exact (reads_json sanitizeOne (.arr items) 0).map fun _ => .pure _
  | obj fields => exact (reads_json sanitizeOne (.obj fields) 0).map fun _ => .pure _
  | _ => exact .pure _

theorem scanned_itemField {field : PyStr} {value : Json F}
    {r : Option (Json F × List (OneResult ρ))} {p p' : σ × List PyStr}
    (h : sanitizeItemField (logged sanitizeOne) field value p = .ok (r, p')) :
    Scanned (field ∈ responsesBlockListFields → Unsigned value) (collectItemField field value)
      p p' := by
  unfold sanitizeItemField at h
  unfold collectItemField
  split_ifs at h ⊢ with hargs hlist houtput htext
  · exact ((reads_toolArguments sanitizeOne value).map fun _ => .pure _).scanned h _
  · obtain ⟨a, p₁, ha, h⟩ := Walk.map_ok.mp h
    cases h
    exact (scanned_content sanitizeOne value _ _ _ _ ha).mono fun h => h hlist
  · exact ((reads_json sanitizeOne value 0).map fun _ => .pure _).scanned h _
  · -- A scalar in a text field ends the walk.
    refine Reads.scanned ?_ h _
    split
    · exact .throw _ _
    · exact .throw _ _
    · exact .throw _ _
    · exact reads_leaves sanitizeOne value
  · exact (reads_leaves sanitizeOne value).scanned h _

/-- No field of an item that holds blocks holds a signed one that falls to the scan. -/
def UnsignedItem (item : Fields F) : Prop :=
  ∀ e ∈ item, e.1 ∈ responsesBlockListFields → Unsigned e.2

/-- The loop over the fields of an item, by induction on the fields that are left. -/
theorem scanned_itemFields (itemType : Option (Json F)) {fs new out : Fields F}
    {rs : List (OneResult ρ)} {p p' : σ × List PyStr}
    (h : sanitizeItemFields (logged sanitizeOne) itemType new fs p = .ok ((out, rs), p')) :
    Scanned (UnsignedItem fs) (collectItemFields itemType fs) p p' := by
  induction fs generalizing new rs p with
  | nil => exact (Reads.pure (new, [])).scanned h _
  | cons e fs ih =>
    obtain ⟨field, value⟩ := e
    have hhead : UnsignedItem ((field, value) :: fs) →
        (field ∈ responsesBlockListFields → Unsigned value) ∧ UnsignedItem fs :=
      List.forall_mem_cons.mp
    rw [sanitizeItemFields] at h
    rw [collectItemFields]
    split_ifs at h ⊢ with hskip
    · exact (ih h).mono fun h => (hhead h).2
    · obtain ⟨r, p₁, hfield, h⟩ := Walk.bind_ok.mp h
      have hfirst := scanned_itemField sanitizeOne hfield
      cases r with
      | none => exact hfirst.append (ih h) hhead
      | some vr =>
        obtain ⟨⟨new', rs'⟩, p₂, hrest, h⟩ := Walk.bind_ok.mp h
        cases Walk.pure_ok.mp h
        exact hfirst.append (ih hrest) hhead

theorem seenBefore_item {item new : Fields F} {rs : List (OneResult ρ)} {s s' : σ}
    {log : List PyStr}
    (h : sanitizeResponsesItem (logged sanitizeOne) item (s, []) = .ok ((new, rs), (s', log))) :
    SeenBefore (UnsignedItem item) (collectResponsesItemText item) log := by
  unfold sanitizeResponsesItem at h
  simp only [Walk.bind_ok, Walk.pure_ok] at h
  obtain ⟨⟨new₁, rs₁⟩, p₁, hcalls, ⟨new₂, rs₂⟩, p₂, hfields, h⟩ := h
  cases h
  have hfirst := (reads_messageToolCallsField sanitizeOne item).scanned hcalls True
  have hboth := hfirst.append (scanned_itemFields sanitizeOne _ hfields) fun h => ⟨trivial, h⟩
  exact hboth.seenBefore

end Items

/-! ## Messages and items -/

/-- What `sanitize_one` is called with while a message or an item is sanitized was collected
before, in the same order; and nothing else was, unless a block that falls to the fail-safe
scan carries a `signature`, which the scan reads and the rewriting leaves as it is. -/
theorem prescan_sees_sanitized [Floats F] (sanitizeOne : PyStr → Walk σ (OneResult ρ))
    (fields new : Fields F) (rs : List (OneResult ρ)) (s s' : σ) (log : List PyStr) :
    (sanitizeMessage (logged sanitizeOne) fields (s, []) = .ok ((new, rs), (s', log)) →
      SeenBefore (UnsignedMessage fields) (collectMessageText fields) log) ∧
    (sanitizeResponsesItem (logged sanitizeOne) fields (s, []) = .ok ((new, rs), (s', log)) →
      SeenBefore (UnsignedItem fields) (collectResponsesItemText fields) log) :=
  ⟨seenBefore_message sanitizeOne, seenBefore_item sanitizeOne⟩

/-- A message with a text inside a tool result and with a tool call. -/
def nestedMessage : Fields Literal :=
  [("content".py, .arr [.obj nestedResult]),
    ("tool_calls".py, .arr [.obj [("function".py,
      .obj [("arguments".py, .obj [("q".py, .str "ho".py)])])]])]

theorem prescan_sees_nested :
    SeenBefore (UnsignedMessage nestedMessage) (collectMessageText nestedMessage)
        ["hi".py, "ho".py] ∧
      SeenBefore (UnsignedItem nestedMessage) (collectResponsesItemText nestedMessage)
        ["ho".py, "hi".py] := by
  let one : PyStr → Walk Unit (OneResult Unit) := fun x => pure ⟨x, ()⟩
  have hcontent : ∀ log, sanitizeContent (logged one) (.arr [.obj nestedResult]) ((), log) =
      .ok ((.arr [.obj nestedResult], [⟨"hi".py, ()⟩]), ((), log ++ ["hi".py])) := by
    have hresult : blockKind nestedResult = .ok (.toolResult _) := rfl
    have htext : blockKind [("type".py, (.str "text".py : Json Literal)),
      ("text".py, .str "hi".py)] = .ok (.text "text".py "hi".py) := rfl
    intro log
    simp only [sanitizeContent, sanitizeItems, sanitizeBlock_eq _ hresult,
      sanitizeBlock_eq _ htext, sanitizeKind]
    rfl
  have hseen := prescan_sees_sanitized one nestedMessage nestedMessage
  constructor
  · refine (hseen [⟨"hi".py, ()⟩, ⟨"ho".py, ()⟩] () () _).1 ?_
    rw [sanitizeMessage, show filledContent nestedMessage = some (.arr [.obj nestedResult]) from rfl]
    refine Walk.bind_ok.mpr ⟨_, _, hcontent [], ?_⟩
    rfl
  · refine (hseen [⟨"ho".py, ()⟩, ⟨"hi".py, ()⟩] () () _).2 ?_
    refine Walk.bind_ok.mpr ⟨(nestedMessage, [⟨"ho".py, ()⟩]), ((), ["ho".py]), rfl, ?_⟩
    refine Walk.bind_ok.mpr ⟨(nestedMessage, [⟨"hi".py, ()⟩]), ((), ["ho".py, "hi".py]), ?_, rfl⟩
    refine Walk.bind_ok.mpr ⟨some (.arr [.obj nestedResult], [⟨"hi".py, ()⟩]), _, ?_, rfl⟩
    exact Walk.map_ok.mpr ⟨_, _, hcontent _, rfl⟩

/-- The types that the walkers know. -/
def recognisedTypes : List PyStr :=
  textBlockField.map Prod.fst ++ "tool_result".py :: toolUseBlockTypes ++ jsonResultBlockTypes ++
    "search_result".py :: "document".py :: opaqueBlockTypes

/-- A text block without its text. -/
def signedText : Fields Literal :=
  [("type".py, .str "text".py), ("signature".py, .str "x".py)]

/-- A message of it. -/
def signedMessage : Fields Literal := [("content".py, .arr [.obj signedText])]

/-- A type that the walkers know is not enough: a text block without a text falls to the
scan too. -/
theorem signature_collected_not_sanitized :
    sanitizeMessage (logged fun x => pure ⟨x, ()⟩) signedMessage ((), []) =
        .ok ((signedMessage, []), ((), [])) ∧
      collectMessageText signedMessage = .ok ["x".py] ∧
      ∀ block, Contains (.arr [.obj signedText]) block →
        ∃ type ∈ recognisedTypes, block.get? "type".py = some (.str type) := by
  have hkind : blockKind signedText = .ok .fallback := rfl
  have hget : signedText.get? "type".py = some (.str "text".py) := rfl
  refine ⟨?_, ?_, fun block hblock => ?_⟩
  · rw [sanitizeMessage, show filledContent signedMessage = some (.arr [.obj signedText]) from rfl]
    simp only [sanitizeContent, sanitizeItems, sanitizeBlock_eq _ hkind]
    rfl
  · rw [collectMessageText, show signedMessage.get? "content".py = some (.arr [.obj signedText]) from rfl,
      Option.getD_some, collectText, collectItems, collectItems, collectBlockText_eq hkind]
    rfl
  · cases hblock with
    | here h =>
      rcases h with h | ⟨items, h, hmem⟩
      · cases h
      · cases h
        cases List.mem_singleton.mp hmem
        exact ⟨_, by decide, hget⟩
    | inside h hsub hinner =>
      rcases h with h | ⟨items, h, hmem⟩
      · cases h
      · cases h
        cases List.mem_singleton.mp hmem
        cases hsub with
        | toolResult h => cases hkind.symm.trans h
        | searchResult h => cases hkind.symm.trans h
        | document h => cases hkind.symm.trans h

end CorpLlmGateway.Sanitizer
