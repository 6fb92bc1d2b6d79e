import CorpLlmGateway.Json.Codec

/-!
# Batches of the NER client

`CorpNerClient._batches` packs texts into requests under three limits of the service: the
number of texts, their characters, and the bytes of the encoded body. A text that does not
fit alone is refused, because the service would cut it.

* `Filling` — the loop's variables, with what each of them counts;
* `place_ok`, `place_error` — one round of the loop;
* `batches_within` — what is yielded keeps the limits, and what is refused cannot keep them.
-/

namespace CorpLlmGateway.CorpNer

open Json PyStr

/-! ## The body of a request -/

/-- The arguments `ensure_ascii=False, separators=(",", ":")`. -/
def wire : Style := ⟨false, true⟩

/-- `len(json.dumps(value, …).encode("utf-8"))`; nothing stands for an exception. -/
def jsonBytes (value : Json Literal) : Option ℕ := do
  let text ← (dumps wire value).toOption
  let bytes ← text.encode
  return bytes.length

/-- `{"texts": batch}`. -/
def payload (batch : List PyStr) : Json Literal :=
  .obj [("texts".py, .arr (batch.map .str))]

/-- `content` of `_analyze_batch`: the body that is sent. -/
def content (batch : List PyStr) : Option (List UInt8) := do
  let text ← (dumps wire (payload batch)).toOption
  text.encode

/-- `_ENVELOPE_BYTES`: the length of the body without texts. -/
def envelopeBytes : ℕ := (Unicode.utf8 "\x7b\"texts\":[]\x7d".toList).length

/-! ## The loop -/

structure Limits where
  maxTexts : ℤ
  maxInputChars : ℤ
  maxBodyBytes : ℤ

inductive BatchError where
  | unicodeEncodeError
  | tooManyChars (chars : ℕ) (limit : ℤ)
  | tooManyBytes (size : ℕ) (limit : ℤ)
deriving DecidableEq

/-- The message of a `CorpNerUnavailableError`. -/
def BatchError.message : BatchError → Option String
  | .unicodeEncodeError => none
  | .tooManyChars chars limit =>
      some s!"text of {chars} chars exceeds max_input_chars={limit}"
  | .tooManyBytes size limit =>
      some s!"text of {size} encoded bytes exceeds max_body_bytes={limit}"

/-- The batch that is being filled, with the counters of its characters and bytes. -/
structure Filling where
  batch : List PyStr
  chars : ℕ
  body : ℕ
deriving DecidableEq

def Filling.empty : Filling := ⟨[], 0, envelopeBytes⟩

/-- There is a batch, and it has no room for one more text. -/
def Filling.full (limits : Limits) (filling : Filling) (text : PyStr) (size : ℕ) : Bool :=
  !filling.batch.isEmpty &&
    (decide (limits.maxTexts < filling.batch.length + 1) ||
      decide (limits.maxInputChars < (filling.chars + text.length : ℕ)) ||
      decide (limits.maxBodyBytes < (filling.body + 1 + size : ℕ)))

def Filling.append (filling : Filling) (text : PyStr) (size : ℕ) : Filling where
  batch := filling.batch ++ [text]
  chars := filling.chars + text.length
  body := filling.body + (size + if filling.batch.isEmpty then 0 else 1)

/-- One round: the batch it yields, if it yields one, and the batch it goes on with. -/
def place (limits : Limits) (filling : Filling) (text : PyStr) :
    Except BatchError (Option (List PyStr) × Filling) :=
  match jsonBytes (.str text) with
  | none => .error .unicodeEncodeError
  | some size =>
      if limits.maxInputChars < text.length then
        .error (.tooManyChars text.length limits.maxInputChars)
      else if limits.maxBodyBytes < (envelopeBytes + size : ℕ) then
        .error (.tooManyBytes size limits.maxBodyBytes)
      else if filling.full limits text size then
        .ok (some filling.batch, Filling.empty.append text size)
      else .ok (none, filling.append text size)

/-- The batches from some state of the loop on, and the exception that ends it. -/
def batchesFrom (limits : Limits) : Filling → List PyStr → List (List PyStr) × Option BatchError
  | filling, [] => (if filling.batch.isEmpty then [] else [filling.batch], none)
  | filling, text :: texts =>
      match place limits filling text with
      | .error e => ([], some e)
      | .ok (yielded, filling) =>
          let rest := batchesFrom limits filling texts
          (yielded.toList ++ rest.1, rest.2)

/-- `_batches(texts)`: what the generator yields, and what it raises in the end. -/
def batches (limits : Limits) (texts : List PyStr) : List (List PyStr) × Option BatchError :=
  batchesFrom limits .empty texts

/-! ## The counted bytes are the bytes of the body -/

/-- The length of an encoded text. -/
def byteLength (s : PyStr) : Option ℕ := s.encode.map List.length

theorem byteLength_append (s t : PyStr) :
    byteLength (s ++ t) = (byteLength s).bind fun a => (byteLength t).map (a + ·) := by
  unfold byteLength
  rw [encode_append]
  cases s.encode with
  | none => rfl
  | some a =>
    cases t.encode with
    | none => rfl
    | some b => simp

/-- The texts of a batch between the brackets of the list. -/
def listTexts : List PyStr → PyStr
  | [] => []
  | t :: ts => render wire (.str t : Json Literal) ++
      ts.flatMap fun t => ",".py ++ render wire (.str t : Json Literal)

theorem listTexts_append (batch : List PyStr) (text : PyStr) :
    listTexts (batch ++ [text]) =
      listTexts batch ++ (if batch.isEmpty then [] else ",".py) ++
        render wire (.str text : Json Literal) := by
  cases batch with
  | nil => simp [listTexts]
  | cons t ts => simp [listTexts]

theorem flatMap_moreItems (ts : List PyStr) :
    (moreItems wire (ts.map (.str : PyStr → Json Literal))).flatMap (Tok.text wire.ascii) =
      (ts.flatMap fun t => ",".py ++ render wire (.str t : Json Literal)) ++ "]".py := by
  induction ts with
  | nil => rfl
  | cons t ts ih =>
    simp only [List.map_cons, moreItems, Style.gap, wire, if_true, List.nil_append,
      List.flatMap_cons, List.flatMap_append, List.append_assoc]
    simp only [wire] at ih
    rw [ih]
    rfl

theorem render_payload (batch : List PyStr) :
    render wire (payload batch) =
      "\x7b\"texts\":[".py ++ (listTexts batch ++ "]\x7d".py) := by
  cases batch with
  | nil => rfl
  | cons t ts =>
    have hitems := flatMap_moreItems ts
    simp only [render, payload, List.map_cons, tokens, moreFields, Style.gap, wire, if_true,
      List.nil_append, List.flatMap_cons, List.flatMap_append, List.append_assoc,
      List.flatMap_nil, List.append_nil] at hitems ⊢
    rw [hitems]
    simp only [listTexts, render, tokens, wire, List.flatMap_cons, List.flatMap_nil,
      List.append_nil, List.append_assoc]
    rfl

theorem payload_ok (batch : List PyStr) : (payload batch).Ok := by
  apply Ok.obj
  · simp
  · intro e he
    obtain rfl : e = ("texts".py, .arr (batch.map .str)) := by simpa using he
    apply Ok.arr
    intro x hx
    obtain ⟨t, -, rfl⟩ := List.mem_map.mp hx
    exact .str t

theorem jsonBytes_str (text : PyStr) :
    jsonBytes (.str text) = byteLength (render wire (.str text : Json Literal)) := by
  simp only [jsonBytes, byteLength, dumps_eq wire (Ok.str text), Except.toOption,
    Option.bind_eq_bind, Option.bind_some]
  cases (render wire (.str text : Json Literal)).encode with
  | none => rfl
  | some bytes => rfl

/-- The length of the body that is sent for a batch. -/
def bodyBytes (batch : List PyStr) : Option ℕ := (content batch).map List.length

theorem bodyBytes_eq (batch : List PyStr) :
    bodyBytes batch = (byteLength (listTexts batch)).map (envelopeBytes + ·) := by
  have hhead : byteLength "\x7b\"texts\":[".py = some 10 := by decide
  have htail : byteLength "]\x7d".py = some 2 := by decide
  have hrender : bodyBytes batch = byteLength (render wire (payload batch)) := by
    simp [bodyBytes, content, byteLength, dumps_eq wire (payload_ok batch), Except.toOption]
  rw [hrender, render_payload, byteLength_append, byteLength_append, hhead, htail]
  cases byteLength (listTexts batch) with
  | none => rfl
  | some k =>
    have henvelope : envelopeBytes = 12 := by decide
    simp only [Option.bind_some, Option.map_some, henvelope, Option.some.injEq]
    omega

theorem bodyBytes_nil : bodyBytes [] = some envelopeBytes := by
  rw [bodyBytes_eq]
  rfl

/-- One more text adds its own bytes and, behind another one, a comma. -/
theorem bodyBytes_append {batch : List PyStr} {body : ℕ} (h : bodyBytes batch = some body)
    (text : PyStr) :
    bodyBytes (batch ++ [text]) = (jsonBytes (.str text)).map fun size =>
      body + (size + if batch.isEmpty then 0 else 1) := by
  have hcomma : byteLength (if batch.isEmpty then [] else ",".py) =
      some (if batch.isEmpty then 0 else 1) := by
    cases batch.isEmpty with
    | true => rfl
    | false => decide
  rw [bodyBytes_eq] at h
  obtain ⟨k, hk, rfl⟩ := Option.map_eq_some_iff.mp h
  rw [bodyBytes_eq, listTexts_append, byteLength_append, byteLength_append, hk, hcomma,
    jsonBytes_str]
  cases byteLength (render wire (.str text : Json Literal)) with
  | none => rfl
  | some size =>
    simp only [Option.bind_some, Option.map_some, Option.some.injEq]
    omega

/-! ## One round of the loop -/

/-- A batch that the service takes as a whole. -/
structure Within (limits : Limits) (batch : List PyStr) : Prop where
  texts : (batch.length : ℤ) ≤ limits.maxTexts
  chars : ((batch.map List.length).sum : ℤ) ≤ limits.maxInputChars
  body : ∃ bytes, content batch = some bytes ∧ (bytes.length : ℤ) ≤ limits.maxBodyBytes

/-- The counters count what they are named after. -/
structure Counted (filling : Filling) : Prop where
  chars : filling.chars = (filling.batch.map List.length).sum
  body : bodyBytes filling.batch = some filling.body

theorem counted_empty : Counted .empty := ⟨rfl, bodyBytes_nil⟩

variable {limits : Limits} {filling filling' : Filling} {text : PyStr} {size : ℕ}

theorem Counted.append (h : Counted filling) (hsize : jsonBytes (.str text) = some size) :
    Counted (filling.append text size) := by
  constructor
  · simp [Filling.append, h.chars]
  · rw [Filling.append, bodyBytes_append h.body, hsize]
    rfl

theorem Counted.within (h : Counted filling) (htexts : (filling.batch.length : ℤ) ≤ limits.maxTexts)
    (hchars : (filling.chars : ℤ) ≤ limits.maxInputChars)
    (hbody : (filling.body : ℤ) ≤ limits.maxBodyBytes) : Within limits filling.batch := by
  refine ⟨htexts, ?_, ?_⟩
  · rw [← h.chars]
    exact hchars
  · obtain ⟨bytes, hbytes, hlength⟩ := Option.map_eq_some_iff.mp h.body
    refine ⟨bytes, hbytes, ?_⟩
    rw [hlength]
    exact hbody

/-- The two checks in front of the loop's bookkeeping say whether the text fits alone. -/
theorem within_singleton_iff (hmax : 1 ≤ limits.maxTexts) :
    Within limits [text] ↔ ∃ size, jsonBytes (.str text) = some size ∧
      ¬ limits.maxInputChars < text.length ∧
      ¬ limits.maxBodyBytes < (envelopeBytes + size : ℕ) := by
  have hbody : bodyBytes [text] = (jsonBytes (.str text)).map (envelopeBytes + ·) :=
    bodyBytes_append bodyBytes_nil text
  constructor
  · intro h
    obtain ⟨bytes, hbytes, hlength⟩ := h.body
    have hsome : bodyBytes [text] = some bytes.length := by
      rw [bodyBytes, hbytes]
      rfl
    rw [hbody] at hsome
    obtain ⟨size, hsize, hsum⟩ := Option.map_eq_some_iff.mp hsome
    have hchars := h.chars
    simp only [List.map_cons, List.map_nil, List.sum_cons, List.sum_nil] at hchars
    refine ⟨size, hsize, ?_, ?_⟩
    · omega
    · rw [hsum]
      omega
  · rintro ⟨size, hsize, hchars, hbytes⟩
    have hcounted := counted_empty.append hsize
    apply hcounted.within
    · simpa [Filling.append, Filling.empty] using hmax
    · simp only [Filling.append, Filling.empty]
      omega
    · simp only [Filling.append, Filling.empty, List.isEmpty_nil, if_true]
      omega

theorem place_error_iff (hmax : 1 ≤ limits.maxTexts) :
    (∃ e, place limits filling text = .error e) ↔ ¬ Within limits [text] := by
  rw [within_singleton_iff hmax]
  unfold place
  cases jsonBytes (.str text) with
  | none => simp
  | some size =>
    simp only [Option.some.injEq, exists_eq_left']
    by_cases hchars : limits.maxInputChars < text.length
    · simp only [if_pos hchars]
      simp [hchars]
    · by_cases hbytes : limits.maxBodyBytes < (envelopeBytes + size : ℕ)
      · simp only [if_neg hchars, if_pos hbytes]
        exact iff_of_true ⟨_, rfl⟩ fun h => h.2 hbytes
      · simp only [hchars, hbytes, if_false, not_false_eq_true, and_self, not_true_eq_false,
          iff_false]
        cases filling.full limits text size with
        | true => simp
        | false => simp

/-- A round keeps the counters right, drops no text and yields only full batches. -/
structure Round (limits : Limits) (filling : Filling) (text : PyStr)
    (yielded : Option (List PyStr)) (filling' : Filling) : Prop where
  counted : Counted filling'
  nonempty : filling'.batch ≠ []
  within : Within limits filling'.batch
  kept : yielded.toList.flatten ++ filling'.batch = filling.batch ++ [text]
  yielded : ∀ batch ∈ yielded, batch = filling.batch ∧ batch ≠ []

theorem place_ok (hmax : 1 ≤ limits.maxTexts) (hcounted : Counted filling)
    {yielded : Option (List PyStr)} (h : place limits filling text = .ok (yielded, filling')) :
    Round limits filling text yielded filling' := by
  unfold place at h
  cases hsize : jsonBytes (.str text) with
  | none =>
    rw [hsize] at h
    cases h
  | some size =>
    rw [hsize] at h
    simp only at h
    split at h
    · cases h
    next hchars =>
    split at h
    · cases h
    next hbytes =>
    have halone : Within limits [text] := (within_singleton_iff hmax).mpr ⟨size, hsize, hchars, hbytes⟩
    split at h
    · next hfull =>
      -- the batch is yielded as it is, the text starts the next one
      simp only [Except.ok.injEq, Prod.mk.injEq] at h
      obtain ⟨rfl, rfl⟩ := h
      have hne : filling.batch ≠ [] := by
        simp only [Filling.full, Bool.and_eq_true] at hfull
        simpa using hfull.1
      refine ⟨counted_empty.append hsize, by simp [Filling.append], halone, ?_, ?_⟩
      · simp [Filling.append, Filling.empty]
      · rintro batch ⟨⟩
        exact ⟨rfl, hne⟩
    · next hroom =>
      simp only [Except.ok.injEq, Prod.mk.injEq] at h
      obtain ⟨rfl, rfl⟩ := h
      have hcounted' := hcounted.append hsize
      refine ⟨hcounted', by simp [Filling.append], ?_, by simp [Filling.append], by simp⟩
      by_cases hempty : filling.batch = []
      · have hbatch : (filling.append text size).batch = [text] := by simp [Filling.append, hempty]
        rw [hbatch]
        exact halone
      · simp only [Filling.full, Bool.and_eq_true, Bool.not_eq_true', List.isEmpty_eq_false_iff,
          Bool.or_eq_true, decide_eq_true_eq, hempty, not_false_eq_true, ne_eq, true_and,
          not_or] at hroom
        apply hcounted'.within
        · simp only [Filling.append, List.length_append, List.length_cons, List.length_nil]
          omega
        · simp only [Filling.append]
          omega
        · simp only [Filling.append, List.isEmpty_iff, hempty, if_false]
          omega

/-! ## The whole loop -/

/-- The batches go through the texts in order, each of them within the limits. -/
structure Packed (limits : Limits) (texts : List PyStr)
    (result : List (List PyStr) × Option BatchError) : Prop where
  nonempty : ∀ batch ∈ result.1, batch ≠ []
  within : ∀ batch ∈ result.1, Within limits batch
  inOrder : result.1.flatten <+: texts
  complete : result.2 = none → result.1.flatten = texts

theorem packed_batchesFrom (hmax : 1 ≤ limits.maxTexts) (hcounted : Counted filling)
    (hopen : filling.batch ≠ [] → Within limits filling.batch) (texts : List PyStr) :
    Packed limits (filling.batch ++ texts) (batchesFrom limits filling texts) := by
  induction texts generalizing filling with
  | nil =>
    rw [batchesFrom, List.append_nil]
    by_cases hempty : filling.batch = []
    · simp only [hempty, List.isEmpty_nil, if_true]
      exact ⟨by simp, by simp, by simp, by simp⟩
    · simp only [List.isEmpty_iff, hempty, if_false]
      refine ⟨?_, ?_, by simp, by simp⟩
      · simpa using hempty
      · simpa using hopen hempty
  | cons text texts ih =>
    rw [batchesFrom]
    cases hplace : place limits filling text with
    | error e => exact ⟨by simp, by simp, by simp, by simp⟩
    | ok round =>
      obtain ⟨yielded, filling'⟩ := round
      have hround := place_ok hmax hcounted hplace
      have hrest := ih hround.counted fun _ => hround.within
      have htexts : filling.batch ++ text :: texts =
          yielded.toList.flatten ++ (filling'.batch ++ texts) := by
        rw [← List.append_assoc, hround.kept, List.append_assoc]
        rfl
      simp only
      rw [htexts]
      constructor
      · intro batch hbatch
        rcases List.mem_append.mp hbatch with hnow | hlater
        · exact (hround.yielded batch (Option.mem_toList.mp hnow)).2
        · exact hrest.nonempty batch hlater
      · intro batch hbatch
        rcases List.mem_append.mp hbatch with hnow | hlater
        · obtain ⟨rfl, hne⟩ := hround.yielded batch (Option.mem_toList.mp hnow)
          exact hopen hne
        · exact hrest.within batch hlater
      · rw [List.flatten_append]
        exact (List.prefix_append_right_inj _).mpr hrest.inOrder
      · intro hnone
        rw [List.flatten_append, hrest.complete hnone]

theorem batchesFrom_raises (hmax : 1 ≤ limits.maxTexts) (filling : Filling) (texts : List PyStr) :
    (batchesFrom limits filling texts).2 ≠ none ↔ ∃ text ∈ texts, ¬ Within limits [text] := by
  induction texts generalizing filling with
  | nil => simp [batchesFrom]
  | cons text texts ih =>
    have herror : (∃ e, place limits filling text = .error e) ↔ ¬ Within limits [text] :=
      place_error_iff hmax
    rw [batchesFrom, List.exists_mem_cons_iff, ← herror]
    cases place limits filling text with
    | error e => simp
    | ok round => simp [ih]

/-- **The batches of a list of texts** are non-empty, go through the texts in order and keep
every limit of the service; the client raises iff some text cannot be sent alone. -/
theorem batches_within (limits : Limits) (hmax : 1 ≤ limits.maxTexts) (texts : List PyStr) :
    Packed limits texts (batches limits texts) ∧
      ((batches limits texts).2 ≠ none ↔ ∃ text ∈ texts, ¬ Within limits [text]) := by
  constructor
  · exact packed_batchesFrom hmax counted_empty (fun hne => absurd rfl hne) texts
  · exact batchesFrom_raises hmax .empty texts

/-- Two texts a batch: the third one starts a second batch. -/
example : batches ⟨2, 10, 40⟩ ["ab".py, "c".py, "d".py] =
    ([["ab".py, "c".py], ["d".py]], none) := by
  decide +kernel

theorem batches_within_two :
    let limits : Limits := ⟨2, 10, 40⟩
    let texts := ["ab".py, "c".py, "d".py]
    1 ≤ limits.maxTexts ∧ Packed limits texts (batches limits texts) ∧
      ((batches limits texts).2 ≠ none ↔ ∃ text ∈ texts, ¬ Within limits [text]) :=
  ⟨by decide, batches_within ⟨2, 10, 40⟩ (by decide) ["ab".py, "c".py, "d".py]⟩

end CorpLlmGateway.CorpNer
