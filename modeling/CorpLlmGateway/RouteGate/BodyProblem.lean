import CorpLlmGateway.Json.Reading
import CorpLlmGateway.RouteGate.Classify
import CorpLlmGateway.Text.Utf8

/-!
# The body of a rewritten request

`_body_problem` refuses a body that is not UTF-8 JSON, and one that names litellm policies.
Most bodies are not parsed: without the bytes of `policies` and of a `\u` escape, no key of
the body can be read as `policies`.

* `isUtf8_of_loads` — an accepted text is read as UTF-8;
* `policies_in_body` — the bytes that a key `policies` needs;
* `bodyProblem_eq` — the verdict on a JSON body.
-/

namespace CorpLlmGateway.RouteGate.Routes

open Json
open Unicode (utf8 utf8_cons utf8_append zero_notMem_utf8)

/-! ## The content type -/

/-- `_content_type(scope)`: the one value of the header, or why there is none. -/
inductive ContentType where
  | missing
  | ambiguous
  | value (bytes : Bytes)
deriving DecidableEq

def contentTypeHeader : Bytes := utf8 "content-type".toList

def contentType (headers : List (Bytes × Bytes)) : ContentType :=
  match headers.filter fun h => asciiLower h.1 == contentTypeHeader with
  | [] => .missing
  | [h] => .value h.2
  | _ => .ambiguous

def semicolon : UInt8 := 0x3b

/-- `_is_json(content_type)`. -/
def isJson : ContentType → Bool
  | .value bytes =>
      asciiLower (asciiStrip (bytes.takeWhile (· != semicolon))) ==
        utf8 "application/json".toList
  | _ => false

/-- `value[1:-1]` of a quoted value. -/
def unquote (value : Bytes) : Bytes :=
  if 2 ≤ value.length ∧ value.head? = some 0x22 ∧ value.getLast? = some 0x22 then
    (value.drop 1).dropLast
  else value

/-- What one parameter says about the charset; nothing where `_utf8_charset` gives up. -/
def paramCharset (param : Bytes) : Option (List Bytes) :=
  let key := asciiLower (asciiStrip (param.takeWhile (· != 0x3d)))
  let value := unquote (asciiStrip ((param.dropWhile (· != 0x3d)).drop 1))
  if !(utf8 "charset".toList).isPrefixOf key then some []
  else if key ≠ utf8 "charset".toList then none
  else if !param.contains 0x3d || value.contains 0x22 then none
  else some [asciiLower value]

/-- `_utf8_charset(content_type)`. -/
def utf8Charset (bytes : Bytes) : Bool :=
  match ((bytes.splitOn semicolon).drop 1).mapM paramCharset with
  | none => false
  | some charsets =>
      match charsets.flatten with
      | [] => true
      | [charset] => charset == utf8 "utf-8".toList || charset == utf8 "utf8".toList
      | _ => false

/-! ## The encoding of a body -/

inductive Encoding where
  | utf32
  | utf16
  | utf8Sig
  | utf16be
  | utf32be
  | utf16le
  | utf32le
  | utf8
deriving DecidableEq

/-- `json.detect_encoding(body)`. -/
def detectEncoding (body : Bytes) : Encoding :=
  if [0x00, 0x00, 0xFE, 0xFF].isPrefixOf body ∨ [0xFF, 0xFE, 0x00, 0x00].isPrefixOf body then
    .utf32
  else if [0xFE, 0xFF].isPrefixOf body ∨ [0xFF, 0xFE].isPrefixOf body then .utf16
  else if [0xEF, 0xBB, 0xBF].isPrefixOf body then .utf8Sig
  else
    match body with
    | a :: b :: c :: d :: _ =>
        if a = 0 then if b = 0 then .utf32be else .utf16be
        else if b = 0 then if c = 0 ∧ d = 0 then .utf32le else .utf16le
        else .utf8
    | [a, b] => if a = 0 then .utf16be else if b = 0 then .utf16le else .utf8
    | _ => .utf8

/-- `body.decode("utf-8")`; nothing stands for the `UnicodeDecodeError`. -/
def decodeStrict (body : Bytes) : Option (List Char) :=
  if utf8 (Utf8.decode body) = body then some (Utf8.decode body) else none

/-- `_utf8(body)`. -/
def isUtf8 (body : Bytes) : Bool :=
  decide (detectEncoding body = .utf8) && (decodeStrict body).isSome

/-! ## The verdict -/

section

variable (F : Type) [Floats F]

/-- `json.loads(body)` of a body that `_utf8` has let pass. -/
def loadsBody (body : Bytes) : Except Json.Error (Json F) :=
  match decodeStrict body with
  | some text => loads (PyStr.ofText text)
  | none => .error .valueError

/-- `isinstance(parsed, dict) and "policies" in parsed`. -/
def namesPolicies {F : Type} : Json F → Bool
  | .obj fields => Fields.has fields "policies".py
  | _ => false

/-- `_body_problem(chunks, content_type)`. -/
def bodyProblem (chunks : List Bytes) (contentType : ContentType) : Option BlockReason :=
  let body := chunks.flatten
  if !isJson contentType ∧ (body ≠ [] ∨ contentType ≠ .missing) then some .bodyNotJson
  else if (match contentType with | .value bytes => !utf8Charset bytes | _ => false) then
    some .bodyNotJson
  else if body ≠ [] ∧ !isUtf8 body then some .bodyNotJson
  else if ¬ utf8 "policies".toList <:+: body ∧ ¬ utf8 "\\u".toList <:+: body then none
  else
    match loadsBody F body with
    | .error _ => none
    | .ok parsed => if namesPolicies parsed then some .bodyPolicies else none

end

/-! ## An accepted text is UTF-8 -/

theorem detectEncoding_ascii {a : UInt8} {rest : Bytes} (ha : a < 0x80) (h : 0 ∉ a :: rest) :
    detectEncoding (a :: rest) = .utf8 := by
  rw [List.mem_cons, not_or] at h
  obtain ⟨hzero, hrest⟩ := h
  have hfe : a ≠ 0xFE := by rintro rfl; exact absurd ha (by decide)
  have hff : a ≠ 0xFF := by rintro rfl; exact absurd ha (by decide)
  have hef : a ≠ 0xEF := by rintro rfl; exact absurd ha (by decide)
  -- no byte order mark begins with an ASCII byte
  have hbom : ∀ {b : UInt8} {mark : Bytes}, a ≠ b → (b :: mark).isPrefixOf (a :: rest) = false := by
    intro b mark hb
    simp [List.isPrefixOf, Ne.symm hb]
  unfold detectEncoding
  rw [hbom (Ne.symm hzero), hbom hff, hbom hfe, hbom hff, hbom hef]
  simp only [Bool.false_eq_true, or_self, if_false]
  match rest, hrest with
  | [], _ => rfl
  | [b, c], _ => rfl
  | [b], hrest | b :: c :: d :: rest, hrest =>
    rw [List.mem_cons, not_or] at hrest
    simp [Ne.symm hzero, Ne.symm hrest.1]

theorem utf8_head {c : Char} (hc : c.toNat < 0x80) (t : List Char) :
    utf8 (c :: t) = UInt8.ofNat c.toNat :: utf8 t := by
  simp [utf8_cons, String.utf8EncodeChar, Nat.le_of_lt_succ hc]

section

variable {F : Type} [Floats F] {text : List Char} {v : Json F}

theorem zero_notMem_of_loads (h : loads (PyStr.ofText text) = .ok v) : 0 ∉ utf8 text := by
  apply zero_notMem_utf8
  intro hzero
  obtain ⟨toks, pieces, -, htext, hread, -⟩ := loads_pieces h
  have hmem : PyChar.scalar '\x00' ∈ PyStr.ofText text := List.mem_map.mpr ⟨_, hzero, rfl⟩
  rw [htext] at hmem
  obtain ⟨piece, hpiece, hin⟩ := List.mem_flatten.mp hmem
  obtain ⟨i, hi, rfl⟩ := List.getElem_of_mem hpiece
  have hlexed := hread.get (by rw [hread.length_eq]; exact hi) hi
  exact hlexed.ne_zero _ hin rfl

/-- An accepted text is read as UTF-8. -/
theorem isUtf8_of_loads (h : loads (PyStr.ofText text) = .ok v) : isUtf8 (utf8 text) = true := by
  have hzero := zero_notMem_of_loads h
  obtain ⟨c, t, htext, hc⟩ := loads_head h
  cases text with
  | nil => cases htext
  | cons d text =>
    obtain ⟨rfl, -⟩ : d = c ∧ _ := by simpa using htext
    have hencoding : detectEncoding (utf8 (d :: text)) = .utf8 := by
      rw [utf8_head hc] at hzero ⊢
      refine detectEncoding_ascii ?_ hzero
      rw [UInt8.lt_iff_toNat_lt]
      exact lt_of_le_of_lt (Nat.mod_le _ _) hc
    simp [isUtf8, hencoding, decodeStrict]

/-! ## What a key needs -/

theorem utf8_within {s t : List Char} (h : PyStr.ofText s <:+: PyStr.ofText t) :
    utf8 s <:+: utf8 t := by
  obtain ⟨u, ⟨front, back, hu⟩, hs⟩ := List.infix_map_iff.mp h
  obtain rfl : s = u := PyStr.ofText_injective hs
  exact ⟨utf8 front, utf8 back, by rw [← hu, utf8_append, utf8_append]⟩

/-- The bytes that a key `policies` needs: its own, or those of an escape. -/
theorem policies_in_body (h : loads (PyStr.ofText text) = .ok v) (hv : namesPolicies v = true) :
    utf8 "policies".toList <:+: utf8 text ∨ utf8 "\\u".toList <:+: utf8 text := by
  cases v with
  | obj fields =>
    obtain ⟨toks, pieces, -, htext, hread, hstrings⟩ := loads_pieces h
    -- the key is one of the strings of the text
    have htok : Tok.str "policies".py ∈ toks := by
      have hkeys : (Json.obj fields).Strings fun s => Tok.str s ∈ toks := hstrings _ fun s hs => hs
      obtain ⟨e, he, hname⟩ := List.mem_map.mp (Fields.has_iff.mp hv)
      cases hkeys with
      | obj hkeys _ => exact hname ▸ hkeys e he
    by_cases hu : PyStr.ofText "\\u".toList <:+: PyStr.ofText text
    · exact .inr (utf8_within hu)
    · refine .inl (utf8_within (literal_of_str htext hread ?_ htok hu))
      unfold Plain
      decide
  | null | bool _ | int _ | float _ | str _ | arr _ => cases hv

/-! ## The verdict on a JSON body -/

/-- **The quick look never changes the verdict.** A body that is the bytes of a JSON text,
however it is cut, is refused exactly when it is an object with a key `policies`. -/
theorem bodyProblem_eq (h : loads (PyStr.ofText text) = .ok v) {chunks : List Bytes}
    (hchunks : chunks.flatten = utf8 text) {headers : List (Bytes × Bytes)} {bytes : Bytes}
    (htype : contentType headers = .value bytes) (hjson : isJson (.value bytes) = true)
    (hcharset : utf8Charset bytes = true) :
    bodyProblem F chunks (contentType headers) =
      if namesPolicies v then some .bodyPolicies else none := by
  have hutf8 := isUtf8_of_loads h
  have hloads : loadsBody F (utf8 text) = .ok v := by simp [loadsBody, decodeStrict, h]
  simp only [bodyProblem, htype, hchunks, hjson, hcharset, hutf8, hloads, Bool.not_true, Bool.false_eq_true,
    false_and, and_false, if_false]
  split
  · next hquick =>
    -- neither form of the key is in the bytes
    rw [if_neg]
    intro hv
    rcases policies_in_body h hv with hkey | hescape
    · exact hquick.1 hkey
    · exact hquick.2 hescape
  · rfl

/-- A key written with an escape, in a body cut inside the escape. -/
theorem bodyProblem_escaped :
    let text := "\x7b\"p\\u006flicies\": []\x7d".toList
    let chunks := [(utf8 text).take 6, (utf8 text).drop 6]
    let bytes := utf8 "application/json".toList
    let headers := [(utf8 "Content-Type".toList, bytes)]
    loads (PyStr.ofText text) = .ok (.obj [("policies".py, .arr [])] : Json Literal) ∧
      chunks.flatten = utf8 text ∧ contentType headers = .value bytes ∧
      isJson (.value bytes) = true ∧ utf8Charset bytes = true ∧
      bodyProblem Literal chunks (contentType headers) = some .bodyPolicies := by
  intro text chunks bytes headers
  have hloads : loads (PyStr.ofText text) =
      .ok (.obj [("policies".py, .arr [])] : Json Literal) := by
    have htokens : Framing.drain token (PyStr.ofText text) =
        ([.lbrace, .str "policies".py, .colon, .space, .lbracket, .rbracket, .rbrace], []) := by
      decide +kernel
    rw [loads, htokens]
    rfl
  have hchunks : chunks.flatten = utf8 text := by decide
  have htype : contentType headers = .value bytes := by decide +kernel
  have hjson : isJson (.value bytes) = true := by decide +kernel
  have hcharset : utf8Charset bytes = true := by decide +kernel
  exact ⟨hloads, hchunks, htype, hjson, hcharset,
    bodyProblem_eq hloads hchunks htype hjson hcharset⟩

end

end CorpLlmGateway.RouteGate.Routes
