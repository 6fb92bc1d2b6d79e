import CorpLlmGateway.Data.Dict
import CorpLlmGateway.Text.PyStr
import CorpLlmGateway.Text.Regex

/-!
# The route table

`route_gate/table.py`: how a method and a path are looked up, and how the operator's extra
routes are parsed. The rows of the tables are data; what is said of the functions here holds
of every table.

* `Entry` — a classified route; what `__post_init__` checks holds of every entry;
* `templateMatcher` — the pattern of a path template with parameters;
* `lookup`, `parseExtras` — the functions that the gate calls.
-/

namespace CorpLlmGateway.RouteGate.Routes

open Regex TextScan

/-- The case mappings of `str`. -/
structure Casing where
  upper : PyStr → PyStr
  lower : PyStr → PyStr

/-! ## Entries -/

inductive Verdict where
  | passthrough
  | rewritten
  | refuse
deriving DecidableEq

/-- `text.strip()` leaves something. -/
def Nonblank (text : PyStr) : Prop := ∃ c ∈ text, c.isSpace = false

/-- One classified route, as `__post_init__` lets it be built. -/
structure Entry where
  verdict : Verdict
  why : PyStr
  justification : Option PyStr
  why_nonblank : Nonblank why
  justified : ∀ j ∈ justification, Nonblank j ∧ verdict = .passthrough

/-! ## Templates -/

/-- `\{[^{}]+\}`. -/
def parameter : Pat PyChar :=
  .seqs [.lit (.scalar '{'), .plus (.chr fun c => c != .scalar '{' && c != .scalar '}'),
    .lit (.scalar '}')]

/-- `re.escape(text)` as a pattern: the text itself. -/
def static (text : PyStr) : Pat PyChar := .seqs (text.map .lit)

/-- What a parameter matches: `.+` if it may span segments, `[^/]+` if not. -/
def parameterPattern (group : PyStr) : Pat PyChar :=
  if ":path\x7d".py <:+ group then .plus (.chr fun c => c != .scalar '\n')
  else .plus (.chr fun c => c != .scalar '/')

/-- The loop of `_pattern(template)` behind some position. -/
def patternFrom (template : PyStr) :
    ℕ → List (Hit (List (ℕ × ℕ × ℕ))) → List (Pat PyChar)
  | position, [] => [static (template.drop position)]
  | position, hit :: hits =>
      static (slice template position hit.start) ::
        parameterPattern (slice template hit.start hit.stop) ::
          patternFrom template hit.stop hits

/-- `template_matcher(template)`: the pattern, anchored at both ends. -/
def templateMatcher (template : PyStr) : Pat PyChar :=
  .seqs (.bos :: patternFrom template 0 (finditer (matcher parameter) template) ++
    [.look fun _ rest => rest.isEmpty])

/-- A route with a path parameter. -/
structure RegexEntry where
  method : PyStr
  template : PyStr
  pattern : Pat PyChar
  entry : Entry

/-- `_regex(method, template, entry)`. -/
def regex (method template : PyStr) (entry : Entry) : RegexEntry :=
  ⟨method, template, templateMatcher template, entry⟩

/-! ## Looking up a route -/

/-- `LITELLM_ROUTE_TABLE`, `GATEWAY_ROUTE_TABLE` and `LITELLM_REGEX_TABLE`. -/
structure RouteTables where
  litellm : Dict (PyStr × PyStr) Entry
  gateway : Dict (PyStr × PyStr) Entry
  patterns : List RegexEntry

/-- `lookup(method, path)`. -/
def lookup (C : Casing) (T : RouteTables) (method path : PyStr) : Option Entry :=
  match (T.litellm.get? (C.upper method, path)).or (T.gateway.get? (C.upper method, path)) with
  | some entry => some entry
  | none =>
      (T.patterns.find? fun row =>
        row.method == C.upper method && (matchText row.pattern path).isSome).map RegexEntry.entry

/-! ## Extra routes -/

def httpMethods : List PyStr :=
  ["GET".py, "HEAD".py, "POST".py, "PUT".py, "PATCH".py, "DELETE".py, "OPTIONS".py]

/-- `_BAD_EXTRA_PATH_TOKENS`, each with its `repr`. -/
def badExtraPathTokens : List (PyStr × PyStr) :=
  [("..".py, "'..'".py), ("//".py, "'//'".py), ("%".py, "'%'".py), ("?".py, "'?'".py),
    ("#".py, "'#'".py), ("\x00".py, "'\\x00'".py)]

/-- What `parse_extras` is called with. -/
inductive RawExtras where
  | unset
  | text (raw : PyStr)
  | items (listed : List PyStr)

/-- `re.split(r"[,\n]", raw)`, or the items themselves. -/
def RawExtras.split : RawExtras → List PyStr
  | .unset => []
  | .text raw => raw.splitOnP fun c => c == .scalar ',' || c == .scalar '\n'
  | .items listed => listed

/-- `text.split()`. -/
def fields (text : PyStr) : List PyStr := (text.splitOnP PyChar.isSpace).filter fun word => !word.isEmpty

/-- `_refused(method, path)`: a `HEAD` route is judged by its `GET` row as well. -/
def refused (C : Casing) (T : RouteTables) (method path : PyStr) : Bool :=
  (if method = "HEAD".py then [method, "GET".py] else [method]).any fun verb =>
    (lookup C T verb path).any fun entry => entry.verdict == .refuse

/-- The entry of an extra route. -/
def operatorExtra (method path : PyStr) : Entry where
  verdict := .passthrough
  why := "operator extra: CORP_LLM_ROUTE_GATE_EXTRA_PASSTHROUGH lists ".py ++ method ++ " ".py ++
    path
  justification := none
  why_nonblank := ⟨.scalar 'o', by simp, by decide⟩
  justified := by simp

section Messages

variable (index : ℕ)

def malformedItem : PyStr :=
  "route gate extra item ".py ++ (toString index).py ++
    ": malformed (expected 'METHOD /path')".py

def badPathItem (bad : List PyStr) : PyStr :=
  malformedItem index ++ ": the path carries ".py ++
    (if bad.isEmpty then "whitespace".py else ", ".py.intercalate bad) ++
    " and would match nothing; the gate matches the decoded path as received".py

def refusedItem (method path : PyStr) : PyStr :=
  "route gate extra item ".py ++ (toString index).py ++ " (".py ++ method ++ " ".py ++ path ++
    (") names a route the table refused; the key adds PASSTHROUGH rows only and can never " ++
      "re-open a refusal (docs/security.md §14)").py

end Messages

/-- One round of the loop of `parse_extras`; the message of the `ValueError` it raises. -/
def parseItem (C : Casing) (T : RouteTables) (extras : Dict (PyStr × PyStr) Entry) (index : ℕ)
    (item : PyStr) : Except PyStr (Dict (PyStr × PyStr) Entry) :=
  if (strip PyChar.isSpace item).isEmpty then .ok extras
  else
    match fields (strip PyChar.isSpace item) with
    | [verb, path] =>
        let method := C.upper verb
        let bad := badExtraPathTokens.filter fun token => decide (token.1 <:+: path)
        if !httpMethods.contains method then
          .error (malformedItem index ++ ": unknown HTTP method".py)
        else if !("/".py).isPrefixOf path then
          .error (malformedItem index ++ ": the path must start with '/'".py)
        else if !bad.isEmpty || path.any PyChar.isSpace then
          .error (badPathItem index (bad.map Prod.snd))
        else if refused C T method path then .error (refusedItem index method path)
        else .ok (extras.insert (method, path) (operatorExtra method path))
    | _ => .error (malformedItem index)

def parseItems (C : Casing) (T : RouteTables) (extras : Dict (PyStr × PyStr) Entry) :
    ℕ → List PyStr → Except PyStr (Dict (PyStr × PyStr) Entry)
  | _, [] => .ok extras
  | index, item :: items => do
      let extras ← parseItem C T extras index item
      parseItems C T extras (index + 1) items

/-- `parse_extras(raw)`. -/
def parseExtras (C : Casing) (T : RouteTables) (raw : RawExtras) :
    Except PyStr (Dict (PyStr × PyStr) Entry) :=
  parseItems C T .empty 1 raw.split

/-! ## Extras open no refused route -/

section

variable {C : Casing} {T : RouteTables} {extras extras' : Dict (PyStr × PyStr) Entry}

theorem refused_eq_false {method path : PyStr} :
    refused C T method path = false ↔
      (∀ entry, lookup C T method path = some entry → entry.verdict ≠ .refuse) ∧
        (method = "HEAD".py →
          ∀ entry, lookup C T "GET".py path = some entry → entry.verdict ≠ .refuse) := by
  have hone : ∀ verb, ((lookup C T verb path).any fun entry => entry.verdict == .refuse) = false ↔
      ∀ entry, lookup C T verb path = some entry → entry.verdict ≠ .refuse := by
    intro verb
    cases lookup C T verb path with
    | none => simp
    | some entry => simp
  unfold refused
  split
  · next hhead => simp only [List.any_cons, List.any_nil, Bool.or_false, Bool.or_eq_false_iff,
      hone, hhead, true_implies]
  · next hhead => simp only [List.any_cons, List.any_nil, Bool.or_false, hone, hhead,
      false_implies, and_true]

/-- A round adds at most one route, and that one is not refused. -/
theorem parseItem_keys {index : ℕ} {item : PyStr}
    (h : parseItem C T extras index item = .ok extras') {key : PyStr × PyStr}
    (hkey : key ∈ extras'.keys) : key ∈ extras.keys ∨ refused C T key.1 key.2 = false := by
  unfold parseItem at h
  split at h
  · cases h
    exact .inl hkey
  split at h
  · next verb path _ =>
    simp only at h
    split at h
    · cases h
    split at h
    · cases h
    split at h
    · cases h
    split at h
    · cases h
    next hopen =>
    cases h
    rw [Dict.mem_keys, Dict.get?_insert] at hkey
    split at hkey
    · next heq =>
      right
      rw [eq_of_beq heq]
      simpa using hopen
    · exact .inl (Dict.mem_keys.mpr hkey)
  · cases h

theorem parseItems_keys {index : ℕ} {items : List PyStr}
    (h : parseItems C T extras index items = .ok extras')
    (hextras : ∀ key ∈ extras.keys, refused C T key.1 key.2 = false) :
    ∀ key ∈ extras'.keys, refused C T key.1 key.2 = false := by
  induction items generalizing extras index with
  | nil =>
    cases h
    exact hextras
  | cons item items ih =>
    rw [parseItems] at h
    cases hitem : parseItem C T extras index item with
    | error e =>
      rw [hitem] at h
      cases h
    | ok next =>
      rw [hitem] at h
      apply ih h
      intro key hkey
      rcases parseItem_keys hitem hkey with hold | hnew
      · exact hextras key hold
      · exact hnew

theorem parseExtras_keys {raw : RawExtras} (h : parseExtras C T raw = .ok extras) :
    ∀ key ∈ extras.keys, refused C T key.1 key.2 = false :=
  parseItems_keys h (by simp [Dict.keys, Dict.empty])

end

end CorpLlmGateway.RouteGate.Routes
