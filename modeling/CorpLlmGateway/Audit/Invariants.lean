import CorpLlmGateway.Text.PyStr
import CorpLlmGateway.Text.Regex

/-!
# The NEVER fields of an audit record

`assert_no_never_fields` walks an audit record and raises where a key names a field that must
never be logged. Two kinds of keys change what the walk does below them: the keys of
`finding_label_counts` are data, and what stands under a guardrail-information key has to be
on an allow-list.

* `Inside` — the nodes of a record, with what they are the direct value of;
* `AllowListed` — the entries that may stand under a guardrail-information key;
* `no_never_field` — what is known of a record that the walk lets pass.
-/

namespace CorpLlmGateway.Audit

open Regex

/-! ## Records -/

/-- What a record is built from; a key that is not a string is `none`. An enumeration member
is a string with a `value`. -/
inductive Node (F : Type) where
  | none
  | bool (b : Bool)
  | int (n : ℤ)
  | float (f : F)
  | str (s : PyStr)
  | enum (value : PyStr)
  | list (items : List (Node F))
  | tuple (items : List (Node F))
  | mapping (fields : List (Option PyStr × Node F))

abbrev Fields (F : Type) := List (Option PyStr × Node F)

variable {F : Type}

/-- `fields[key]`. -/
def Fields.get? (fields : Fields F) (key : PyStr) : Option (Node F) := fields.lookup (some key)

/-- The text of a node that is an instance of `str`. -/
def Node.text? : Node F → Option PyStr
  | .str s => some s
  | .enum value => some value
  | _ => Option.none

/-- `getattr(node, "value", node)`. -/
def Node.valueAttr : Node F → Node F
  | .enum value => .str value
  | node => node

mutual

/-- A node that can be looked up in a set. -/
def Node.hashable : Node F → Bool
  | .list _ => false
  | .mapping _ => false
  | .tuple items => Node.allHashable items
  | _ => true

def Node.allHashable : List (Node F) → Bool
  | [] => true
  | x :: xs => x.hashable && Node.allHashable xs

end

/-! ## The allow-list -/

def neverFields : List PyStr :=
  ["mapping".py, "mapping_table".py, "pairs".py, "original_content".py, "unredacted_content".py,
    "pre_sanitization".py, "replace_md".py, "rule_values".py, "x_corp_auth".py, "corp_token".py,
    "api_key".py, "authorization".py, "cookie".py, "set_cookie".py, "extra_headers".py]

def dataKeyedFields : List PyStr := ["finding_label_counts".py]

def guardrailInformationKeys : List PyStr :=
  ["guardrail_name".py, "guardrail_provider".py, "guardrail_mode".py, "guardrail_response".py,
    "guardrail_status".py, "start_time".py, "end_time".py, "duration".py,
    "masked_entity_count".py]

def guardrailResponseKeys : List PyStr :=
  ["block_reason".py, "redaction_count".py, "finding_label_counts".py]

/-- `GUARDRAIL_RESPONSE_KEYS - {"block_reason"}`. -/
def guardrailResponseRequired : List PyStr :=
  guardrailResponseKeys.filter fun key => key != "block_reason".py

def guardrailStatuses : List PyStr :=
  ["success".py, "guardrail_flagged".py, "guardrail_intervened".py,
    "guardrail_failed_to_respond".py, "not_run".py]

def guardrailInformationFields : List PyStr :=
  ["guardrail_information".py, "standard_logging_guardrail_information".py]

/-- A character class of single characters and ranges. -/
def charClass (singles : String) (ranges : List (Char × Char)) : PyChar → Bool :=
  PyChar.any fun c => singles.toList.contains c || ranges.any fun r => r.1 ≤ c && c ≤ r.2

/-- `[a-z0-9][a-z0-9_-]{0,63}`. -/
def guardrailName : Pat PyChar :=
  .seq (.chr (charClass "" [('a', 'z'), ('0', '9')]))
    (.between 0 63 (.chr (charClass "_-" [('a', 'z'), ('0', '9')])))

/-- `[a-z][a-z_]{0,31}`. -/
def guardrailMode : Pat PyChar :=
  .seq (.chr (charClass "" [('a', 'z')])) (.between 0 31 (.chr (charClass "_" [('a', 'z')])))

/-- `(?=.{1,64}$)`. -/
def upTo64Ahead : Pat PyChar := .look fun _ rest =>
  (List.range 64).any fun k =>
    decide (k < rest.length) && (rest.take (k + 1)).all (fun c => c != .scalar '\n') &&
      (rest.drop (k + 1) == [] || rest.drop (k + 1) == [.scalar '\n'])

/-- `[a-z][a-z0-9_]*`. -/
def reasonWord : Pat PyChar :=
  .seq (.chr (charClass "" [('a', 'z')]))
    (.star (.chr (charClass "_" [('a', 'z'), ('0', '9')])))

/-- `(?=.{1,64}$)[a-z][a-z0-9_]*(?::[a-z][a-z0-9_]*)?`. -/
def blockReason : Pat PyChar :=
  .seqs [upTo64Ahead, reasonWord, .opt (.seq (.lit (.scalar ':')) reasonWord)]

/-- `[A-Z][A-Z0-9_]{0,63}`. -/
def findingLabel : Pat PyChar :=
  .seq (.chr (charClass "" [('A', 'Z')]))
    (.between 0 63 (.chr (charClass "_" [('A', 'Z'), ('0', '9')])))

/-! ## The checks -/

inductive Refusal where
  | neverField (key : PyStr)
  | rejected (rule : String)
  | typeError
deriving DecidableEq

/-- The message of a `GuardrailInformationRejectedError`. -/
def Refusal.rejectedMessage (rule : String) : String :=
  "guardrail_information refused: " ++ rule

/-- `if condition: _reject(rule)`. -/
def rejectIf (condition : Bool) (rule : String) : Except Refusal Unit :=
  if condition then .error (.rejected rule) else .ok ()

/-- `_matches(pattern, value)`. -/
def matchesPat (pattern : Pat PyChar) (value : Option (Node F)) : Bool :=
  match value.bind Node.text? with
  | some s => (fullMatch pattern s).isSome
  | none => false

/-- `_is_number(value)`. -/
def isNumber : Option (Node F) → Bool
  | some (.int _) => true
  | some (.float _) => true
  | _ => false

/-- `_is_count(value)`. -/
def isCount : Option (Node F) → Bool
  | some (.int n) => decide (0 ≤ n)
  | _ => false

/-- `value is None`. -/
def isNone : Option (Node F) → Bool
  | some .none => true
  | _ => false

/-- `set(fields) == keys`. -/
def keysAre (fields : Fields F) (keys : List PyStr) : Bool :=
  fields.all (fun e => keys.any fun k => e.1 == some k) &&
    keys.all fun k => fields.any fun e => e.1 == some k

/-- `required <= set(fields) <= allowed`. -/
def keysBetween (fields : Fields F) (required allowed : List PyStr) : Bool :=
  (required.all fun k => fields.any fun e => e.1 == some k) &&
    fields.all fun e => allowed.any fun k => e.1 == some k

/-- A label and its count. -/
def isLabelCount (e : Option PyStr × Node F) : Bool :=
  matchesPat findingLabel (e.1.map (.str : PyStr → Node F)) && isCount (some e.2)

/-- `_check_response(response)`. -/
def checkResponse : Option (Node F) → Except Refusal Unit
  | some (.mapping response) => do
      rejectIf (!keysBetween response guardrailResponseRequired guardrailResponseKeys)
        "guardrail_response keys differ from the allow-list"
      rejectIf ((Fields.get? response "block_reason".py).isSome &&
          !matchesPat blockReason (Fields.get? response "block_reason".py))
        "block_reason is not a reason code"
      rejectIf (!isCount (Fields.get? response "redaction_count".py)) "redaction_count is not a count"
      match Fields.get? response "finding_label_counts".py with
      | some (.mapping labels) =>
          rejectIf (!labels.all isLabelCount)
            "finding_label_counts holds something other than label counts"
      | _ => .error (.rejected "finding_label_counts is not a map")
  | _ => .error (.rejected "guardrail_response keys differ from the allow-list")

/-- `status not in GUARDRAIL_STATUSES`; a list or a dictionary cannot be looked up. -/
def checkStatus (status : Option (Node F)) : Except Refusal Unit :=
  match status with
  | some node =>
      if !node.hashable then .error .typeError
      else rejectIf (!(node.text?.any fun s => guardrailStatuses.contains s))
        "guardrail_status is not a litellm status"
  | none => .error .typeError

/-- The checks of an entry that follow its walk. -/
def checkEntry (entry : Fields F) : Except Refusal Unit := do
  rejectIf (!keysAre entry guardrailInformationKeys) "entry keys differ from the allow-list"
  rejectIf (!matchesPat guardrailName (Fields.get? entry "guardrail_name".py))
    "guardrail_name is not a name"
  rejectIf (!matchesPat guardrailMode ((Fields.get? entry "guardrail_mode".py).map Node.valueAttr))
    "guardrail_mode is not a mode"
  checkStatus (Fields.get? entry "guardrail_status".py)
  rejectIf (!isNone (Fields.get? entry "guardrail_provider".py) ||
      !isNone (Fields.get? entry "masked_entity_count".py))
    "guardrail_provider and masked_entity_count must be None"
  rejectIf (["start_time".py, "end_time".py, "duration".py].any fun key =>
      !isNone (Fields.get? entry key) && !isNumber (Fields.get? entry key))
    "a timing field is not a number"
  checkResponse (Fields.get? entry "guardrail_response".py)

/-! ## The walk -/

section Walk

variable (lower : PyStr → PyStr)

/-- `_normalize_key(key)`: `key.lower().replace("-", "_")`. -/
def normalizeKey (key : PyStr) : PyStr :=
  (lower key).map fun c => if c = .scalar '-' then .scalar '_' else c

mutual

/-- `_walk(node)`. -/
def walk : Node F → Except Refusal Unit
  | .mapping fields => walkFields fields
  | .list items => walkItems items
  | .tuple items => walkItems items
  | _ => .ok ()

def walkItems : List (Node F) → Except Refusal Unit
  | [] => .ok ()
  | item :: items => do
      walk item
      walkItems items

def walkFields : List (Option PyStr × Node F) → Except Refusal Unit
  | [] => .ok ()
  | (Option.none, value) :: fields => do
      walk value
      walkFields fields
  | (some key, value) :: fields => do
      (if dataKeyedFields.contains (normalizeKey lower key) then walkValuesOnly value
        else if neverFields.contains (normalizeKey lower key) then .error (.neverField key)
        else if guardrailInformationFields.contains (normalizeKey lower key) then
          assertGuardrailInformationAllowed value
        else walk value)
      walkFields fields

/-- `_walk_values_only(node)`. -/
def walkValuesOnly : Node F → Except Refusal Unit
  | .mapping fields => walkValues fields
  | .list items => walkItems items
  | .tuple items => walkItems items
  | _ => .ok ()

def walkValues : List (Option PyStr × Node F) → Except Refusal Unit
  | [] => .ok ()
  | (_, value) :: fields => do
      walk value
      walkValues fields

/-- `assert_guardrail_information_allowed(value)`. -/
def assertGuardrailInformationAllowed : Node F → Except Refusal Unit
  | .none => .ok ()
  | .list entries => walkEntries entries
  | .mapping entry => do
      walkFields entry
      checkEntry entry
  | _ => .error (.rejected "entry is not a mapping")

/-- The loop over the entries. -/
def walkEntries : List (Node F) → Except Refusal Unit
  | [] => .ok ()
  | .mapping entry :: entries => do
      walkFields entry
      checkEntry entry
      walkEntries entries
  | _ :: _ => .error (.rejected "entry is not a mapping")

end

/-- `assert_no_never_fields(record)`. -/
def assertNoNeverFields (record : Node F) : Except Refusal Unit := walk lower record

end Walk

/-! ## Entries on the allow-list -/

/-- A `guardrail_response` with counts and label counts and, perhaps, a reason code. -/
structure ResponseAllowed (response : Fields F) : Prop where
  required : ∀ k ∈ guardrailResponseRequired, some k ∈ response.map Prod.fst
  allowed : ∀ e ∈ response, ∃ k ∈ guardrailResponseKeys, e.1 = some k
  reason : ∀ v, Fields.get? response "block_reason".py = some v →
    matchesPat blockReason (some v) = true
  redactions : isCount (Fields.get? response "redaction_count".py) = true
  labels : ∃ labels, Fields.get? response "finding_label_counts".py = some (.mapping labels) ∧
    ∀ e ∈ labels, isLabelCount e = true

/-- An entry with exactly the listed keys, whose values are labels, counts, times or `None`. -/
structure AllowListed (entry : Fields F) : Prop where
  keys : ∀ k, k ∈ entry.map Prod.fst ↔ ∃ key ∈ guardrailInformationKeys, k = some key
  name : matchesPat guardrailName (Fields.get? entry "guardrail_name".py) = true
  mode : matchesPat guardrailMode
    ((Fields.get? entry "guardrail_mode".py).map Node.valueAttr) = true
  status : ∃ node s, Fields.get? entry "guardrail_status".py = some node ∧
    node.text? = some s ∧ s ∈ guardrailStatuses
  provider : Fields.get? entry "guardrail_provider".py = some .none
  masked : Fields.get? entry "masked_entity_count".py = some .none
  times : ∀ key ∈ ["start_time".py, "end_time".py, "duration".py],
    Fields.get? entry key = some .none ∨ isNumber (Fields.get? entry key) = true
  response : ∃ response, Fields.get? entry "guardrail_response".py = some (.mapping response) ∧
    ResponseAllowed response

section Checks

theorem seq_eq_ok {x y : Except Refusal Unit} :
    (x >>= fun _ => y) = .ok () ↔ x = .ok () ∧ y = .ok () := by
  cases x with
  | error e => simp [bind, Except.bind]
  | ok u => simp [bind, Except.bind]

theorem rejectIf_eq_ok {condition : Bool} {rule : String} :
    rejectIf condition rule = .ok () ↔ condition = false := by
  cases condition <;> simp [rejectIf]

theorem eq_none_of_isNone {v : Option (Node F)} (h : isNone v = true) : v = some .none := by
  match v, h with
  | some .none, _ => rfl

theorem responseAllowed_of_checkResponse {value : Option (Node F)}
    (h : checkResponse value = .ok ()) :
    ∃ response, value = some (.mapping response) ∧ ResponseAllowed response := by
  match value with
  | some (.mapping response) =>
    refine ⟨response, rfl, ?_⟩
    simp only [checkResponse, seq_eq_ok, rejectIf_eq_ok] at h
    obtain ⟨hkeys, hreason, hcount, hlabels⟩ := h
    simp only [keysBetween, Bool.not_eq_false', Bool.and_eq_true, List.all_eq_true,
      List.any_eq_true, beq_iff_eq] at hkeys
    split at hlabels
    · next labels hget =>
      simp only [rejectIf_eq_ok, Bool.not_eq_false', List.all_eq_true] at hlabels
      refine ⟨?_, hkeys.2, ?_, by simpa using hcount, labels, hget, hlabels⟩
      · intro k hk
        obtain ⟨e, he, hek⟩ := hkeys.1 k hk
        rw [← hek]
        exact List.mem_map_of_mem he
      · intro v hv
        rw [hv] at hreason
        simpa using hreason
    · cases hlabels
  | some .none | some (.bool _) | some (.int _) | some (.float _) | some (.str _)
  | some (.enum _) | some (.list _) | some (.tuple _) | none => simp [checkResponse] at h

theorem text_of_checkStatus {status : Option (Node F)} (h : checkStatus status = .ok ()) :
    ∃ node s, status = some node ∧ node.text? = some s ∧ s ∈ guardrailStatuses := by
  cases status with
  | none => simp [checkStatus] at h
  | some node =>
    simp only [checkStatus] at h
    split at h
    · cases h
    · rw [rejectIf_eq_ok, Bool.not_eq_false', Option.any_eq_true] at h
      obtain ⟨s, hs, hmem⟩ := h
      exact ⟨node, s, rfl, hs, by simpa using hmem⟩

theorem allowListed_of_checkEntry {entry : Fields F} (h : checkEntry entry = .ok ()) :
    AllowListed entry := by
  simp only [checkEntry, seq_eq_ok, rejectIf_eq_ok] at h
  obtain ⟨hkeys, hname, hmode, hstatus, hnone, htimes, hresponse⟩ := h
  simp only [keysAre, Bool.not_eq_false', Bool.and_eq_true, List.all_eq_true,
    List.any_eq_true, beq_iff_eq] at hkeys
  simp only [Bool.or_eq_false_iff, Bool.not_eq_false'] at hnone
  refine ⟨?_, by simpa using hname, by simpa using hmode, text_of_checkStatus hstatus,
    eq_none_of_isNone hnone.1, eq_none_of_isNone hnone.2, ?_,
    responseAllowed_of_checkResponse hresponse⟩
  · intro k
    constructor
    · intro hk
      obtain ⟨e, he, rfl⟩ := List.mem_map.mp hk
      exact hkeys.1 e he
    · rintro ⟨key, hkey, rfl⟩
      obtain ⟨e, he, hek⟩ := hkeys.2 key hkey
      rw [← hek]
      exact List.mem_map_of_mem he
  · intro key hkey
    have htime := List.any_eq_false.mp htimes key hkey
    simp only [Bool.and_eq_true, Bool.not_eq_true', not_and, Bool.not_eq_false] at htime
    by_cases hisNone : isNone (Fields.get? entry key) = true
    · exact .inl (eq_none_of_isNone hisNone)
    · exact .inr (htime (by simpa using hisNone))

end Checks

/-! ## What a walk has seen -/

/-- The values that may stand under a guardrail-information key. -/
inductive AllowedValue : Node F → Prop where
  | none : AllowedValue .none
  | entry {entry : Fields F} : AllowListed entry → AllowedValue (.mapping entry)
  | entries {entries : List (Fields F)} :
      (∀ entry ∈ entries, AllowListed entry) → AllowedValue (.list (entries.map .mapping))

variable {lower : PyStr → PyStr}

/-- What the walk does with one field of a mapping. -/
def walkField (lower : PyStr → PyStr) : Option PyStr → Node F → Except Refusal Unit
  | Option.none, value => walk lower value
  | some key, value =>
      if dataKeyedFields.contains (normalizeKey lower key) then walkValuesOnly lower value
      else if neverFields.contains (normalizeKey lower key) then .error (.neverField key)
      else if guardrailInformationFields.contains (normalizeKey lower key) then
        assertGuardrailInformationAllowed lower value
      else walk lower value

theorem walkItems_eq_ok {items : List (Node F)} :
    walkItems lower items = .ok () ↔ ∀ x ∈ items, walk lower x = .ok () := by
  induction items with
  | nil => simp [walkItems]
  | cons x xs ih => rw [walkItems, seq_eq_ok, ih, List.forall_mem_cons]

theorem walkValues_eq_ok {fields : Fields F} :
    walkValues lower fields = .ok () ↔ ∀ e ∈ fields, walk lower e.2 = .ok () := by
  induction fields with
  | nil => simp [walkValues]
  | cons e fields ih => rw [walkValues, seq_eq_ok, ih, List.forall_mem_cons]

theorem walkFields_eq_ok {fields : Fields F} :
    walkFields lower fields = .ok () ↔ ∀ e ∈ fields, walkField lower e.1 e.2 = .ok () := by
  induction fields with
  | nil => simp [walkFields]
  | cons e fields ih =>
    obtain ⟨key, value⟩ := e
    rw [List.forall_mem_cons, ← ih]
    cases key with
    | none => rw [walkFields, seq_eq_ok, walkField]
    | some key => rw [walkFields, seq_eq_ok, walkField]

theorem walkEntries_eq_ok {entries : List (Node F)} (h : walkEntries lower entries = .ok ()) :
    ∃ fields : List (Fields F), entries = fields.map .mapping ∧
      ∀ entry ∈ fields, walkFields lower entry = .ok () ∧ checkEntry entry = .ok () := by
  induction entries with
  | nil => exact ⟨[], rfl, by simp⟩
  | cons e entries ih =>
    cases e with
    | mapping entry =>
      rw [walkEntries, seq_eq_ok, seq_eq_ok] at h
      obtain ⟨hwalk, hcheck, hrest⟩ := h
      obtain ⟨fields, rfl, hall⟩ := ih hrest
      exact ⟨entry :: fields, rfl, List.forall_mem_cons.mpr ⟨⟨hwalk, hcheck⟩, hall⟩⟩
    | _ => simp [walkEntries] at h

/-- A value that the allow-list lets pass was walked as well. -/
theorem allowedValue_of_assert {value : Node F}
    (h : assertGuardrailInformationAllowed lower value = .ok ()) :
    AllowedValue value ∧ walk lower value = .ok () := by
  cases value with
  | none => exact ⟨.none, by simp [walk]⟩
  | mapping entry =>
    rw [assertGuardrailInformationAllowed, seq_eq_ok] at h
    exact ⟨.entry (allowListed_of_checkEntry h.2), by rw [walk, h.1]⟩
  | list entries =>
    rw [assertGuardrailInformationAllowed] at h
    obtain ⟨fields, rfl, hall⟩ := walkEntries_eq_ok h
    refine ⟨.entries fun entry hentry => allowListed_of_checkEntry (hall entry hentry).2, ?_⟩
    rw [walk, walkItems_eq_ok]
    intro x hx
    obtain ⟨entry, hentry, rfl⟩ := List.mem_map.mp hx
    rw [walk, (hall entry hentry).1]
  | _ => simp [assertGuardrailInformationAllowed] at h

/-! ## No NEVER field -/

/-- A key whose values have data for keys: `finding_label_counts`, however it is spelled. -/
def isDataKey (lower : PyStr → PyStr) : Option PyStr → Bool
  | some key => dataKeyedFields.contains (normalizeKey lower key)
  | Option.none => false

/-- The nodes of a record; the flag says whether a node is the direct value of a
`finding_label_counts` key. -/
inductive Inside (lower : PyStr → PyStr) (record : Node F) : Bool → Node F → Prop where
  | root : Inside lower record false record
  | item {flag : Bool} {items : List (Node F)} {x : Node F} :
      Inside lower record flag (.list items) → x ∈ items → Inside lower record false x
  | tupleItem {flag : Bool} {items : List (Node F)} {x : Node F} :
      Inside lower record flag (.tuple items) → x ∈ items → Inside lower record false x
  | value {flag : Bool} {fields : Fields F} {e : Option PyStr × Node F} :
      Inside lower record flag (.mapping fields) → e ∈ fields →
        Inside lower record (isDataKey lower e.1) e.2

/-- The node was walked or, directly below a data key, its values were. -/
def Walked (lower : PyStr → PyStr) (flag : Bool) (node : Node F) : Prop :=
  walk lower node = .ok () ∨ flag = true ∧ walkValuesOnly lower node = .ok ()

theorem walked_value {key : Option PyStr} {value : Node F}
    (h : walkField lower key value = .ok ()) : Walked lower (isDataKey lower key) value := by
  cases key with
  | none => exact .inl h
  | some key =>
    simp only [walkField] at h
    split at h
    · next hdata => exact .inr ⟨hdata, h⟩
    split at h
    · cases h
    split at h
    · exact .inl (allowedValue_of_assert h).2
    · exact .inl h

/-- Every node of a record that passes was walked in one of the two ways. -/
theorem walked_of_inside {record : Node F} (h : assertNoNeverFields lower record = .ok ())
    {flag : Bool} {node : Node F} (hin : Inside lower record flag node) :
    Walked lower flag node := by
  induction hin with
  | root => exact .inl h
  | item _ hx ih =>
    rcases ih with hwalk | ⟨-, hwalk⟩
    · rw [walk, walkItems_eq_ok] at hwalk
      exact .inl (hwalk _ hx)
    · rw [walkValuesOnly, walkItems_eq_ok] at hwalk
      exact .inl (hwalk _ hx)
  | tupleItem _ hx ih =>
    rcases ih with hwalk | ⟨-, hwalk⟩
    · rw [walk, walkItems_eq_ok] at hwalk
      exact .inl (hwalk _ hx)
    · rw [walkValuesOnly, walkItems_eq_ok] at hwalk
      exact .inl (hwalk _ hx)
  | value _ he ih =>
    rcases ih with hwalk | ⟨-, hwalk⟩
    · rw [walk, walkFields_eq_ok] at hwalk
      exact walked_value (hwalk _ he)
    · -- the keys of this mapping are data, its values are walked like any other node
      rw [walkValuesOnly, walkValues_eq_ok] at hwalk
      exact .inl (hwalk _ he)

/-- **A record that passes names no NEVER field**: whatever mapping stands in it, except as
the direct value of a `finding_label_counts` key, none of its keys is a NEVER field, and what
its guardrail-information keys hold is on the allow-list. -/
theorem no_never_field {record : Node F} (h : assertNoNeverFields lower record = .ok ())
    {fields : Fields F} (hin : Inside lower record false (.mapping fields)) {key : PyStr}
    {value : Node F} (hfield : (some key, value) ∈ fields) :
    normalizeKey lower key ∉ neverFields ∧
      (normalizeKey lower key ∈ guardrailInformationFields → AllowedValue value) := by
  have hwalk : walk lower (.mapping fields) = .ok () := by
    rcases walked_of_inside h hin with hwalk | ⟨hflag, -⟩
    · exact hwalk
    · cases hflag
  rw [walk, walkFields_eq_ok] at hwalk
  have hone := hwalk _ hfield
  simp only [walkField, List.contains_iff_mem] at hone
  split at hone
  · next hdata =>
    -- a data key is neither a NEVER field nor a guardrail-information key
    have hkey : normalizeKey lower key = "finding_label_counts".py := by
      simpa only [dataKeyedFields, List.mem_singleton] using hdata
    rw [hkey]
    exact ⟨by decide +kernel, fun hguardrail => absurd hguardrail (by decide +kernel)⟩
  split at hone
  · cases hone
  next hnever =>
  refine ⟨hnever, ?_⟩
  intro hguardrail
  rw [if_pos hguardrail] at hone
  exact (allowedValue_of_assert hone).1

/-- `str.lower()` on ASCII text. -/
def asciiLower (s : PyStr) : PyStr := s.map fun
  | .scalar c => .scalar c.toLower
  | .lone k => .lone k

/-- What a guardrail says about a request, with a label that is spelled like a NEVER field. -/
def guardrailEntry : Fields Unit :=
  [(some "guardrail_name".py, .str "corp-dlp".py), (some "guardrail_provider".py, .none),
    (some "guardrail_mode".py, .enum "pre_call".py), (some "guardrail_status".py, .str "success".py),
    (some "guardrail_response".py, .mapping [(some "redaction_count".py, .int 2),
      (some "finding_label_counts".py, .mapping [(some "API_KEY".py, .int 2)])]),
    (some "start_time".py, .int 10), (some "end_time".py, .int 12), (some "duration".py, .int 2),
    (some "masked_entity_count".py, .none)]

/-- A record of such an entry. -/
def labelRecord : Node Unit :=
  .mapping [(some "finding_label_counts".py, .mapping [(some "API_KEY".py, .int 2)]),
    (some "events".py, .list
      [.mapping [(some "guardrail_information".py, .list [.mapping guardrailEntry])]])]

example : assertNoNeverFields asciiLower (.mapping [(some "Set-Cookie".py, .int 1)] : Node Unit) =
    .error (.neverField "Set-Cookie".py) := by
  decide +kernel

theorem no_never_field_labelRecord :
    assertNoNeverFields asciiLower labelRecord = .ok () ∧
      normalizeKey asciiLower "guardrail_information".py ∉ neverFields ∧
      (normalizeKey asciiLower "guardrail_information".py ∈ guardrailInformationFields →
        AllowedValue (.list [.mapping guardrailEntry])) := by
  have hpass : assertNoNeverFields asciiLower labelRecord = .ok () := by decide +kernel
  have hevents : Inside asciiLower labelRecord false (.list
      [.mapping [(some "guardrail_information".py, .list [.mapping guardrailEntry])]]) :=
    .value .root (List.mem_cons_of_mem _ List.mem_cons_self)
  have hentry := Inside.item hevents List.mem_cons_self
  exact ⟨hpass, no_never_field hpass hentry List.mem_cons_self⟩

end CorpLlmGateway.Audit
