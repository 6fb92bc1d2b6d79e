import CorpLlmGateway.RouteGate.Inflight
import CorpLlmGateway.RouteGate.Table

/-!
# Classifying a request

`route_gate/classify.py`: what the gate decides from the scope, the method and the path of a
request. Two runs are compared here, one with the operator's extra routes and one without.

* `passthrough_of_direct` — where the tables have no row, an extra only passes through;
* `extras_only_widen` — what extras can change, and what the parsed ones name.
-/

namespace CorpLlmGateway.RouteGate.Routes

/-! ## Decisions -/

/-- The `block_reason` values of the gate. -/
inductive BlockReason where
  | unlisted
  | listed
  | websocket
  | malformed
  | unarmed
  | error
  | bodyPolicies
  | bodyNotJson
deriving DecidableEq

def BlockReason.text : BlockReason → PyStr
  | .unlisted => "route_gate_unlisted".py
  | .listed => "route_gate_listed".py
  | .websocket => "route_gate_websocket".py
  | .malformed => "route_gate_malformed".py
  | .unarmed => "route_gate_unarmed".py
  | .error => "route_gate_error".py
  | .bodyPolicies => "route_gate_body_policies".py
  | .bodyNotJson => "route_gate_body_not_json".py

structure Decision where
  verdict : Verdict
  blockReason : Option BlockReason
  why : PyStr
deriving DecidableEq

/-- A refusal with its reason. -/
def refusal (reason : BlockReason) (why : PyStr) : Decision := ⟨.refuse, some reason, why⟩

def lifespan : Decision := ⟨.passthrough, none, "lifespan scope; forwarded untouched".py⟩

def unlistedRoute : Decision := refusal .unlisted "no table entry for this method and path".py

/-! ## The path -/

def encodedMalformed : List Bytes := ["%2f", "%00", "%2e%2e"].map fun s => s.toUTF8.toList

def decodedMalformed : List PyStr := ["..".py, "//".py, "\x00".py]

/-- `_malformed(path, raw_path)`. -/
def isMalformed (path : PyStr) (rawPath : Option Bytes) : Bool :=
  rawPath.any (fun raw => !raw.isEmpty &&
      (encodedMalformed.any (fun token => decide (token <:+: asciiLower raw)) ||
        raw.any fun byte => 0x7F < byte)) ||
    decodedMalformed.any fun token => decide (token <:+: path)

section

variable (C : Casing) (T : RouteTables)

/-- `_wants_websocket(upgrade_header)`. -/
def wantsWebsocket (upgradeHeader : Option PyStr) : Bool :=
  upgradeHeader.any fun header =>
    !header.isEmpty && decide ("websocket".py <:+: C.lower header)

/-! ## The route -/

/-- The operator's extra routes, if there are any. -/
abbrev Extras := Option (Dict (PyStr × PyStr) Entry)

def headNeverRewritten : Entry where
  verdict := .refuse
  why := "HEAD carries no body to rewrite; a REWRITTEN verdict cannot apply to it".py
  justification := none
  why_nonblank := ⟨.scalar 'H', by simp, by decide⟩
  justified := by simp

/-- `_direct(method, path, extras)`. -/
def direct (method path : PyStr) (extras : Extras) : Option Entry :=
  match lookup C T method path with
  | some entry => some entry
  | none =>
      match extras.bind fun extras => extras.get? (method, path) with
      | some extra => if extra.verdict = .passthrough then some extra else none
      | none => none

/-- `_resolve(method, path, extras)`. -/
def resolve (method path : PyStr) (extras : Extras) : Option Entry :=
  if method ≠ "HEAD".py then direct C T method path extras
  else
    let listed := (lookup C T "HEAD".py path).or (lookup C T "GET".py path)
    let entry := match listed with
      | some entry => some entry
      | none => (direct C T "HEAD".py path extras).or (direct C T "GET".py path extras)
    match entry with
    | none => none
    | some entry => if entry.verdict = .rewritten then some headNeverRewritten else some entry

/-- What the gate reads of a request. -/
structure Request where
  method : PyStr
  path : PyStr
  rawPath : Option Bytes
  scopeType : PyStr
  upgradeHeader : Option PyStr

/-- The decision on a route that was found or not. -/
def entryDecision : Option Entry → Decision
  | none => unlistedRoute
  | some entry =>
      if entry.verdict = .refuse then refusal .listed entry.why
      else ⟨entry.verdict, none, entry.why⟩

/-- `classify(method, path, raw_path, scope_type=…, upgrade_header=…, extras=…)`. -/
def classify (request : Request) (extras : Extras) : Decision :=
  if request.scopeType = "lifespan".py then lifespan
  else if request.scopeType = "websocket".py ∨ wantsWebsocket C request.upgradeHeader then
    refusal .websocket "websocket frames never reach the hook, so nothing is rewritten".py
  else if request.scopeType ≠ "http".py then refusal .error "unsupported ASGI scope type".py
  else if isMalformed request.path request.rawPath then
    refusal .malformed "path is encoded or traversing; it cannot be matched against the table".py
  else entryDecision (resolve C T (C.upper request.method) request.path extras)

end

/-! ## With and without extras -/

section

variable {C : Casing} {T : RouteTables} {method path : PyStr} {extras : Extras}

/-- Where the tables have a row, extras are not read. -/
theorem direct_of_listed {entry : Entry} (h : lookup C T method path = some entry) :
    direct C T method path extras = some entry := by
  simp [direct, h]

theorem direct_none (h : lookup C T method path = none) :
    direct C T method path none = none := by
  simp [direct, h]

/-- What extras add is passed through. -/
theorem passthrough_of_direct (h : lookup C T method path = none) {entry : Entry}
    (hentry : direct C T method path extras = some entry) : entry.verdict = .passthrough := by
  simp only [direct, h] at hentry
  split at hentry
  · split at hentry
    · next hpass =>
      cases hentry
      exact hpass
    · cases hentry
  · cases hentry

/-- The table rows that speak for a route: its own and, for `HEAD`, the one of `GET`. -/
def Unlisted (C : Casing) (T : RouteTables) (method path : PyStr) : Prop :=
  lookup C T method path = none ∧
    (method = "HEAD".py → lookup C T "GET".py path = none)

theorem resolve_of_ne_head (h : method ≠ "HEAD".py) :
    resolve C T method path extras = direct C T method path extras := if_pos h

/-- A `HEAD` route: the rows of both methods, then the extras of both, and no rewriting. -/
theorem resolve_head : resolve C T "HEAD".py path extras =
    ((((lookup C T "HEAD".py path).or (lookup C T "GET".py path)).or
      ((direct C T "HEAD".py path extras).or (direct C T "GET".py path extras))).map
        fun entry => if entry.verdict = .rewritten then headNeverRewritten else entry) := by
  rw [resolve, if_neg (not_not_intro rfl)]
  cases (lookup C T "HEAD".py path).or (lookup C T "GET".py path) with
  | some entry =>
    simp only [Option.some_or, Option.map_some]
    split <;> rfl
  | none =>
    simp only [Option.none_or]
    cases (direct C T "HEAD".py path extras).or (direct C T "GET".py path extras) with
    | none => rfl
    | some entry =>
      simp only [Option.map_some]
      split <;> rfl

/-- Extras change nothing unless the tables have no row; then they pass the route through. -/
theorem resolve_cases (C : Casing) (T : RouteTables) (method path : PyStr) (extras : Extras) :
    resolve C T method path extras = resolve C T method path none ∨
      Unlisted C T method path ∧ resolve C T method path none = none ∧
        ∃ entry, resolve C T method path extras = some entry ∧ entry.verdict = .passthrough := by
  by_cases hhead : method = "HEAD".py
  · subst hhead
    rw [resolve_head, resolve_head]
    cases hown : lookup C T "HEAD".py path with
    | some entry => exact .inl rfl
    | none =>
      cases hget : lookup C T "GET".py path with
      | some entry => exact .inl rfl
      | none =>
        rw [direct_none hown, direct_none hget]
        cases hextra : (direct C T "HEAD".py path extras).or (direct C T "GET".py path extras) with
        | none => exact .inl rfl
        | some entry =>
          right
          have hpass : entry.verdict = .passthrough := by
            rcases Option.or_eq_some_iff.mp hextra with h | ⟨-, h⟩
            · exact passthrough_of_direct hown h
            · exact passthrough_of_direct hget h
          have hkept : entry.verdict ≠ .rewritten := by
            rw [hpass]
            decide
          exact ⟨⟨hown, fun _ => hget⟩, rfl, entry, congrArg some (if_neg hkept), hpass⟩
  · rw [resolve_of_ne_head hhead, resolve_of_ne_head hhead]
    cases hown : lookup C T method path with
    | some entry =>
      left
      rw [direct_of_listed hown, direct_of_listed hown]
    | none =>
      rw [direct_none hown]
      cases hextra : direct C T method path extras with
      | none => exact .inl rfl
      | some entry =>
        right
        exact ⟨⟨hown, fun h => absurd h hhead⟩, rfl, entry, rfl,
          passthrough_of_direct hown hextra⟩

theorem not_rewritten_of_head {entry : Entry}
    (h : resolve C T "HEAD".py path extras = some entry) : entry.verdict ≠ .rewritten := by
  rw [resolve_head, Option.map_eq_some_iff] at h
  obtain ⟨found, -, rfl⟩ := h
  split
  · exact Verdict.noConfusion
  · next hverdict => exact hverdict

end

theorem entryDecision_verdict_ne {route : Option Entry}
    (h : ∀ entry, route = some entry → entry.verdict ≠ .rewritten) :
    (entryDecision route).verdict ≠ .rewritten := by
  cases route with
  | none => exact Verdict.noConfusion
  | some entry =>
    rw [entryDecision]
    split
    · exact Verdict.noConfusion
    · exact h entry rfl

/-- Behind the checks of the scope and of the path, only the resolved route decides. -/
theorem classify_cases (C : Casing) (T : RouteTables) (request : Request) :
    (∃ d : Decision, d.verdict ≠ .rewritten ∧ ∀ extras, classify C T request extras = d) ∨
      ∀ extras, classify C T request extras =
        entryDecision (resolve C T (C.upper request.method) request.path extras) := by
  unfold classify
  split
  · exact .inl ⟨lifespan, Verdict.noConfusion, fun _ => rfl⟩
  split
  · exact .inl ⟨_, Verdict.noConfusion, fun _ => rfl⟩
  split
  · exact .inl ⟨_, Verdict.noConfusion, fun _ => rfl⟩
  split
  · exact .inl ⟨_, Verdict.noConfusion, fun _ => rfl⟩
  · exact .inr fun _ => rfl

/-- **Extras only widen unlisted routes to pass-through.** Where the decision with extras
differs from the one without, the route was refused as unlisted, the tables have no row for
it, and with extras it passes through; a `HEAD` request is never rewritten; and what
`parse_extras` returns names no route that the tables refuse. -/
theorem extras_only_widen (C : Casing) (T : RouteTables) :
    (∀ request extras, classify C T request (some extras) ≠ classify C T request none →
      classify C T request none = unlistedRoute ∧
        Unlisted C T (C.upper request.method) request.path ∧
        (classify C T request (some extras)).verdict = .passthrough) ∧
      (∀ request extras, C.upper request.method = "HEAD".py →
        (classify C T request extras).verdict ≠ .rewritten) ∧
      ∀ raw extras, parseExtras C T raw = .ok extras → ∀ key ∈ extras.keys,
        (∀ entry, lookup C T key.1 key.2 = some entry → entry.verdict ≠ .refuse) ∧
          (key.1 = "HEAD".py →
            ∀ entry, lookup C T "GET".py key.2 = some entry → entry.verdict ≠ .refuse) := by
  refine ⟨?_, ?_, ?_⟩
  · intro request extras hdiffer
    rcases classify_cases C T request with ⟨d, -, hfixed⟩ | hroute
    · rw [hfixed, hfixed] at hdiffer
      exact absurd rfl hdiffer
    · rw [hroute, hroute] at hdiffer
      rw [hroute, hroute]
      rcases resolve_cases C T (C.upper request.method) request.path (some extras) with
        hsame | ⟨hunlisted, hnone, entry, hentry, hpass⟩
      · rw [hsame] at hdiffer
        exact absurd rfl hdiffer
      · rw [hnone, hentry]
        refine ⟨rfl, hunlisted, ?_⟩
        simp [entryDecision, hpass]
  · intro request extras hhead
    rcases classify_cases C T request with ⟨d, hd, hfixed⟩ | hroute
    · rw [hfixed]
      exact hd
    · rw [hroute, hhead]
      exact entryDecision_verdict_ne fun entry => not_rewritten_of_head
  · intro raw extras hparse key hkey
    exact refused_eq_false.mp (parseExtras_keys hparse key hkey)

/-- One rewritten route and one that is refused by its template. -/
def smallTables : RouteTables where
  litellm := ⟨[(("POST".py, "/v1/messages".py), ⟨.rewritten, "messages".py, none,
    ⟨.scalar 'm', by simp, by decide⟩, by simp⟩)], by simp⟩
  gateway := .empty
  patterns := [regex "GET".py "/files/\x7bfile_id:path\x7d".py ⟨.refuse, "files".py, none,
    ⟨.scalar 'f', by simp, by decide⟩, by simp⟩]

/-- `str.upper` and `str.lower` leave these texts as they are. -/
def asIs : Casing := ⟨id, id⟩

example : parseExtras asIs smallTables (.text "GET /files/a/b".py) =
    .error (refusedItem 1 "GET".py "/files/a/b".py) := by
  rfl

theorem extras_only_widen_docs :
    let extras : Dict (PyStr × PyStr) Entry :=
      ⟨[(("GET".py, "/docs".py), operatorExtra "GET".py "/docs".py)], by simp⟩
    let request : Request := ⟨"HEAD".py, "/docs".py, none, "http".py, none⟩
    parseExtras asIs smallTables (.text "GET /docs".py) = .ok extras ∧
      classify asIs smallTables request (some extras) ≠ classify asIs smallTables request none ∧
      (classify asIs smallTables request none = unlistedRoute ∧
        Unlisted asIs smallTables "HEAD".py "/docs".py ∧
        (classify asIs smallTables request (some extras)).verdict = .passthrough) ∧
      (classify asIs smallTables request (some extras)).verdict ≠ .rewritten ∧
      ∀ entry, lookup asIs smallTables "GET".py "/docs".py = some entry → entry.verdict ≠ .refuse := by
  intro extras request
  have hparse : parseExtras asIs smallTables (.text "GET /docs".py) = .ok extras := rfl
  have hdiffer : classify asIs smallTables request (some extras) ≠
      classify asIs smallTables request none := by
    decide +kernel
  obtain ⟨hwiden, hhead, hnames⟩ := extras_only_widen asIs smallTables
  exact ⟨hparse, hdiffer, hwiden request extras hdiffer, hhead request (some extras) rfl,
    (hnames _ extras hparse ("GET".py, "/docs".py) (by simp [extras, Dict.keys])).1⟩

end CorpLlmGateway.RouteGate.Routes
