import CorpLlmGateway.Sanitizer.ContentHash
import CorpLlmGateway.Sanitizer.LocalPass
import CorpLlmGateway.Sanitizer.Merge
import CorpLlmGateway.Storage.InMemory

/-!
# The sanitization orchestrator

The model of `SanitizationOrchestrator` of `sanitizer/orchestrator.py`: the detection
cascade over one text, the paths for texts above the size threshold, and `sanitize`
itself with its reads and writes of the mapping store. The corp LLM, the rules
loader, the gazetteer and the detectors are deterministic functions that may fail.

* `oracle_only_if_enabled` — the oracle is asked only when it is enabled, and with a client;
* `iterOverlappingChunks_windows` — the windows of a long text cover it with an overlap;
* `detect_congr` — the conversation enters detection through sampling alone.
-/

namespace CorpLlmGateway.Sanitizer

open TextScan Hash Results CorpLlmGateway.Detectors CorpLlmGateway.Storage
open Unicode (utf8)

/-! ## Configuration -/

/-- A normalized `CORP_LLM_ORACLE_TRIGGER`. -/
inductive OracleTrigger where
  | gazetteerHit
  | anyLocalFinding
  | always
  | sampled (pct : Fin 101)
deriving DecidableEq, Repr

/-- A normalized `CORP_LLM_OVERSIZE_POLICY`. -/
inductive OversizePolicy where
  | failClosed
  | chunk
  | deliverFlag
deriving DecidableEq, Repr

inductive SanitizeError where
  | rules (message : String)
  | detection (error : DetectionError)
  | oracle (message : String)
  | staleSpan (error : StaleSpanError)
  | oversizeContent (contentBytes thresholdBytes : ℕ)
  | chunkWindow (window overlap : ℕ)
  | digits (error : Merge.DigitsError)
  | noDetection
  | noClient
deriving DecidableEq, Repr

/-- The text of an error that the orchestrator itself raises. -/
def SanitizeError.message : SanitizeError → String
  | .rules message | .oracle message => message
  | .detection (.contract message) | .detection (.detector message) => message
  | .staleSpan error => error.message
  | .digits error => error.message
  | .oversizeContent contentBytes thresholdBytes =>
      "content " ++ toString contentBytes ++ " bytes exceeds threshold " ++
        toString thresholdBytes ++ " bytes"
  | .chunkWindow window overlap =>
      "chunk window " ++ toString window ++ " must exceed overlap " ++ toString overlap
  | .noDetection =>
      "oracle disabled (CORP_LLM_ORACLE_ENABLED=0) but this orchestrator " ++
        "has no local detection configured — nothing left to sanitize with; " ++
        "pass local_detectors and/or a gazetteer, or enable the oracle"
  | .noClient => ""

/-- `SanitizationOrchestrator`. `corpLlm` answers a system prompt and a user text with
the pairs extracted from the completion; `policyFingerprint` is `none` if it could not
be computed, which turns Cache A off. -/
structure SanitizationOrchestrator where
  corpLlm : Option (Text → Text → Except String (List Pair))
  rulesLoader : Text → Except String Rules
  cacheATtl : ℕ
  cacheBTtl : ℕ
  sizeThreshold : ℕ
  oversizePolicy : OversizePolicy
  oversizeDeliverTeams : List Text
  chunkWindow : ℕ
  chunkOverlap : ℕ
  localDetectors : List Detector
  codeSafeDetectors : Option (List Detector)
  gazetteer : Option (Text → Except DetectionError (List Finding))
  allowlist : Option (List Text)
  oracleTrigger : OracleTrigger
  oracleEnabled : Bool
  policyFingerprint : Option Digest
  -- an enabled oracle needs a client, or the constructor raises
  client : oracleEnabled = true → corpLlm.isSome = true

/-- The arguments of `sanitize`, with the times at which it reads and writes the store. -/
structure Request where
  text : Text
  teamId : Text
  conversationId : Text
  profileFingerprint : Option Text
  readAt : ℚ
  writeAt : ℚ

structure SanitizeResult where
  sanitizedText : Text
  pairs : List Pair
  cacheAHit : Bool
  skipped : Bool
  blockReason : Option String
  appliedSpans : List AppliedSpan
  ruleOriginals : Finset Text
deriving DecidableEq

def oversizeDeliveredReason : String := "oversize:delivered"

/-- The result that is returned for a plan. -/
def ReplacementPlan.result (plan : ReplacementPlan) (cacheAHit : Bool) : SanitizeResult :=
  ⟨plan.sanitizedText, plan.pairs, cacheAHit, false, none, plan.spans, plan.ruleOriginals⟩

/-- `SANITIZE_TOOL_NAME`. -/
def sanitizeToolName : String := "report_pii_findings"

/-- `_build_system_prompt(rules)`. -/
def buildSystemPrompt (rules : Rules) : Text :=
  let lines : List Text :=
    ["You are a corp-confidential PII / sensitive-term redactor.",
      "Identify all PII or corp-confidential terms in the user's input and",
      "call the '" ++ sanitizeToolName ++ "' tool with their (original, replacement)",
      "pairs. Use placeholders like [LABEL_NNN]. Apply these team-specific",
      "rules with priority — they OVERRIDE your judgment when they match:",
      ""].map String.toList
  let ruleLines := rules.map fun rule =>
    "- `".toList ++ rule.pattern ++ "` → `".toList ++ rule.replacement ++ "`".toList
  let noRules :=
    if rules.isEmpty then ["(no team-specific rules; use general PII judgment only)".toList] else []
  ['\n'].intercalate (lines ++ ruleLines ++ noRules)

/-- `_sample_selected(seed, pct)`. -/
def sampleSelected (seed : Text) (pct : ℕ) : Bool :=
  if pct ≤ 0 then false
  else if 100 ≤ pct then true
  else (sha256 (utf8 seed)).leading % 100 < pct

/-- The seed of a request. -/
def sampleSeed (conversationId text : Text) : Text := conversationId ++ '\x1f' :: text

/-- `tuple(dict.fromkeys((m.original, m.replacement) for m in rule_matches))`. -/
def rulesPairs (found : List MatchedRule) : List Pair :=
  (Dict.ofPairs (found.map fun m => ((m.original, m.replacement), ()))).keys

/-- The windows of `_iter_overlapping_chunks` from `start` on. -/
def chunksFrom (text : Text) (window step : ℕ) (hstep : 0 < step) (start : ℕ) : List Text :=
  slice text start (start + window) ::
    if text.length ≤ start + window then []
    else chunksFrom text window step hstep (start + step)
termination_by text.length - start

/-- `_iter_overlapping_chunks(text, window, overlap)`. -/
def iterOverlappingChunks (text : Text) (window overlap : ℕ) :
    Except SanitizeError (List Text) :=
  if h : window - overlap ≤ 0 then .error (.chunkWindow window overlap)
  else .ok (chunksFrom text window (window - overlap) (Nat.lt_of_not_le h) 0)

/-- `should_skip_sanitization(content_bytes, threshold_bytes)`. -/
def shouldSkipSanitization (contentBytes thresholdBytes : ℕ) : Bool := thresholdBytes < contentBytes

/-! ## Windows -/

/-- The windows start at multiples of the step, and only the last one reaches the end. -/
theorem chunksFrom_eq (text : Text) (window step : ℕ) (hstep : 0 < step) (start : ℕ) :
    ∃ m, chunksFrom text window step hstep start =
        ((List.range (m + 1)).map fun k =>
          slice text (start + k * step) (start + k * step + window)) ∧
      (∀ k < m, start + k * step + window < text.length) ∧
      text.length ≤ start + m * step + window := by
  fun_induction chunksFrom text window step hstep start with
  | case1 start ih =>
    by_cases hend : text.length ≤ start + window
    · refine ⟨0, ?_, by simp, by simpa using hend⟩
      rw [if_pos hend]
      simp
    · obtain ⟨m, hchunks, hbefore, hlast⟩ := ih hend
      refine ⟨m + 1, ?_, ?_, ?_⟩
      · rw [if_neg hend, hchunks, List.range_succ_eq_map (n := m + 1), List.map_cons, List.map_map]
        simp only [Nat.zero_mul, Nat.add_zero, List.cons.injEq, true_and]
        apply List.map_congr_left
        intro k hk
        simp only [Function.comp_apply, Nat.succ_eq_add_one, Nat.add_mul, Nat.one_mul]
        congr 1 <;> omega
      · intro k hk
        cases k with
        | zero => simpa using Nat.lt_of_not_le hend
        | succ k =>
          have hk' := hbefore k (Nat.lt_of_succ_lt_succ hk)
          rw [Nat.add_mul, Nat.one_mul]
          omega
      · rw [Nat.add_mul, Nat.one_mul]
        omega

/-- **Overlapping windows.** They are slices that advance by a fixed step, up to the first that
reaches the end of the text; they cover it, and every piece that is no longer than the overlap
lies wholly inside one of them. -/
theorem iterOverlappingChunks_windows (text : Text) {window overlap : ℕ} (h : overlap < window) :
    ∃ m, let start := fun k => k * (window - overlap)
      let chunk := fun k => slice text (start k) (start k + window)
      iterOverlappingChunks text window overlap = .ok ((List.range (m + 1)).map chunk) ∧
      (∀ k < m, start k + window < text.length) ∧ text.length ≤ start m + window ∧
      (∀ p < text.length, ∃ k ≤ m, start k ≤ p ∧ p < start k + window) ∧
      ∀ i j, i ≤ j → j ≤ text.length → j - i ≤ overlap →
        ∃ k ≤ m, start k ≤ i ∧ j ≤ start k + window ∧
          slice (chunk k) (i - start k) (j - start k) = slice text i j := by
  have hstep : 0 < window - overlap := Nat.sub_pos_of_lt h
  obtain ⟨m, hchunks, hbefore, hlast⟩ := chunksFrom_eq text window (window - overlap) hstep 0
  simp only [Nat.zero_add] at hchunks hbefore hlast
  -- the window for a position: the last one that starts up to it
  have hwindow : ∀ i, ∃ k ≤ m, k * (window - overlap) ≤ i ∧
      (i < k * (window - overlap) + (window - overlap) ∨ k = m) := by
    intro i
    have hdiv := Nat.div_mul_le_self i (window - overlap)
    rcases Nat.le_total (i / (window - overlap)) m with hle | hge
    · exact ⟨_, hle, hdiv, .inl (Nat.lt_div_mul_add hstep)⟩
    · exact ⟨m, le_rfl, (Nat.mul_le_mul_right _ hge).trans hdiv, .inr rfl⟩
  refine ⟨m, ?_, hbefore, hlast, ?_, ?_⟩
  · rw [iterOverlappingChunks, dif_neg (Nat.not_le.mpr hstep), hchunks]
  · intro p hp
    obtain ⟨k, hk, hstart, hnext⟩ := hwindow p
    refine ⟨k, hk, hstart, ?_⟩
    show p < k * (window - overlap) + window
    rcases hnext with hnext | rfl
    · omega
    · omega
  · intro i j hij hj hlen
    obtain ⟨k, hk, hstart, hnext⟩ := hwindow i
    have hinside : j ≤ k * (window - overlap) + window := by
      rcases hnext with hnext | rfl
      · omega
      · omega
    refine ⟨k, hk, hstart, hinside, ?_⟩
    have hend : k * (window - overlap) + (j - k * (window - overlap)) = j :=
      Nat.add_sub_cancel' (hstart.trans hij)
    rw [slice_slice (hend.le.trans hinside), Nat.add_sub_cancel' hstart, hend]

/-- A text of two windows and a piece at their seam. -/
theorem iterOverlappingChunks_windows_seam :
    2 < 4 ∧ ∃ k, slice (slice "abcdef".toList (k * 2) (k * 2 + 4)) (3 - k * 2) (5 - k * 2) =
      slice "abcdef".toList 3 5 := by
  obtain ⟨m, -, -, -, -, hpieces⟩ :=
    iterOverlappingChunks_windows "abcdef".toList (by decide : 2 < 4)
  obtain ⟨k, -, -, -, hpiece⟩ := hpieces 3 5 (by decide) (by decide) (by decide)
  exact ⟨by decide, k, hpiece⟩

namespace SanitizationOrchestrator

/-! ## Detection -/

/-- `self._local`. -/
def localPass (o : SanitizationOrchestrator) : Option LocalDetectionPass :=
  if o.localDetectors.isEmpty then none else some (.init o.localDetectors o.codeSafeDetectors)

/-- `self._chunk_local`: the pass without the regex detector. -/
def chunkLocal (o : SanitizationOrchestrator) : Option LocalDetectionPass :=
  let chunkDetectors := o.localDetectors.filter fun d => !d.isRegexChecksum
  let chunkCodeSafe := o.codeSafeDetectors.map fun ds => ds.filter fun d => !d.isRegexChecksum
  if chunkDetectors.isEmpty then none else some (.init chunkDetectors chunkCodeSafe)

/-- `_call_corp_llm(text, rules)`. -/
def callCorpLlm (o : SanitizationOrchestrator) (text : Text) (rules : Rules) :
    Except SanitizeError (List Pair) :=
  match o.corpLlm with
  | none => .error .noClient
  | some corpLlm => (corpLlm (buildSystemPrompt rules) text).mapError .oracle

/-- `_oracle_should_run(...)`. -/
def oracleShouldRun (o : SanitizationOrchestrator) (gazFindings localFindings : List Finding)
    (rulesPairs : List Pair) (conversationId text : Text) : Bool :=
  if !o.oracleEnabled then false
  else if !gazFindings.isEmpty then true
  else
    match o.oracleTrigger with
    | .sampled pct => sampleSelected (sampleSeed conversationId text) pct
    | .always => true
    | .anyLocalFinding => !localFindings.isEmpty || !rulesPairs.isEmpty
    | .gazetteerHit => false

/-- The findings of a pass that may not be configured. -/
def passFindings (pass : Option LocalDetectionPass) (text : Text) :
    Except SanitizeError (List Finding) :=
  match pass with
  | none => .ok []
  | some pass => (pass.findings text).mapError .detection

/-- The branch of `_detect` with a gazetteer. -/
def gazetteerPairs (o : SanitizationOrchestrator)
    (gazetteer : Text → Except DetectionError (List Finding)) (pass : Option LocalDetectionPass)
    (text : Text) (rules : Rules) (conversationId : Text) (rulesPairs : List Pair) :
    Except SanitizeError (List Pair) := do
  let gazFindings ← (gazetteer text).mapError .detection
  let localFindings ← passFindings pass text
  let combined := deduplicate (localFindings ++ gazFindings)
  if o.oracleShouldRun gazFindings localFindings rulesPairs conversationId text then
    let oraclePairs ← o.callCorpLlm text rules
    (mergeLocal (rulesPairs ++ oraclePairs) combined).mapError .digits
  else
    (mergeLocal rulesPairs combined).mapError .digits

/-- The branch of `_detect` with local detectors only. -/
def localPairs (o : SanitizationOrchestrator) (pass : LocalDetectionPass) (text : Text)
    (rules : Rules) (rulesPairs : List Pair) : Except SanitizeError (List Pair) := do
  if o.oracleEnabled then
    let oraclePairs ← o.callCorpLlm text rules
    let localFindings ← (pass.findings text).mapError .detection
    (mergeLocal (rulesPairs ++ oraclePairs) localFindings).mapError .digits
  else
    let localFindings ← (pass.findings text).mapError .detection
    (mergeLocal rulesPairs localFindings).mapError .digits

/-- The branch of `_detect` with neither. -/
def oraclePairs (o : SanitizationOrchestrator) (text : Text) (rules : Rules)
    (rulesPairs : List Pair) : Except SanitizeError (List Pair) := do
  if !o.oracleEnabled then
    throw .noDetection
  let oraclePairs ← o.callCorpLlm text rules
  return rulesPairs ++ oraclePairs

/-- The branches of `_detect`. -/
def mergedPairs (o : SanitizationOrchestrator) (pass : Option LocalDetectionPass) (text : Text)
    (rules : Rules) (conversationId : Text) (rulesPairs : List Pair) :
    Except SanitizeError (List Pair) :=
  match o.gazetteer, pass with
  | some gazetteer, pass => o.gazetteerPairs gazetteer pass text rules conversationId rulesPairs
  | none, some pass => o.localPairs pass text rules rulesPairs
  | none, none => o.oraclePairs text rules rulesPairs

/-- The pairs that an optional allowlist keeps. -/
def filterPairs (o : SanitizationOrchestrator) (pairs : List Pair) : List Pair :=
  match o.allowlist with
  | none => pairs
  | some allowed => Allowlist.filterPairs allowed pairs

/-- `_detect(text, rules, ...)`; without `found` the rules are matched here. -/
def detect (o : SanitizationOrchestrator) (text : Text) (rules : Rules) (conversationId : Text)
    (chunked : Bool) (found : Option (List MatchedRule)) : Except SanitizeError (List Pair) := do
  let pass := if chunked then o.chunkLocal else o.localPass
  let rulesPairs := rulesPairs (found.getD (ruleMatches rules text))
  let pairs ← o.mergedPairs pass text rules conversationId rulesPairs
  return o.filterPairs pairs

/-! ## Texts above the threshold -/

/-- The variables that `_absorb` writes. -/
structure ChunkState where
  allocator : RequestPlaceholderAllocator
  pairs : List Pair
  seenOriginals : List Text

/-- The body of the loop of `_absorb`. -/
def absorbPair (r : List Pair × ChunkState) (pair : Pair) : List Pair × ChunkState :=
  if pair.1 ∈ r.2.seenOriginals then r
  else (r.1 ++ [pair],
    { r.2 with
      pairs := r.2.pairs ++ [pair]
      seenOriginals := r.2.seenOriginals ++ [pair.1] })

/-- `_absorb(candidate)`: the pairs it accepts. -/
def absorb (exempt : List Text) (s : ChunkState) (candidate : List Pair) :
    List Pair × ChunkState :=
  let r := s.allocator.remap exempt candidate
  r.1.foldl absorbPair ([], { s with allocator := r.2 })

/-- The plan of `_sanitize_chunked(text, rules, ...)`. -/
def chunkedPlan (o : SanitizationOrchestrator) (text : Text) (rules : Rules)
    (conversationId : Text) : Except SanitizeError ReplacementPlan := do
  let globalRuleMatches := ruleMatches rules text
  let globalRulePairs := o.filterPairs (rulesPairs globalRuleMatches)
  let exempt := globalRulePairs.map Prod.fst
  let ofRules := absorb exempt ⟨.init, [], []⟩ globalRulePairs
  let activeRuleOrigins := (ofRules.1.map Prod.fst).toFinset
  -- the regex detector sees the whole text, the other detectors one window at a time
  let regexPairs ← (mergeLocal [] (Detectors.detect text)).mapError .digits
  let ofRegex := absorb exempt ofRules.2 regexPairs
  let chunks ← iterOverlappingChunks text o.chunkWindow o.chunkOverlap
  let final ← chunks.foldlM (fun s chunk => do
    let pairs ← o.detect chunk rules conversationId true none
    return (absorb exempt s pairs).2) ofRegex.2
  (planReplacements text final.pairs globalRuleMatches (some activeRuleOrigins)).mapError .staleSpan

/-- `_scan_findings(text, rules, ...)`. -/
def scanFindings (o : SanitizationOrchestrator) (text : Text) (rules : Rules)
    (conversationId : Text) : Except SanitizeError (List Finding) := do
  let gazFindings ←
    match o.gazetteer with
    | none => pure []
    | some gazetteer => (gazetteer text).mapError SanitizeError.detection
  let localFindings ← passFindings o.localPass text
  let found := ruleMatches rules text
  let findings := Detectors.detect text ++ gazFindings ++ localFindings ++
    found.map fun m => ⟨m.original, "RULE".toList, m.start, m.stop, 1⟩
  let oracleRuns :=
    if o.gazetteer.isSome then
      o.oracleShouldRun gazFindings localFindings (rulesPairs found) conversationId text
    else o.oracleEnabled
  if oracleRuns then
    let oraclePairs ← o.callCorpLlm text rules
    return findings ++ oraclePairs.map fun e => ⟨e.1, "ORACLE".toList, 0, e.1.length, 1⟩
  else
    return findings

/-- `_deliver_oversize(text, rules, ...)`. -/
def deliverOversize (o : SanitizationOrchestrator) (text : Text) (rules : Rules)
    (conversationId : Text) (contentBytes : ℕ) : Except SanitizeError SanitizeResult := do
  let findings ← o.scanFindings text rules conversationId
  if !findings.isEmpty then
    throw (.oversizeContent contentBytes o.sizeThreshold)
  return ⟨text, [], false, true, some oversizeDeliveredReason, [], ∅⟩

/-! ## Sanitizing -/

/-- `_record_conversation_mappings(conversation_id, pairs)`. -/
def recordConversationMappings (o : SanitizationOrchestrator) (now : ℚ) (conversationId : Text)
    (pairs : List Pair) (store : InMemoryMappingStore) : InMemoryMappingStore :=
  pairs.foldl (fun s e => s.put now conversationId e.1 e.2 o.cacheBTtl) store

/-- `_handle_oversize(text, ...)`. -/
def handleOversize (o : SanitizationOrchestrator) (req : Request) (contentBytes : ℕ)
    (store : InMemoryMappingStore) :
    Except SanitizeError SanitizeResult × InMemoryMappingStore :=
  match o.oversizePolicy with
  | .chunk =>
      match o.rulesLoader req.teamId with
      | .error message => (.error (.rules message), store)
      | .ok rules =>
          match o.chunkedPlan req.text rules req.conversationId with
          | .error e => (.error e, store)
          | .ok plan => (.ok (plan.result false),
              o.recordConversationMappings req.writeAt req.conversationId plan.pairs store)
  | .deliverFlag =>
      if o.oversizeDeliverTeams.contains req.teamId then
        match o.rulesLoader req.teamId with
        | .error message => (.error (.rules message), store)
        | .ok rules => (o.deliverOversize req.text rules req.conversationId contentBytes, store)
      else (.error (.oversizeContent contentBytes o.sizeThreshold), store)
  | .failClosed => (.error (.oversizeContent contentBytes o.sizeThreshold), store)

/-- The fields of the Cache A key of a request, unless Cache A is off. -/
def keyFields (o : SanitizationOrchestrator) (req : Request) (rules : Rules) : Option KeyFields :=
  o.policyFingerprint.map fun fingerprint =>
    ⟨req.teamId, rules, req.text, req.profileFingerprint, o.oracleEnabled, fingerprint⟩

/-- The plan of a request that Cache A does not answer. -/
def freshPlan (o : SanitizationOrchestrator) (req : Request) (rules : Rules) :
    Except SanitizeError ReplacementPlan := do
  let found := ruleMatches rules req.text
  let pairs ← o.detect req.text rules req.conversationId false (some found)
  (planReplacements req.text pairs found none).mapError .staleSpan

/-- `get_dedup` if there is a hash. -/
def readCacheA (store : InMemoryMappingStore) (now : ℚ) (hash : Option Digest) :
    Option (List Pair) × InMemoryMappingStore :=
  match hash with
  | none => (none, store)
  | some h => store.getDedup now h

/-- `set_dedup` if there is a hash. -/
def writeCacheA (o : SanitizationOrchestrator) (store : InMemoryMappingStore) (now : ℚ)
    (hash : Option Digest) (pairs : List Pair) : InMemoryMappingStore :=
  match hash with
  | none => store
  | some h => store.setDedup now h pairs o.cacheATtl

/-- `sanitize(text, team_id=..., conversation_id=..., profile_fingerprint=...)`. -/
def sanitize (o : SanitizationOrchestrator) (req : Request) (store : InMemoryMappingStore) :
    Except SanitizeError SanitizeResult × InMemoryMappingStore :=
  let contentBytes := (utf8 req.text).length
  if shouldSkipSanitization contentBytes o.sizeThreshold then
    o.handleOversize req contentBytes store
  else
    match o.rulesLoader req.teamId with
    | .error message => (.error (.rules message), store)
    | .ok rules =>
        let hash := (o.keyFields req rules).map contentHash
        let read := readCacheA store req.readAt hash
        match read.1 with
        | some cached =>
            match planReplacements req.text cached (ruleMatches rules req.text) none with
            | .error e => (.error (.staleSpan e), read.2)
            | .ok plan => (.ok (plan.result true),
                o.recordConversationMappings req.writeAt req.conversationId plan.pairs read.2)
        | none =>
            match o.freshPlan req rules with
            | .error e => (.error e, read.2)
            | .ok plan =>
                let stored := o.writeCacheA read.2 req.writeAt hash plan.pairs
                (.ok (plan.result false),
                  o.recordConversationMappings req.writeAt req.conversationId plan.pairs stored)

/-- The store after a history of calls. -/
def sanitizeAll (o : SanitizationOrchestrator) (history : List Request)
    (store : InMemoryMappingStore) : InMemoryMappingStore :=
  history.foldl (fun s req => (o.sanitize req s).2) store

/-! ## The oracle client -/

/-- An orchestrator with the regex detector and an oracle that is always asked and knows
nothing. -/
def alwaysAsking : SanitizationOrchestrator where
  corpLlm := some fun _ _ => .ok []
  rulesLoader := fun _ => .ok []
  cacheATtl := 36000
  cacheBTtl := 3600
  sizeThreshold := 100 * 1024
  oversizePolicy := .deliverFlag
  oversizeDeliverTeams := ["team".toList]
  chunkWindow := 33280
  chunkOverlap := 8320
  localDetectors := [regexChecksumDetector]
  codeSafeDetectors := none
  gazetteer := some fun _ => .ok []
  allowlist := none
  oracleTrigger := .always
  oracleEnabled := true
  policyFingerprint := none
  client := fun _ => rfl

/-- One that samples half of the texts without a gazetteer hit, with an oracle that knows
one name. -/
def halfSampled : SanitizationOrchestrator :=
  { alwaysAsking with
    corpLlm := some fun _ _ => .ok [("bob".toList, "[NAME_001]".toList)]
    localDetectors := []
    oracleTrigger := .sampled 50
    policyFingerprint := some zeroPolicy
    client := fun _ => rfl }

variable (o : SanitizationOrchestrator)

theorem oracleShouldRun_enabled {gazFindings localFindings : List Finding}
    {rulesPairs : List Pair} {conversationId text : Text}
    (h : o.oracleShouldRun gazFindings localFindings rulesPairs conversationId text = true) :
    o.oracleEnabled = true := by
  unfold oracleShouldRun at h
  split at h
  · exact absurd h (by simp)
  · next hoff => simpa using hoff

theorem callCorpLlm_ne_noClient (henabled : o.oracleEnabled = true) (text : Text)
    (rules : Rules) : o.callCorpLlm text rules ≠ .error .noClient := by
  obtain ⟨corpLlm, hclient⟩ := Option.isSome_iff_exists.mp (o.client henabled)
  rw [callCorpLlm, hclient]
  exact mapError_ne _ nofun

theorem passFindings_ne_noClient (pass : Option LocalDetectionPass) (text : Text) :
    passFindings pass text ≠ .error .noClient := by
  cases pass with
  | none => exact nofun
  | some pass => exact mapError_ne _ nofun

theorem detect_ne_noClient (text : Text) (rules : Rules) (conversationId : Text) (chunked : Bool)
    (found : Option (List MatchedRule)) :
    o.detect text rules conversationId chunked found ≠ .error .noClient := by
  refine bind_ne_error ?_ nofun
  unfold mergedPairs
  split
  · refine bind_ne_error (mapError_ne _ nofun) fun gazFindings => ?_
    refine bind_ne_error (passFindings_ne_noClient _ _) fun localFindings => ?_
    split
    · next hrun =>
      exact bind_ne_error (o.callCorpLlm_ne_noClient (o.oracleShouldRun_enabled hrun) _ _)
        fun _ => mapError_ne _ nofun
    · exact mapError_ne _ nofun
  · unfold localPairs
    split
    · next hon =>
      refine bind_ne_error (o.callCorpLlm_ne_noClient hon _ _) fun _ => ?_
      exact bind_ne_error (mapError_ne _ nofun) fun _ => mapError_ne _ nofun
    · exact bind_ne_error (mapError_ne _ nofun) fun _ => mapError_ne _ nofun
  · unfold oraclePairs
    cases hon : o.oracleEnabled with
    | false => exact nofun
    | true => exact bind_ne_error (o.callCorpLlm_ne_noClient hon _ _) nofun

theorem scanFindings_ne_noClient (text : Text) (rules : Rules) (conversationId : Text) :
    o.scanFindings text rules conversationId ≠ .error .noClient := by
  -- the oracle, once it is asked
  have hasked : ∀ (run : Bool) (findings : List Finding), (run = true → o.oracleEnabled = true) →
      (if run then
          o.callCorpLlm text rules >>= fun oraclePairs =>
            pure (findings ++ oraclePairs.map fun e => ⟨e.1, "ORACLE".toList, 0, e.1.length, 1⟩)
        else pure findings) ≠ .error .noClient := by
    intro run findings hon
    cases run with
    | false => exact nofun
    | true => exact bind_ne_error (o.callCorpLlm_ne_noClient (hon rfl) _ _) nofun
  unfold scanFindings
  cases o.gazetteer with
  | none =>
    refine bind_ne_error nofun fun _ => ?_
    exact bind_ne_error (passFindings_ne_noClient _ _) fun _ => hasked _ _ id
  | some gazetteer =>
    refine bind_ne_error (mapError_ne _ nofun) fun _ => ?_
    exact bind_ne_error (passFindings_ne_noClient _ _) fun _ => hasked _ _ o.oracleShouldRun_enabled

/-- The orchestrator with another client, which it does not need. -/
def withClient (hoff : o.oracleEnabled = false)
    (corpLlm : Option (Text → Text → Except String (List Pair))) : SanitizationOrchestrator :=
  { o with corpLlm := corpLlm, client := fun hon => absurd (hoff.symm.trans hon) Bool.false_ne_true }

/-- **The corporate model is asked only when the oracle is enabled.** The assertion of
`_call_corp_llm` never fails, in detection or in the scan; and without the oracle neither depends
on what the client would answer, or on whether there is one. -/
theorem oracle_only_if_enabled (text : Text) (rules : Rules) (conversationId : Text) :
    ((∀ chunked found, o.detect text rules conversationId chunked found ≠ .error .noClient) ∧
      o.scanFindings text rules conversationId ≠ .error .noClient) ∧
    ∀ (hoff : o.oracleEnabled = false) corpLlm,
      (∀ chunked found, (o.withClient hoff corpLlm).detect text rules conversationId chunked found =
        o.detect text rules conversationId chunked found) ∧
      (o.withClient hoff corpLlm).scanFindings text rules conversationId =
        o.scanFindings text rules conversationId := by
  refine ⟨⟨fun chunked found => o.detect_ne_noClient text rules conversationId chunked found,
    o.scanFindings_ne_noClient text rules conversationId⟩, fun hoff corpLlm => ⟨?_, ?_⟩⟩
  · intro chunked found
    have hmerged : ∀ pass rulesPairs,
        (o.withClient hoff corpLlm).mergedPairs pass text rules conversationId rulesPairs =
          o.mergedPairs pass text rules conversationId rulesPairs := by
      intro pass rulesPairs
      simp only [mergedPairs, gazetteerPairs, localPairs, oraclePairs, oracleShouldRun, withClient,
        hoff]
      rfl
    simp only [detect, hmerged]
    rfl
  · simp [scanFindings, oracleShouldRun, localPass, withClient, hoff]

/-- The regex detector alone finds a card number, with the client taken away. -/
theorem oracle_only_if_enabled_off :
    let o : SanitizationOrchestrator :=
      { alwaysAsking with oracleEnabled := false, client := fun _ => rfl }
    let text := "4111 1111 1111 1111".toList
    ∃ hoff : o.oracleEnabled = false,
      (o.detect text [] "c1".toList false none).map (List.map Prod.snd) =
        .ok ["[BANK_CARD_001]".toList] ∧
      (o.withClient hoff none).detect text [] "c1".toList false none =
        o.detect text [] "c1".toList false none := by
  intro o text
  exact ⟨rfl, by decide +kernel, ((o.oracle_only_if_enabled text [] _).2 rfl none).1 false none⟩

/-! ## What detection depends on -/

/-- The text is one for which sampling may decide about the oracle: the oracle is
enabled and the gazetteer finds nothing. -/
def SamplingDecides (text : Text) : Prop :=
  o.oracleEnabled = true ∧ ∃ gazetteer, o.gazetteer = some gazetteer ∧ gazetteer text = .ok []

/-- Sampling decides alike for a text in two conversations. -/
def SameSample (text conversationId conversationId' : Text) : Prop :=
  ∀ pct, o.oracleTrigger = .sampled pct → o.SamplingDecides text →
    sampleSelected (sampleSeed conversationId text) pct =
      sampleSelected (sampleSeed conversationId' text) pct

variable {o} {text conversationId conversationId' : Text}

theorem oracleShouldRun_congr {gazetteer : Text → Except DetectionError (List Finding)}
    {gazFindings : List Finding} (hsome : o.gazetteer = some gazetteer)
    (hgaz : gazetteer text = .ok gazFindings)
    (hsample : o.SameSample text conversationId conversationId')
    (localFindings : List Finding) (rulesPairs : List Pair) :
    o.oracleShouldRun gazFindings localFindings rulesPairs conversationId text =
      o.oracleShouldRun gazFindings localFindings rulesPairs conversationId' text := by
  unfold oracleShouldRun
  cases hon : o.oracleEnabled with
  | false => simp
  | true =>
    cases gazFindings with
    | cons f fs => simp
    | nil =>
      cases htrigger : o.oracleTrigger with
      | sampled pct => simpa using hsample pct htrigger ⟨hon, gazetteer, hsome, hgaz⟩
      | gazetteerHit => simp
      | anyLocalFinding => simp
      | always => simp

theorem mergedPairs_congr (hsample : o.SameSample text conversationId conversationId')
    (pass : Option LocalDetectionPass) (rules : Rules) (rulesPairs : List Pair) :
    o.mergedPairs pass text rules conversationId rulesPairs =
      o.mergedPairs pass text rules conversationId' rulesPairs := by
  unfold mergedPairs
  cases hsome : o.gazetteer with
  | none => cases pass <;> rfl
  | some gazetteer =>
    show o.gazetteerPairs gazetteer pass text rules conversationId rulesPairs =
      o.gazetteerPairs gazetteer pass text rules conversationId' rulesPairs
    unfold gazetteerPairs
    refine bind_congr_ok fun gazFindings hgaz => ?_
    have hrun := oracleShouldRun_congr hsome (mapError_eq_ok hgaz) hsample
    simp only [hrun]

/-- The conversation enters detection through sampling alone. -/
theorem detect_congr (hsample : o.SameSample text conversationId conversationId') (rules : Rules)
    (chunked : Bool) (found : Option (List MatchedRule)) :
    o.detect text rules conversationId chunked found =
      o.detect text rules conversationId' chunked found := by
  simp only [detect, mergedPairs_congr hsample]

/-! ## A clean scan -/

section CleanScan

variable (o : SanitizationOrchestrator) (text : Text) (rules : Rules) (conversationId : Text)

/-- What a scan that finds nothing says about each source of findings. -/
structure CleanScan : Prop where
  gazetteer : ∀ gazetteer, o.gazetteer = some gazetteer → gazetteer text = .ok []
  local_nil : passFindings o.localPass text = .ok []
  rules_nil : ruleMatches rules text = []
  sampled : ∀ gazetteer, o.gazetteer = some gazetteer →
    o.oracleShouldRun [] [] [] conversationId text = true → o.callCorpLlm text rules = .ok []
  legacy : o.gazetteer = none → o.oracleEnabled = true → o.callCorpLlm text rules = .ok []

/-- Whether the scan asks the oracle. -/
def scanAsksOracle (gazFindings localFindings : List Finding) : Bool :=
  if o.gazetteer.isSome then
    o.oracleShouldRun gazFindings localFindings (rulesPairs (ruleMatches rules text))
      conversationId text
  else o.oracleEnabled

/-- The findings of the scan before the oracle. -/
def scanFound (gazFindings localFindings : List Finding) : List Finding :=
  Detectors.detect text ++ gazFindings ++ localFindings ++
    (ruleMatches rules text).map fun m => ⟨m.original, "RULE".toList, m.start, m.stop, 1⟩

variable {o text rules conversationId}

/-- A scan that returns, step by step. -/
theorem scanFindings_eq_ok {findings : List Finding}
    (h : o.scanFindings text rules conversationId = .ok findings) :
    ∃ gazFindings localFindings,
      (∀ gazetteer, o.gazetteer = some gazetteer → gazetteer text = .ok gazFindings) ∧
      passFindings o.localPass text = .ok localFindings ∧
      ((o.scanAsksOracle text rules conversationId gazFindings localFindings = true ∧
          ∃ oraclePairs, o.callCorpLlm text rules = .ok oraclePairs ∧
            findings = scanFound text rules gazFindings localFindings ++
              oraclePairs.map fun e => ⟨e.1, "ORACLE".toList, 0, e.1.length, 1⟩) ∨
        (o.scanAsksOracle text rules conversationId gazFindings localFindings = false ∧
          findings = scanFound text rules gazFindings localFindings)) := by
  have hrest : ∃ gazFindings,
      (∀ gazetteer, o.gazetteer = some gazetteer → gazetteer text = .ok gazFindings) ∧
      (passFindings o.localPass text >>= fun localFindings =>
        if o.scanAsksOracle text rules conversationId gazFindings localFindings then
          o.callCorpLlm text rules >>= fun oraclePairs =>
            pure (scanFound text rules gazFindings localFindings ++
              oraclePairs.map fun e => ⟨e.1, "ORACLE".toList, 0, e.1.length, 1⟩)
        else pure (scanFound text rules gazFindings localFindings)) = .ok findings := by
    unfold scanFindings at h
    unfold scanAsksOracle scanFound
    cases hgaz : o.gazetteer with
    | none =>
      rw [hgaz] at h
      exact ⟨[], nofun, h⟩
    | some gazetteer =>
      rw [hgaz] at h
      obtain ⟨gazFindings, hfound, h⟩ := bind_eq_ok h
      refine ⟨gazFindings, ?_, h⟩
      rintro _ ⟨⟩
      exact mapError_eq_ok hfound
  obtain ⟨gazFindings, hgaz, h⟩ := hrest
  obtain ⟨localFindings, hlocal, h⟩ := bind_eq_ok h
  refine ⟨gazFindings, localFindings, hgaz, hlocal, ?_⟩
  cases hrun : o.scanAsksOracle text rules conversationId gazFindings localFindings with
  | true =>
    rw [hrun, if_pos rfl] at h
    obtain ⟨oraclePairs, hcall, h⟩ := bind_eq_ok h
    exact Or.inl ⟨rfl, oraclePairs, hcall, (Except.ok.inj h).symm⟩
  | false =>
    rw [hrun, if_neg nofun] at h
    exact Or.inr ⟨rfl, (Except.ok.inj h).symm⟩

theorem scanFound_eq_nil {gazFindings localFindings : List Finding}
    (h : scanFound text rules gazFindings localFindings = []) :
    gazFindings = [] ∧ localFindings = [] ∧ ruleMatches rules text = [] := by
  simp only [scanFound, List.append_eq_nil_iff, List.map_eq_nil_iff] at h
  exact ⟨h.1.1.2, h.1.2, h.2⟩

theorem cleanScan_of_scanFindings (h : o.scanFindings text rules conversationId = .ok []) :
    o.CleanScan text rules conversationId := by
  obtain ⟨gazFindings, localFindings, hgaz, hlocal, hrun⟩ := scanFindings_eq_ok h
  have hparts : gazFindings = [] ∧ localFindings = [] ∧ ruleMatches rules text = [] := by
    rcases hrun with ⟨-, oraclePairs, -, hnil⟩ | ⟨-, hnil⟩
    · exact scanFound_eq_nil (List.append_eq_nil_iff.mp hnil.symm).1
    · exact scanFound_eq_nil hnil.symm
  obtain ⟨rfl, rfl, hrules⟩ := hparts
  have horacle : o.scanAsksOracle text rules conversationId [] [] = true →
      o.callCorpLlm text rules = .ok [] := by
    intro hask
    rcases hrun with ⟨-, oraclePairs, hcall, hnil⟩ | ⟨hno, -⟩
    · have hnone : oraclePairs = [] :=
        List.map_eq_nil_iff.mp (List.append_eq_nil_iff.mp hnil.symm).2
      rw [hcall, hnone]
    · exact absurd (hask.symm.trans hno) nofun
  unfold scanAsksOracle at horacle
  rw [hrules] at horacle
  constructor
  · exact hgaz
  · exact hlocal
  · exact hrules
  · intro gazetteer hsome hask
    rw [hsome] at horacle
    exact horacle hask
  · intro hnone hon
    rw [hnone] at horacle
    exact horacle hon

/-- After a clean scan every branch of detection that returns has no pairs. -/
theorem CleanScan.mergedPairs_nil (h : o.CleanScan text rules conversationId) {pairs : List Pair}
    (hok : o.mergedPairs o.localPass text rules conversationId [] = .ok pairs) : pairs = [] := by
  unfold mergedPairs at hok
  cases hgaz : o.gazetteer with
  | some gazetteer =>
    rw [hgaz] at hok
    simp only [gazetteerPairs, h.gazetteer gazetteer hgaz, h.local_nil] at hok
    by_cases hrun : o.oracleShouldRun [] [] [] conversationId text = true
    · simp only [Except.mapError, bind, Except.bind, hrun, if_true, h.sampled gazetteer hgaz hrun]
        at hok
      exact (Except.ok.inj hok).symm
    · simp only [Except.mapError, bind, Except.bind, if_neg hrun] at hok
      exact (Except.ok.inj hok).symm
  | none =>
    have hlocal := h.local_nil
    rw [hgaz] at hok
    cases hpass : o.localPass with
    | some pass =>
      rw [hpass] at hok hlocal
      have hfindings : (pass.findings text).mapError SanitizeError.detection = .ok [] := hlocal
      simp only [localPairs, hfindings] at hok
      by_cases hon : o.oracleEnabled = true
      · simp only [hon, if_true, h.legacy hgaz hon, bind, Except.bind] at hok
        exact (Except.ok.inj hok).symm
      · simp only [if_neg hon, bind, Except.bind] at hok
        exact (Except.ok.inj hok).symm
    | none =>
      rw [hpass] at hok
      by_cases hon : o.oracleEnabled = true
      · simp only [oraclePairs, hon, h.legacy hgaz hon] at hok
        exact (Except.ok.inj hok).symm
      · -- there is nothing to detect with
        simp only [oraclePairs, hon] at hok
        exact absurd hok nofun

end CleanScan

/-- **Delivery above the threshold is as strict as detection**: where the scan finds
nothing, `_detect` returns no pair, whether it is given the rule matches or not. -/
theorem detect_nil_of_scanFindings_nil (o : SanitizationOrchestrator) (text : Text)
    (rules : Rules) (conversationId : Text)
    (hscan : o.scanFindings text rules conversationId = .ok []) :
    ∀ found ∈ [none, some (ruleMatches rules text)], ∀ pairs,
      o.detect text rules conversationId false found = .ok pairs → pairs = [] := by
  intro found hfound pairs hok
  have hclean := cleanScan_of_scanFindings hscan
  have hrules : found.getD (ruleMatches rules text) = [] := by
    rw [← hclean.rules_nil]
    rcases List.mem_pair.mp hfound with rfl | rfl <;> rfl
  obtain ⟨merged, hmerged, hok⟩ := bind_eq_ok hok
  rw [hrules] at hmerged
  have hnil : merged = [] := hclean.mergedPairs_nil hmerged
  rw [← Except.ok.inj hok, hnil]
  unfold filterPairs
  cases o.allowlist with
  | none => rfl
  | some allowed =>
    refine List.eq_nil_iff_forall_not_mem.mpr ?_
    intro e he
    exact absurd (Allowlist.mem_filterPairs.mp he).1 List.not_mem_nil

theorem detect_nil_of_clean_text :
    alwaysAsking.scanFindings "hi".toList [] "c1".toList = .ok [] ∧
      ∀ found ∈ [none, some (ruleMatches [] "hi".toList)], ∀ pairs,
        alwaysAsking.detect "hi".toList [] "c1".toList false found = .ok pairs → pairs = [] := by
  have hscan : alwaysAsking.scanFindings "hi".toList [] "c1".toList = .ok [] := by
    decide +kernel
  exact ⟨hscan, detect_nil_of_scanFindings_nil _ _ _ _ hscan⟩

end SanitizationOrchestrator

end CorpLlmGateway.Sanitizer
