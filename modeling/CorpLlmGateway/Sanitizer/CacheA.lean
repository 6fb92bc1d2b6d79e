import CorpLlmGateway.Sanitizer.Orchestrator

/-!
# Transparency of Cache A

A hit of Cache A answers a request from the pairs that an earlier request stored. The
key covers the team, the rules, the text, the profile and the policy; detection also
reads the conversation when the oracle is sampled, and the conversation is not in the
key.

* `sanitize_content` — the answer of `sanitize`, on a hit and on a miss;
* `sanitize_dedup` — what a call can write to Cache A;
* `sanitizeAll_justified` — after any history, every entry is the plan of an earlier
  request;
* `sanitize_transparent` — with equal sampling decisions the cache is transparent;
* `sanitize_replays_unsampled` — without them a redaction is lost.
-/

namespace CorpLlmGateway.Sanitizer

open TextScan Hash Results CorpLlmGateway.Detectors CorpLlmGateway.Storage
open Unicode (utf8)

/-- The sanitized text and the pairs. -/
def SanitizeResult.content (r : SanitizeResult) : Text × List Pair := (r.sanitizedText, r.pairs)

def ReplacementPlan.content (plan : ReplacementPlan) : Text × List Pair :=
  (plan.sanitizedText, plan.pairs)

namespace SanitizationOrchestrator

variable {o : SanitizationOrchestrator} {req : Request} {rules : Rules}

/-! ## One call -/

/-- The plan that `sanitize` returns: replayed on a hit of Cache A, computed on a miss. -/
def servedPlan (o : SanitizationOrchestrator) (req : Request) (rules : Rules)
    (cached : Option (List Pair)) : Except SanitizeError ReplacementPlan :=
  match cached with
  | some pairs =>
      (planReplacements req.text pairs (ruleMatches rules req.text) none).mapError .staleSpan
  | none => o.freshPlan req rules

/-- What a request reads from Cache A. -/
def cacheARead (o : SanitizationOrchestrator) (req : Request) (rules : Rules)
    (store : InMemoryMappingStore) : Option (List Pair) :=
  (readCacheA store req.readAt ((o.keyFields req rules).map contentHash)).1

theorem cacheARead_empty (req : Request) (rules : Rules) :
    o.cacheARead req rules .empty = none := by
  unfold cacheARead readCacheA
  cases o.keyFields req rules <;> rfl

theorem not_skipped {bytes threshold : ℕ} (hsize : bytes ≤ threshold) :
    shouldSkipSanitization bytes threshold = false := by
  simpa [shouldSkipSanitization] using hsize

theorem sanitize_content (hsize : (utf8 req.text).length ≤ o.sizeThreshold)
    (hrules : o.rulesLoader req.teamId = .ok rules) (store : InMemoryMappingStore) :
    (o.sanitize req store).1.map SanitizeResult.content =
      (o.servedPlan req rules (o.cacheARead req rules store)).map ReplacementPlan.content := by
  simp only [sanitize, not_skipped hsize, hrules, cacheARead]
  cases hread : (readCacheA store req.readAt ((o.keyFields req rules).map contentHash)).1 with
  | some cached =>
    simp only [servedPlan]
    cases planReplacements req.text cached (ruleMatches rules req.text) none <;> rfl
  | none =>
    simp only [servedPlan]
    cases o.freshPlan req rules <;> rfl

/-- A request that fails to load its rules fails alike on every store. -/
theorem sanitize_content_rules (hsize : (utf8 req.text).length ≤ o.sizeThreshold) {message : String}
    (hrules : o.rulesLoader req.teamId = .error message) (store : InMemoryMappingStore) :
    (o.sanitize req store).1 = .error (.rules message) := by
  simp only [sanitize, not_skipped hsize, hrules]
  rfl

/-! ## What a call writes -/

/-- `req` may store `pairs` in Cache A under `hash`: they are the pairs of its plan. -/
structure Writes (o : SanitizationOrchestrator) (req : Request) (rules : Rules) (key : KeyFields)
    (hash : Digest) (pairs : List Pair) : Prop where
  rules_eq : o.rulesLoader req.teamId = .ok rules
  key_eq : o.keyFields req rules = some key
  hash_eq : contentHash key = hash
  plan : ∃ plan, o.freshPlan req rules = .ok plan ∧ plan.pairs = pairs

theorem recordConversationMappings_dedup (now : ℚ) (conversationId : Text) (pairs : List Pair)
    (store : InMemoryMappingStore) :
    (o.recordConversationMappings now conversationId pairs store).dedup = store.dedup := by
  unfold recordConversationMappings
  induction pairs generalizing store with
  | nil => rfl
  | cons e pairs ih =>
    rw [List.foldl_cons, ih, InMemoryMappingStore.put_dedup]

theorem handleOversize_dedup (contentBytes : ℕ) (store : InMemoryMappingStore) :
    (o.handleOversize req contentBytes store).2.dedup = store.dedup := by
  unfold handleOversize
  repeat' split
  all_goals first
    | rfl
    | exact recordConversationMappings_dedup _ _ _ _

theorem readCacheA_dedup {store : InMemoryMappingStore} {now : ℚ} {hash : Option Digest}
    {h : Digest} {entry : Entry (List Pair)}
    (he : (readCacheA store now hash).2.dedup.get? h = some entry) :
    store.dedup.get? h = some entry := by
  cases hash with
  | none => exact he
  | some h' => exact InMemoryMappingStore.getDedup_dedup he

theorem writeCacheA_dedup {store : InMemoryMappingStore} {now : ℚ} {hash : Option Digest}
    {pairs : List Pair} {h : Digest} {entry : Entry (List Pair)}
    (he : (o.writeCacheA store now hash pairs).dedup.get? h = some entry) :
    store.dedup.get? h = some entry ∨ (hash = some h ∧ entry.value = pairs) := by
  cases hash with
  | none => exact Or.inl he
  | some h' =>
    simp only [writeCacheA, InMemoryMappingStore.setDedup_dedup] at he
    split at he
    · next heq =>
      refine Or.inr ⟨by rw [eq_of_beq heq], ?_⟩
      rw [← Option.some.inj he]
    · exact Or.inl he

/-- The step: an entry of Cache A after a call was there before, or it is the plan of
the request. -/
theorem sanitize_dedup {store : InMemoryMappingStore} {h : Digest} {entry : Entry (List Pair)}
    (he : (o.sanitize req store).2.dedup.get? h = some entry) :
    store.dedup.get? h = some entry ∨ ∃ rules key, o.Writes req rules key h entry.value := by
  simp only [sanitize] at he
  split at he
  · rw [handleOversize_dedup] at he
    exact Or.inl he
  · split at he
    · exact Or.inl he
    · next rules hrules =>
      split at he
      · -- a hit writes to Cache B only
        split at he
        · exact Or.inl (readCacheA_dedup he)
        · rw [recordConversationMappings_dedup] at he
          exact Or.inl (readCacheA_dedup he)
      · split at he
        · exact Or.inl (readCacheA_dedup he)
        · next plan hplan =>
          rw [recordConversationMappings_dedup] at he
          rcases writeCacheA_dedup he with he | ⟨hhash, hvalue⟩
          · exact Or.inl (readCacheA_dedup he)
          · obtain ⟨key, hkey, hhash⟩ := Option.map_eq_some_iff.mp hhash
            exact Or.inr ⟨rules, key, hrules, hkey, hhash, plan, hplan, hvalue.symm⟩

/-- A miss stores the plan. -/
theorem sanitize_stores {store : InMemoryMappingStore} {key : KeyFields} {plan : ReplacementPlan}
    (hsize : (utf8 req.text).length ≤ o.sizeThreshold)
    (hrules : o.rulesLoader req.teamId = .ok rules) (hkey : o.keyFields req rules = some key)
    (hmiss : o.cacheARead req rules store = none) (hplan : o.freshPlan req rules = .ok plan) :
    (o.sanitize req store).2.dedup.get? (contentHash key) =
      some ⟨plan.pairs, req.writeAt + o.cacheATtl, none⟩ := by
  unfold cacheARead at hmiss
  simp only [sanitize, not_skipped hsize, hrules, hmiss, hplan, Bool.false_eq_true, if_false,
    recordConversationMappings_dedup]
  simp only [hkey, Option.map_some, writeCacheA, InMemoryMappingStore.setDedup_dedup, beq_self_eq_true,
    if_true]

/-! ## Histories -/

/-- Every entry of Cache A was written by a request of the history. -/
def Justified (o : SanitizationOrchestrator) (history : List Request)
    (store : InMemoryMappingStore) : Prop :=
  ∀ h entry, store.dedup.get? h = some entry →
    ∃ r ∈ history, ∃ rules key, o.Writes r rules key h entry.value

theorem Justified.sanitize {history : List Request} {store : InMemoryMappingStore}
    (hstore : o.Justified history store) (r : Request) :
    o.Justified (history ++ [r]) (o.sanitize r store).2 := by
  intro h entry he
  rcases sanitize_dedup he with he | hwrites
  · obtain ⟨r', hr', hwrites⟩ := hstore h entry he
    exact ⟨r', List.mem_append_left _ hr', hwrites⟩
  · exact ⟨r, by simp, hwrites⟩

/-- After any history, every entry is the plan of an earlier request. -/
theorem sanitizeAll_justified (history : List Request) :
    o.Justified history (o.sanitizeAll history .empty) := by
  induction history using List.reverseRecOn with
  | nil =>
    intro h entry he
    exact absurd he nofun
  | append_singleton history r ih =>
    have hrun : o.sanitizeAll (history ++ [r]) .empty =
        (o.sanitize r (o.sanitizeAll history .empty)).2 := by
      simp only [sanitizeAll, List.foldl_append, List.foldl_cons, List.foldl_nil]
    rw [hrun]
    exact ih.sanitize r

/-! ## Transparency -/

/-- The fields of the key under which a request reads and writes Cache A. -/
def cacheKey (o : SanitizationOrchestrator) (req : Request) : Option KeyFields :=
  match o.rulesLoader req.teamId with
  | .error _ => none
  | .ok rules => o.keyFields req rules

/-- The content hash tells the key of `req` from the other keys of the history. -/
def CollisionFree (o : SanitizationOrchestrator) (history : List Request) (req : Request) : Prop :=
  ∀ r ∈ history, ∀ key ∈ o.cacheKey r, ∀ key' ∈ o.cacheKey req,
    contentHash key = contentHash key' → key = key'

/-- Every earlier request with the key of `req` had the sampling decision of `req`. -/
def SampledAlike (o : SanitizationOrchestrator) (history : List Request) (req : Request) : Prop :=
  ∀ r ∈ history, ∀ key ∈ o.cacheKey r, key ∈ o.cacheKey req →
    o.SameSample req.text r.conversationId req.conversationId

theorem freshPlan_congr {r : Request} (htext : r.text = req.text)
    (hsample : o.SameSample req.text r.conversationId req.conversationId) :
    o.freshPlan r rules = o.freshPlan req rules := by
  simp only [freshPlan, htext, detect_congr hsample]

/-- Replaying the pairs of a plan gives the plan. -/
theorem servedPlan_replay {plan : ReplacementPlan} (hplan : o.freshPlan req rules = .ok plan) :
    o.servedPlan req rules (some plan.pairs) = .ok plan := by
  obtain ⟨pairs, _, hpairs⟩ := bind_eq_ok hplan
  have hreplay := plan_replay_of_ok (mapError_eq_ok hpairs)
  simp only [servedPlan, hreplay]
  rfl

/-- A hit of Cache A after a history serves the plan that a miss would compute. -/
theorem servedPlan_of_hit {history : List Request} {pairs : List Pair}
    (hrules : o.rulesLoader req.teamId = .ok rules) (hhash : o.CollisionFree history req)
    (hsample : o.SampledAlike history req)
    (hit : o.cacheARead req rules (o.sanitizeAll history .empty) = some pairs) :
    o.servedPlan req rules (some pairs) = o.freshPlan req rules := by
  have hreq : o.cacheKey req = o.keyFields req rules := by
    simp only [cacheKey, hrules]
  cases hkey : o.keyFields req rules with
  | none =>
    simp only [cacheARead, readCacheA, hkey, Option.map_none] at hit
    exact absurd hit nofun
  | some key =>
    simp only [cacheARead, readCacheA, hkey, Option.map_some] at hit
    obtain ⟨entry, hentry, rfl⟩ := InMemoryMappingStore.getDedup_mem hit
    obtain ⟨r, hr, rules', key', hwrites⟩ := sanitizeAll_justified history _ _ hentry
    have hr_key : o.cacheKey r = some key' := by
      simp only [cacheKey, hwrites.rules_eq, hwrites.key_eq]
    -- the hash is free of collisions, so the writer had the key of `req`
    have hsame : key' = key := hhash r hr key' hr_key key (hreq.trans hkey) hwrites.hash_eq
    have halike := hsample r hr key' hr_key (by rw [hreq, hkey, hsame]; rfl)
    obtain ⟨fingerprint, _, hfields⟩ := Option.map_eq_some_iff.mp hkey
    obtain ⟨fingerprint', _, hfields'⟩ := Option.map_eq_some_iff.mp hwrites.key_eq
    have htext : r.text = req.text := by
      simpa [← hfields, ← hfields'] using congrArg KeyFields.text hsame
    have hrules' : rules' = rules := by
      simpa [← hfields, ← hfields'] using congrArg KeyFields.rules hsame
    obtain ⟨plan, hplan, hvalue⟩ := hwrites.plan
    rw [hrules', freshPlan_congr htext halike] at hplan
    rw [← hvalue, servedPlan_replay hplan, hplan]

/-- **Cache A is transparent up to sampling.** After every history of calls, a request
of at most the threshold size gets the text and the pairs that it gets from an empty
store, if the content hash has no collision among the keys and every earlier request
with the same key had the same sampling decision. -/
theorem sanitize_transparent (o : SanitizationOrchestrator) (history : List Request)
    (req : Request) (hsize : (utf8 req.text).length ≤ o.sizeThreshold)
    (hhash : o.CollisionFree history req) (hsample : o.SampledAlike history req) :
    (o.sanitize req (o.sanitizeAll history .empty)).1.map SanitizeResult.content =
      (o.sanitize req .empty).1.map SanitizeResult.content := by
  cases hrules : o.rulesLoader req.teamId with
  | error message =>
    rw [sanitize_content_rules hsize hrules, sanitize_content_rules hsize hrules]
  | ok rules =>
    rw [sanitize_content hsize hrules, sanitize_content hsize hrules, cacheARead_empty]
    cases hit : o.cacheARead req rules (o.sanitizeAll history .empty) with
    | none => rfl
    | some pairs =>
      rw [servedPlan_of_hit hrules hhash hsample hit]
      rfl

/-- A request that follows one with its key is served the plan of that one, until it
expires. -/
theorem sanitize_content_after {r : Request} {key : KeyFields} {plan : ReplacementPlan}
    (hsize : (utf8 req.text).length ≤ o.sizeThreshold)
    (hrules : o.rulesLoader req.teamId = .ok rules) (hkey : o.keyFields req rules = some key)
    (hteam : r.teamId = req.teamId) (hr_key : o.keyFields r rules = some key)
    (hplan : o.freshPlan r rules = .ok plan) (hnow : req.readAt < r.writeAt + o.cacheATtl) :
    (o.sanitize req (o.sanitizeAll [r] .empty)).1.map SanitizeResult.content =
      .ok plan.content := by
  obtain ⟨fingerprint, _, hfields⟩ := Option.map_eq_some_iff.mp hkey
  obtain ⟨fingerprint', _, hfields'⟩ := Option.map_eq_some_iff.mp hr_key
  have htext : r.text = req.text := by
    simpa using congrArg KeyFields.text (hfields'.trans hfields.symm)
  have hstored := sanitize_stores (htext ▸ hsize) (hteam ▸ hrules) hr_key
    (cacheARead_empty r rules) hplan
  have hit : o.cacheARead req rules (o.sanitizeAll [r] .empty) = some plan.pairs := by
    simp only [cacheARead, hkey, Option.map_some, readCacheA, sanitizeAll, List.foldl_cons,
      List.foldl_nil]
    exact InMemoryMappingStore.getDedup_fresh hstored hnow
  have hreplay : o.servedPlan req rules (some plan.pairs) = .ok plan := by
    have hr := servedPlan_replay hplan
    simpa only [servedPlan, htext] using hr
  rw [sanitize_content hsize hrules, hit, hreplay]
  rfl

/-- A text sent in one of several conversations, a second apart. -/
def greeting (conversationId : String) (now : ℚ) : Request :=
  ⟨"hi bob".toList, "t".toList, conversationId.toList, none, now, now⟩

/-- The conversation and the time are not part of the key. -/
theorem keyFields_greeting (conversationId : String) (now : ℚ) :
    halfSampled.keyFields (greeting conversationId now) [] =
      some ⟨"t".toList, [], "hi bob".toList, none, true, zeroPolicy⟩ := rfl

theorem greeting_size (conversationId : String) (now : ℚ) :
    (utf8 (greeting conversationId now).text).length ≤ halfSampled.sizeThreshold := by
  show (utf8 "hi bob".toList).length ≤ 100 * 1024
  decide +kernel

theorem greeting_collisionFree (first second : String) (now now' : ℚ) :
    halfSampled.CollisionFree [greeting first now] (greeting second now') := by
  intro r hr key hkey key' hkey' _
  rw [List.mem_singleton.mp hr] at hkey
  have hfirst := hkey.symm.trans (keyFields_greeting first now)
  have hsecond := hkey'.symm.trans (keyFields_greeting second now')
  exact Option.some.inj (hfirst.trans hsecond.symm)

/-- Both conversations are sampled, so the second request may be served from the cache. -/
theorem sanitize_transparent_sampled :
    (halfSampled.sanitize (greeting "c4" 1) (halfSampled.sanitizeAll [greeting "c1" 0] .empty)).1.map
        SanitizeResult.content =
      (halfSampled.sanitize (greeting "c4" 1) .empty).1.map SanitizeResult.content := by
  refine sanitize_transparent halfSampled [greeting "c1" 0] (greeting "c4" 1)
    (greeting_size _ _) (greeting_collisionFree _ _ _ _) ?_
  intro r hr key _ _ pct hpct _
  rw [List.mem_singleton.mp hr, ← OracleTrigger.sampled.inj hpct]
  decide +kernel

/-- The first conversation is not sampled and stores an empty mapping. The second one
is sampled: from an empty store its name is redacted, after the first one it is not. -/
theorem sanitize_replays_unsampled :
    (utf8 (greeting "c1" 1).text).length ≤ halfSampled.sizeThreshold ∧
      halfSampled.CollisionFree [greeting "c2" 0] (greeting "c1" 1) ∧
      (halfSampled.sanitize (greeting "c1" 1)
        (halfSampled.sanitizeAll [greeting "c2" 0] .empty)).1.map SanitizeResult.content =
          .ok ("hi bob".toList, []) ∧
      (halfSampled.sanitize (greeting "c1" 1) .empty).1.map SanitizeResult.content =
        .ok ("hi [NAME_001]".toList, [("bob".toList, "[NAME_001]".toList)]) := by
  refine ⟨greeting_size _ _, greeting_collisionFree _ _ _ _, ?_, ?_⟩
  · have hplan : halfSampled.freshPlan (greeting "c2" 0) [] =
        .ok ⟨"hi bob".toList, [], [], ∅⟩ := by decide +kernel
    have hnow : (greeting "c1" 1).readAt < (greeting "c2" 0).writeAt + halfSampled.cacheATtl := by
      show (1 : ℚ) < 0 + (36000 : ℕ)
      norm_num
    exact sanitize_content_after (o := halfSampled) (r := greeting "c2" 0) (greeting_size "c1" 1)
      rfl (keyFields_greeting "c1" 1) rfl (keyFields_greeting "c2" 0) hplan hnow
  · have hplan : halfSampled.freshPlan (greeting "c1" 1) [] =
        .ok ⟨"hi [NAME_001]".toList, [("bob".toList, "[NAME_001]".toList)],
          [⟨3, 6, "bob".toList⟩], ∅⟩ := by decide +kernel
    rw [sanitize_content (greeting_size _ _) rfl, cacheARead_empty, servedPlan, hplan]
    rfl

end SanitizationOrchestrator

end CorpLlmGateway.Sanitizer
