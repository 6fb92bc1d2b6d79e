import CorpLlmGateway.Tokens.InMemory

/-!
# The issuance policy

The model of `tokens/issuance_policy.py`, and what the store guarantees to it along
every run of issuances and revocations: the cap on active tokens, one use of every
`jti`, and the issuance rate. The rate counts tokens that were revoked or have
expired, so `Records` keeps the time of every past issuance in the tables.

* `heldBySubject_issues`, `active_issues` — what a subject holds after an issuance;
* `length_newest` — the cap;
* `Records` — the tables remember every issuance of the run;
* `issuance_policy` — the four limits, in every run.
-/

namespace CorpLlmGateway.Tokens

open CorpLlmGateway.Sanitizer

/-- `OidcClaims`. -/
structure OidcClaims where
  userId : Text
  teamId : Text
  scopes : List Text
  issuer : Text
  subject : Text
  jti : Text

/-- `IssuancePolicy`: the settings it maps onto the store. -/
structure IssuancePolicy where
  ttl : ℤ
  maxActive : ℤ
  minInterval : ℤ

/-- The request that `issue(claims)` makes of the store, with the time the clock reads
and the token it draws; claims without an identity raise `E_OIDC_CLAIMS`. -/
def IssuancePolicy.issue (policy : IssuancePolicy) (claims : OidcClaims) (now : ℤ)
    (corpToken : Text) : Except String Call :=
  if claims.issuer = [] ∨ claims.subject = [] ∨ claims.jti = [] then .error "E_OIDC_CLAIMS"
  else
    let info : TokenInfo :=
      { corpToken, userId := claims.userId, teamId := claims.teamId, scopes := claims.scopes,
        issuedAt := now, expiresAt := now + policy.ttl }
    .ok (.issueForSubject info (claims.issuer, claims.subject) claims.jti policy.maxActive
      policy.minInterval)

namespace InMemoryTokenStore

/-! ## What a subject holds after an issuance -/

/-- The active tokens that an issuance keeps. -/
def newest (s : InMemoryTokenStore) (key : Owner) (now maxActive : ℤ) : List TokenInfo :=
  ((s.active key now).insertionSort TokenInfo.older).drop
    (((s.active key now).length : ℤ) - maxActive + 1).toNat

theorem older_of_oldest_newest {s : InMemoryTokenStore} {key : Owner} {now maxActive : ℤ}
    {a b : TokenInfo} (ha : a ∈ s.oldest key now maxActive) (hb : b ∈ s.newest key now maxActive) :
    a.older b := by
  have hsorted := List.pairwise_insertionSort TokenInfo.older (s.active key now)
  rw [← List.take_append_drop (((s.active key now).length : ℤ) - maxActive + 1).toNat
    ((s.active key now).insertionSort TokenInfo.older)] at hsorted
  exact (List.pairwise_append.mp hsorted).2.2 a ha b hb

/-- With the new token there are as many as the cap allows. -/
theorem length_newest (s : InMemoryTokenStore) (key : Owner) (now : ℤ) {maxActive : ℤ}
    (h : 1 ≤ maxActive) : ((s.newest key now maxActive).length : ℤ) + 1 ≤ maxActive := by
  unfold newest
  rw [List.length_drop, List.length_insertionSort]
  omega

/-- The oldest tokens and the kept ones are the active ones. -/
theorem perm_oldest_newest (s : InMemoryTokenStore) (key : Owner) (now maxActive : ℤ) :
    (s.oldest key now maxActive ++ s.newest key now maxActive).Perm (s.active key now) := by
  unfold oldest newest
  rw [List.take_append_drop]
  exact List.perm_insertionSort _ _

theorem filter_active_perm {s : InMemoryTokenStore} (hv : s.Valid) (key : Owner)
    (now maxActive : ℤ) :
    ((s.active key now).filter fun held =>
        held.corpToken ∉ (s.oldest key now maxActive).map TokenInfo.corpToken).Perm
      (s.newest key now maxActive) := by
  have hperm := s.perm_oldest_newest key now maxActive
  refine (hperm.filter _).symm.trans ?_
  have hnodup := ((hperm.map TokenInfo.corpToken).nodup_iff).mpr (hv.nodup_active key now)
  rw [List.map_append, List.nodup_append] at hnodup
  rw [List.filter_append, List.filter_eq_nil_iff.mpr, List.nil_append, List.filter_eq_self.mpr]
  · intro held hheld
    simp only [decide_eq_true_eq]
    exact fun hmem => hnodup.2.2 _ hmem _ (List.mem_map_of_mem hheld) rfl
  · intro held hheld
    simpa using ⟨held, hheld, rfl⟩

section Issuance

variable {s s' : InMemoryTokenStore} {info : TokenInfo} {key : Owner} {jti : Text}
  {maxActive minInterval : ℤ}

/-- A subject holds what it held, some of it revoked, and its new token. -/
theorem heldBySubject_issues (hv : s.Valid) (h : s.Issues info key jti maxActive minInterval s')
    (key' : Owner) :
    s'.heldBySubject key' = (s.heldBySubject key').map (TokenInfo.revokeIf info.issuedAt
        (named ((s.oldest key info.issuedAt maxActive).map TokenInfo.corpToken))) ++
      if key = key' then [{ info with revokedAt := none }] else [] := by
  unfold heldBySubject
  rw [h.subjects, List.filterMap_append, List.map_filterMap]
  congr 1
  · refine List.filterMap_congr fun e he => ?_
    have hmem : e.1 ∈ s.tokens.keys := hv.owned (List.mem_map_of_mem he)
    obtain ⟨held, hheld⟩ := Option.isSome_iff_exists.mp (Dict.mem_keys.mp hmem)
    rw [get?_of_entries hv h.tokens, hheld]
    split <;> rfl
  · have hget : s'.tokens.get? info.corpToken = some { info with revokedAt := none } := by
      rw [get?_of_entries hv h.tokens, h.free]
      simp
    by_cases hkey : key = key' <;> simp [hkey, hget]

/-- The active tokens after an issuance: the newest of the old ones and the new token. -/
theorem active_issues (hv : s.Valid) (h : s.Issues info key jti maxActive minInterval s')
    (hexp : info.issuedAt < info.expiresAt) :
    s'.active key info.issuedAt =
      (s.active key info.issuedAt).filter (fun held => held.corpToken ∉
          (s.oldest key info.issuedAt maxActive).map TokenInfo.corpToken) ++
        [{ info with revokedAt := none }] := by
  generalize htokens : (s.oldest key info.issuedAt maxActive).map TokenInfo.corpToken = tokens
  have hnew : TokenInfo.isActive info.issuedAt { info with revokedAt := none } = true :=
    TokenInfo.isActive_iff.mpr ⟨rfl, hexp⟩
  unfold active
  rw [heldBySubject_issues hv h key, htokens, if_pos rfl, List.filter_append, List.filter_map,
    List.filter_filter, List.filter_cons_of_pos hnew, List.filter_nil]
  congr 1
  have hpred : (TokenInfo.isActive info.issuedAt ∘ TokenInfo.revokeIf info.issuedAt (named tokens)) =
      fun held => decide (held.corpToken ∉ tokens) && held.isActive info.issuedAt := by
    funext held
    rw [Function.comp_apply, TokenInfo.isActive_revokeIf, Bool.and_comm, named, decide_not]
  rw [hpred]
  -- What stays active was not revoked.
  refine (List.map_congr_left fun held hheld => ?_).trans (List.map_id _)
  have hkept := (Bool.and_eq_true_iff.mp (List.mem_filter.mp hheld).2).1
  exact if_neg (by simpa [named] using hkept)

theorem active_issues_perm (hv : s.Valid) (h : s.Issues info key jti maxActive minInterval s')
    (hexp : info.issuedAt < info.expiresAt) :
    (s'.active key info.issuedAt).Perm
      (s.newest key info.issuedAt maxActive ++ [{ info with revokedAt := none }]) := by
  rw [active_issues hv h hexp]
  exact (filter_active_perm hv key info.issuedAt maxActive).append_right _

end Issuance

end InMemoryTokenStore

/-! ## Runs -/

/-- The calls of a run under one policy: issuances with its settings, of tokens that
expire after they are issued, and revocations. -/
def Call.Policy (maxActive minInterval : ℤ) : Call → Prop
  | .upsert _ => False
  | .lookup _ => True
  | .revokeUser _ _ => True
  | .issueForSubject info _ _ maxActive' minInterval' =>
      maxActive' = maxActive ∧ minInterval' = minInterval ∧ info.issuedAt < info.expiresAt

instance (maxActive minInterval : ℤ) : DecidablePred (Call.Policy maxActive minInterval) := by
  intro c
  cases c <;> unfold Call.Policy <;> infer_instance

/-- A successful issuance. -/
structure Issuance where
  owner : Owner
  jti : Text
  time : ℤ

def Step.issuance? {σ : Type} (x : Step σ) : Option Issuance :=
  match x.call, x.outcome with
  | .issueForSubject info owner jti _ _, .issued _ => some ⟨owner, jti, info.issuedAt⟩
  | _, _ => none

/-- Two issuances of a run, the first one first. -/
def Issuance.Apart (minInterval : ℤ) (a b : Issuance) : Prop :=
  a.jti ≠ b.jti ∧ (a.owner = b.owner → minInterval ≤ b.time - a.time)

namespace InMemoryTokenStore

/-- The tables remember an issuance: its `jti`, and a token of its owner and time. -/
def Records (s : InMemoryTokenStore) (i : Issuance) : Prop :=
  i.jti ∈ s.jtis ∧ ∃ held ∈ s.heldBySubject i.owner, held.issuedAt = i.time

/-- Revocations keep what the tables remember. -/
theorem Records.revokeUser {s : InMemoryTokenStore} (hv : s.Valid) {i : Issuance}
    (h : s.Records i) (userId : Text) (now : ℤ) : (s.revokeUser userId now).2.Records i := by
  obtain ⟨hjti, held, hheld, htime⟩ := h
  obtain ⟨htokens, hsubjects, hjtis⟩ := tokens_revokeUser s userId now
  rw [← List.append_nil (s.tokens.entries.map _)] at htokens
  have hget := get?_of_entries hv htokens held.corpToken
  obtain ⟨hstored, howner⟩ := hv.mem_heldBySubject.mp hheld
  rw [hstored, Option.map_some, Option.some_or] at hget
  refine ⟨hjtis ▸ hjti, held.revokeIf now (named ((s.revokedBy userId).map Prod.fst)), ?_,
    (TokenInfo.issuedAt_revokeIf _ _ _).trans htime⟩
  rw [(valid_revokeUser hv userId now).mem_heldBySubject, TokenInfo.corpToken_revokeIf, hsubjects]
  exact ⟨hget, howner⟩

section Issuance

variable {s s' : InMemoryTokenStore} {info : TokenInfo} {key : Owner} {jti : Text}
  {maxActive minInterval : ℤ}

/-- An issuance keeps what the tables remember. -/
theorem Records.issues (hv : s.Valid) (h : s.Issues info key jti maxActive minInterval s')
    {i : Issuance} (hi : s.Records i) : s'.Records i := by
  obtain ⟨hjti, held, hheld, htime⟩ := hi
  refine ⟨h.jtis ▸ Finset.mem_insert_of_mem hjti, held.revokeIf info.issuedAt
    (named ((s.oldest key info.issuedAt maxActive).map TokenInfo.corpToken)), ?_,
    (TokenInfo.issuedAt_revokeIf _ _ _).trans htime⟩
  rw [heldBySubject_issues hv h]
  exact List.mem_append_left _ (List.mem_map_of_mem hheld)

/-- The tables remember the new issuance. -/
theorem Issues.records (hv : s.Valid) (h : s.Issues info key jti maxActive minInterval s') :
    s'.Records ⟨key, jti, info.issuedAt⟩ := by
  refine ⟨h.jtis ▸ Finset.mem_insert_self _ _, { info with revokedAt := none }, ?_, rfl⟩
  rw [heldBySubject_issues hv h, if_pos rfl]
  exact List.mem_append_right _ List.mem_cons_self

/-- An issuance is apart from every one that the tables remember. -/
theorem Issues.apart (h : s.Issues info key jti maxActive minInterval s') {i : Issuance}
    (hi : s.Records i) : i.Apart minInterval ⟨key, jti, info.issuedAt⟩ := by
  obtain ⟨hjti, held, hheld, htime⟩ := hi
  constructor
  · rintro rfl
    exact h.fresh hjti
  · rintro rfl
    rw [← htime]
    exact h.rate held hheld

end Issuance

/-- The issuances of a run are apart from each other, and from those before it that the
tables remember. -/
theorem pairwise_issuances {maxActive minInterval : ℤ} {s : InMemoryTokenStore} (hv : s.Valid)
    {log : List Issuance} (hrec : ∀ i ∈ log, s.Records i)
    (hlog : log.Pairwise (Issuance.Apart minInterval)) {calls : List Call}
    (hcalls : ∀ c ∈ calls, c.Policy maxActive minInterval) :
    (log ++ (trace call s calls).filterMap Step.issuance?).Pairwise
      (Issuance.Apart minInterval) := by
  induction calls generalizing s log with
  | nil => simpa [trace] using hlog
  | cons c calls ih =>
    obtain ⟨hc, hrest⟩ := List.forall_mem_cons.mp hcalls
    rw [trace]
    cases c with
    | upsert info => exact hc.elim
    | lookup token => exact ih hv hrec hlog hrest
    | revokeUser userId now =>
      exact ih (valid_revokeUser hv userId now) (fun i hi => (hrec i hi).revokeUser hv userId now)
        hlog hrest
    | issueForSubject info key jti maxActive' minInterval' =>
      obtain ⟨rfl, rfl, -⟩ := hc
      rcases issueForSubject_cases hv info key jti maxActive' minInterval' with ⟨e, he⟩ | ⟨s', he, h⟩
      · simp only [call, he]
        exact ih hv hrec hlog hrest
      · -- The new issuance joins the log.
        simp only [call, he, List.filterMap_cons, Outcome.ofIssue, Step.issuance?]
        rw [← List.singleton_append, ← List.append_assoc]
        refine ih (h.valid hv) ?_ ?_ hrest
        · intro i hi
          rcases List.mem_append.mp hi with hi | hi
          · exact (hrec i hi).issues hv h
          · rw [List.mem_singleton.mp hi]
            exact h.records hv
        · refine List.pairwise_append.mpr ⟨hlog, List.pairwise_singleton _ _, ?_⟩
          intro i hi j hj
          rw [List.mem_singleton.mp hj]
          exact h.apart (hrec i hi)

/-- What the policy asks of a run. -/
structure PolicyKept (maxActive minInterval : ℤ) (steps : List (Step InMemoryTokenStore)) :
    Prop where
  /-- After an issuance the subject has at most `max_active` active tokens. -/
  capped : ∀ x ∈ steps, ∀ info owner jti m i stored,
    x.call = .issueForSubject info owner jti m i → x.outcome = .issued stored →
      ((x.after.active owner info.issuedAt).length : ℤ) ≤ maxActive
  /-- The issued token is the requested one, and one of the active tokens. -/
  stored : ∀ x ∈ steps, ∀ info owner jti m i stored,
    x.call = .issueForSubject info owner jti m i → x.outcome = .issued stored →
      stored = { info with revokedAt := none } ∧ stored ∈ x.after.active owner info.issuedAt
  /-- A token that an issuance changes was active, is now revoked, and is older than
  every other token that is still active. -/
  oldest : ∀ x ∈ steps, ∀ info owner jti m i stored,
    x.call = .issueForSubject info owner jti m i → x.outcome = .issued stored →
      ∀ token held, x.before.lookup token = some held → x.after.lookup token ≠ some held →
        held ∈ x.before.active owner info.issuedAt ∧
          x.after.lookup token = some (held.revoke info.issuedAt) ∧
          ∀ kept ∈ x.after.active owner info.issuedAt, kept ≠ stored → held.older kept
  /-- No `jti` succeeds twice. -/
  jtis : (steps.filterMap Step.issuance?).Pairwise fun a b => a.jti ≠ b.jti
  /-- Issuances for one subject are `min_interval` apart. -/
  rate : (steps.filterMap Step.issuance?).Pairwise fun a b =>
    a.owner = b.owner → minInterval ≤ b.time - a.time
  /-- A call that raises changes nothing. -/
  refused : ∀ x ∈ steps, ∀ e, x.outcome = .refused e → x.after = x.before

/-- What a step of a run did, from its outcome. -/
theorem step_issues {s s' : InMemoryTokenStore} (hv : s.Valid) {info : TokenInfo} {owner : Owner}
    {jti : Text} {m i : ℤ} {stored : TokenInfo}
    (h : s.call (.issueForSubject info owner jti m i) = (.issued stored, s')) :
    stored = { info with revokedAt := none } ∧ s.Issues info owner jti m i s' := by
  rcases issueForSubject_cases hv info owner jti m i with ⟨e, he⟩ | ⟨s'', he, hissues⟩
  · simp [call, he, Outcome.ofIssue] at h
  · simp only [call, he, Outcome.ofIssue, Prod.mk.injEq, Outcome.issued.injEq] at h
    obtain ⟨rfl, rfl⟩ := h
    exact ⟨rfl, hissues⟩

theorem step_refused {s s' : InMemoryTokenStore} (hv : s.Valid) {c : Call} {e : Refused}
    (h : s.call c = (.refused e, s')) : s' = s := by
  cases c with
  | upsert info => simp [call] at h
  | lookup token => simp [call] at h
  | revokeUser userId now => simp [call] at h
  | issueForSubject info owner jti m i =>
    rcases issueForSubject_cases hv info owner jti m i with ⟨e', he⟩ | ⟨s'', he, -⟩
    · simp only [call, he, Prod.mk.injEq] at h
      exact h.2.symm
    · simp [call, he, Outcome.ofIssue] at h

/-- A token that an issuance changes is one of the oldest. -/
theorem revoked_of_ne {s s' : InMemoryTokenStore} (hv : s.Valid) {info : TokenInfo} {owner : Owner}
    {jti : Text} {maxActive minInterval : ℤ} (h : s.Issues info owner jti maxActive minInterval s')
    {token : Text} {held : TokenInfo} (hbefore : s.lookup token = some held)
    (hafter : s'.lookup token ≠ some held) :
    held ∈ s.oldest owner info.issuedAt maxActive ∧
      s'.lookup token = some (held.revoke info.issuedAt) := by
  have hname : held.corpToken = token := hv.keyed hbefore
  have hget : s'.lookup token = some (held.revokeIf info.issuedAt
      (named ((s.oldest owner info.issuedAt maxActive).map TokenInfo.corpToken))) := by
    have := get?_of_entries hv h.tokens token
    rwa [show s.tokens.get? token = some held from hbefore] at this
  rw [hget] at hafter ⊢
  unfold TokenInfo.revokeIf at hafter ⊢
  split at hafter
  · next hmem =>
    obtain ⟨old, hold, heq⟩ := List.mem_map.mp (of_decide_eq_true hmem)
    -- Tokens are stored under their names, so the named one is the held one.
    have hstored := (hv.mem_heldBySubject.mp
      (List.mem_of_mem_filter (mem_active_of_mem_oldest hold))).1
    rw [heq, hname] at hstored
    have hsame : old = held := Option.some.inj (hstored.symm.trans hbefore)
    rw [if_pos hmem]
    exact ⟨hsame ▸ hold, rfl⟩
  · exact absurd rfl hafter

/-- Along every run of issuances and revocations, whatever the clocks report, the cap,
the single use of every `jti` and the issuance rate hold, and a refused call changes
nothing. -/
theorem issuance_policy (maxActive minInterval : ℤ) (hmax : 1 ≤ maxActive) (calls : List Call)
    (hcalls : ∀ c ∈ calls, c.Policy maxActive minInterval) :
    PolicyKept maxActive minInterval (trace call empty calls) := by
  have hkeeps : ∀ s c, Valid s → c.Policy maxActive minInterval → Valid (call s c).2 :=
    fun _ c hv _ => valid_call hv c
  have hsteps := inv_trace hkeeps valid_empty hcalls
  have hpairs := pairwise_issuances valid_empty (fun i hi => absurd hi List.not_mem_nil)
    List.Pairwise.nil hcalls
  rw [List.nil_append] at hpairs
  have hissued : ∀ x ∈ trace call empty calls, ∀ info owner jti m i stored,
      x.call = .issueForSubject info owner jti m i → x.outcome = .issued stored →
        x.before.Valid ∧ stored = { info with revokedAt := none } ∧
          info.issuedAt < info.expiresAt ∧
          x.before.Issues info owner jti maxActive minInterval x.after := by
    intro x hx info owner jti m i stored hcall hout
    obtain ⟨hv, hallowed, hstep⟩ := hsteps x hx
    rw [hcall] at hallowed hstep
    rw [hout] at hstep
    obtain ⟨rfl, rfl, hexp⟩ := hallowed
    obtain ⟨hstored, hissues⟩ := step_issues hv hstep
    exact ⟨hv, hstored, hexp, hissues⟩
  constructor
  · intro x hx info owner jti m i stored hcall hout
    obtain ⟨hv, -, hexp, h⟩ := hissued x hx info owner jti m i stored hcall hout
    rw [(active_issues_perm hv h hexp).length_eq, List.length_append, List.length_singleton]
    exact length_newest x.before owner info.issuedAt hmax
  · intro x hx info owner jti m i stored hcall hout
    obtain ⟨hv, rfl, hexp, h⟩ := hissued x hx info owner jti m i stored hcall hout
    exact ⟨rfl, (active_issues_perm hv h hexp).mem_iff.mpr
      (List.mem_append_right _ List.mem_cons_self)⟩
  · intro x hx info owner jti m i stored hcall hout token held hbefore hafter
    obtain ⟨hv, rfl, hexp, h⟩ := hissued x hx info owner jti m i stored hcall hout
    obtain ⟨hold, hrevoked⟩ := revoked_of_ne hv h hbefore hafter
    refine ⟨mem_active_of_mem_oldest hold, hrevoked, ?_⟩
    intro kept hkept hne
    rcases List.mem_append.mp ((active_issues_perm hv h hexp).mem_iff.mp hkept) with hmem | hmem
    · exact older_of_oldest_newest hold hmem
    · exact absurd (List.mem_singleton.mp hmem) hne
  · exact hpairs.imp And.left
  · exact hpairs.imp And.right
  · intro x hx e hout
    obtain ⟨hv, -, hstep⟩ := hsteps x hx
    rw [hout] at hstep
    exact step_refused hv hstep

/-- Under a cap of one token and a minute between issuances: the second request comes
too early, a third one uses a seen `jti`, and the fourth rotates the first token out. -/
theorem issuance_policy_rotation :
    let token (name : Text) (time : ℤ) : TokenInfo :=
      ⟨name, ['u'], ['t'], [], time, time + 1000, none⟩
    let issue (name jti : Text) (time : ℤ) : Call :=
      .issueForSubject (token name time) (['i'], ['s']) jti 1 60
    let calls := [issue ['a'] ['1'] 0, issue ['b'] ['2'] 59, issue ['b'] ['1'] 60,
      issue ['b'] ['2'] 60]
    (trace call empty calls).map Step.outcome =
        [.issued (token ['a'] 0), .refused (.policy .rate), .refused (.policy .replay),
          .issued (token ['b'] 60)] ∧
      (final call empty calls).lookup ['a'] = some ((token ['a'] 0).revoke 60) ∧
      PolicyKept 1 60 (trace call empty calls) :=
  ⟨by decide, by decide, issuance_policy 1 60 (by decide) _ (by decide)⟩

end InMemoryTokenStore

end CorpLlmGateway.Tokens
