import CorpLlmGateway.Tokens.Store

/-!
# The auth middleware

The model of `AuthMiddleware` of `tokens/middleware.py`: the revocation cache, the store
lookups in flight, which all callers of a token share, and the callers. A step is what
the event loop does between two suspensions; a lookup reads the store at one step and
completes at a later one. Time is one logical clock, in microseconds, for the cache, the
store and the validation.

An entry of the cache is stamped when its lookup completes, not when it read the store:
a lookup that read a token before it was revoked makes it valid again for as long as it
takes to complete, and for the time of the cache after that.

* `Inv` — what the cache and the lookups can hold of a token that is revoked;
* `revocation_lag` — the lag, in runs without such lookups.
-/

namespace CorpLlmGateway.Tokens

open CorpLlmGateway.Sanitizer

/-! ## Validation -/

/-- The errors of `tokens/errors.py`, or what a store lookup raised. -/
inductive AuthError where
  | missingToken
  | invalidToken
  | revokedToken
  | expiredToken
  | lookup (message : String)
deriving DecidableEq, Repr

def AuthError.message : AuthError → String
  | .missingToken => "missing X-Corp-Auth"
  | .invalidToken => "unknown token"
  | .revokedToken => "token has been revoked"
  | .expiredToken => "token has expired"
  | .lookup message => message

structure AuthContext where
  userId : Text
  teamId : Text
  scopes : List Text
deriving DecidableEq, Repr

abbrev AuthResult := Except AuthError AuthContext

/-- `_validate(info, now)`. -/
def validate (info : TokenInfo) (now : ℤ) : AuthResult :=
  if info.revokedAt.any fun revokedAt => revokedAt ≤ now then .error .revokedToken
  else if info.expiresAt ≤ now then .error .expiredToken
  else .ok ⟨info.userId, info.teamId, info.scopes⟩

/-- What `authenticate` makes of the result of `_lookup`. -/
def answer (now : ℤ) : Except String (Option TokenInfo) → AuthResult
  | .error message => .error (.lookup message)
  | .ok none => .error .invalidToken
  | .ok (some info) => validate info now

/-! ## The middleware -/

/-- A task of `_fetch`: before it has read the store, with what it read, or done. -/
inductive LookupStatus where
  | running
  | read (info : Option TokenInfo)
  | done (result : Except String (Option TokenInfo))

structure Lookup where
  token : Text
  status : LookupStatus

/-- A call of `authenticate`: waiting for a lookup, or ended. -/
inductive Caller where
  | waiting (token : Text) (lookup : ℕ)
  | ended
deriving DecidableEq

structure AuthState where
  clock : ℤ
  store : Text → Option TokenInfo
  cache : Text → Option (TokenInfo × ℤ)
  inflight : Text → Option ℕ
  /-- All lookups, in the order in which they were started. -/
  lookups : List Lookup
  callers : List Caller

/-- A middleware that was just made, over a store. -/
def AuthState.init (clock : ℤ) (store : Text → Option TokenInfo) : AuthState :=
  ⟨clock, store, fun _ => none, fun _ => none, [], []⟩

inductive AuthEvent where
  /-- Time passes. -/
  | tick (elapsed : ℕ)
  /-- `authenticate(corp_token)` is called. -/
  | call (corpToken : Option Text)
  /-- A lookup reads the store. -/
  | read (lookup : ℕ)
  /-- `_fetch` goes on with what the store returned, or raised. -/
  | complete (lookup : ℕ)
  | fail (lookup : ℕ) (message : String)
  /-- The callback of a lookup that is done. -/
  | forget (lookup : ℕ)
  /-- A caller goes on, or gives up. -/
  | resume (caller : ℕ)
  | giveUp (caller : ℕ)
  /-- The store revokes the tokens selected. -/
  | revoke (selects : TokenInfo → Bool)

section Step

variable (cacheTtl : ℤ)

/-- The entry of the cache that `_lookup` returns without asking the store. -/
def AuthState.fresh (s : AuthState) (token : Text) : Option TokenInfo :=
  match s.cache token with
  | none => none
  | some (info, stamp) => if s.clock - stamp < cacheTtl then some info else none

/-- The result with which a call ends in a step, and its token. -/
def AuthState.returned (s : AuthState) : AuthEvent → Option (Option Text × AuthResult)
  | .call none => some (none, .error .missingToken)
  | .call (some token) =>
      if token = [] then some (some token, .error .missingToken)
      else (s.fresh cacheTtl token).map fun info => (some token, answer s.clock (.ok (some info)))
  | .resume caller =>
      match s.callers[caller]? with
      | some (.waiting token i) =>
          match s.lookups[i]? with
          | some ⟨_, .done result⟩ => some (some token, answer s.clock result)
          | _ => none
      | _ => none
  | _ => none

/-- A call that has to wait: for the lookup of its token, which it starts if there is none. -/
def AuthState.wait (s : AuthState) (token : Text) : AuthState :=
  match s.inflight token with
  | some i => { s with callers := s.callers ++ [.waiting token i] }
  | none =>
      { s with
        inflight := Function.update s.inflight token (some s.lookups.length)
        lookups := s.lookups ++ [⟨token, .running⟩]
        callers := s.callers ++ [.waiting token s.lookups.length] }

def AuthState.setStatus (s : AuthState) (i : ℕ) (l : Lookup) (status : LookupStatus) : AuthState :=
  { s with lookups := s.lookups.set i { l with status := status } }

/-- `self._cache[corp_token] = (info, time.monotonic())`, for a token that was found. -/
def AuthState.remember (s : AuthState) (token : Text) (info : Option TokenInfo) : AuthState :=
  match info with
  | none => s
  | some info => { s with cache := Function.update s.cache token (some (info, s.clock)) }

/-- The store with the tokens revoked that are selected and not revoked yet. -/
def AuthState.revoke (s : AuthState) (selects : TokenInfo → Bool) : AuthState :=
  { s with
    store := fun token => (s.store token).map
      (TokenInfo.revokeIf s.clock fun info => selects info && info.revokedAt.isNone) }

/-- One step; an event that cannot happen does nothing. -/
def AuthState.step (s : AuthState) : AuthEvent → AuthState
  | .tick elapsed => { s with clock := s.clock + elapsed }
  | .call corpToken =>
      match s.returned cacheTtl (.call corpToken), corpToken with
      | none, some token => s.wait token
      | _, _ => { s with callers := s.callers ++ [.ended] }
  | .read i =>
      match s.lookups[i]? with
      | some ⟨token, .running⟩ => s.setStatus i ⟨token, .running⟩ (.read (s.store token))
      | _ => s
  | .complete i =>
      match s.lookups[i]? with
      | some ⟨token, .read info⟩ =>
          (s.setStatus i ⟨token, .read info⟩ (.done (.ok info))).remember token info
      | _ => s
  | .fail i message =>
      match s.lookups[i]? with
      | some ⟨_, .done _⟩ => s
      | some l => s.setStatus i l (.done (.error message))
      | none => s
  | .forget i =>
      match s.lookups[i]? with
      | some ⟨token, .done _⟩ =>
          if s.inflight token = some i then
            { s with inflight := Function.update s.inflight token none }
          else s
      | _ => s
  | .resume caller =>
      match s.returned cacheTtl (.resume caller) with
      | some _ => { s with callers := s.callers.set caller .ended }
      | none => s
  | .giveUp caller => { s with callers := s.callers.set caller .ended }
  | .revoke selects => s.revoke selects

def AuthState.run (s : AuthState) (events : List AuthEvent) : AuthState :=
  events.foldl (AuthState.step cacheTtl) s

end Step

/-! ## The invariant -/

/-- What a lookup has found in the store. -/
def Lookup.info (l : Lookup) : Option TokenInfo :=
  match l.status with
  | .running => none
  | .read info => info
  | .done (.error _) => none
  | .done (.ok info) => info

def Lookup.isDone (l : Lookup) : Bool :=
  match l.status with
  | .done _ => true
  | _ => false

namespace AuthState

/-- The lookup is the one in flight for the token, or a caller of the token waits for it. -/
def Awaited (s : AuthState) (t : Text) (i : ℕ) : Prop :=
  s.inflight t = some i ∨ .waiting t i ∈ s.callers

/-- The store has the token as revoked at `r`. -/
def Revoked (s : AuthState) (t : Text) (r : ℤ) : Prop :=
  ∃ info, s.store t = some info ∧ info.revokedAt = some r

/-- What the cache and the lookups hold. Of a token that is revoked they know it, or the
entry of the cache is from before. -/
structure Inv (s : AuthState) : Prop where
  stamps : ∀ t info stamp, s.cache t = some (info, stamp) → stamp ≤ s.clock
  registered : ∀ i l, s.lookups[i]? = some l → l.isDone = false → s.inflight l.token = some i
  bound : ∀ t i, s.Awaited t i → i < s.lookups.length
  token_eq : ∀ t i l, s.Awaited t i → s.lookups[i]? = some l → l.token = t
  cached : ∀ t r, s.Revoked t r → ∀ info stamp, s.cache t = some (info, stamp) →
    info.revokedAt = some r ∨ stamp ≤ r
  looked : ∀ t r, s.Revoked t r → ∀ i l, s.Awaited t i → s.lookups[i]? = some l →
    ∀ info, l.info = some info → info.revokedAt = some r

theorem inv_init (clock : ℤ) (store : Text → Option TokenInfo) : (init clock store).Inv := by
  have hno : ∀ t i, ¬ (init clock store).Awaited t i := by
    rintro t i (h | h)
    · cases h
    · cases h
  constructor
  · exact nofun
  · exact nofun
  · exact fun t i h => absurd h (hno t i)
  · exact fun t i l h => absurd h (hno t i)
  · exact fun _ _ _ => nofun
  · exact fun t r _ i l h => absurd h (hno t i)

/-- Fewer lookups in flight or awaited: those that go are done. -/
theorem Inv.awaited_mono {s s' : AuthState} (h : s.Inv) (hclock : s.clock ≤ s'.clock)
    (hstore : s'.store = s.store) (hcache : s'.cache = s.cache) (hlookups : s'.lookups = s.lookups)
    (hawaited : ∀ t i, s'.Awaited t i → s.Awaited t i)
    (hinflight : ∀ (i : ℕ) (l : Lookup), s.lookups[i]? = some l → l.isDone = false →
      s'.inflight l.token = s.inflight l.token) :
    s'.Inv := by
  have hrevoked : ∀ t r, s'.Revoked t r → s.Revoked t r := by
    unfold Revoked
    rw [hstore]
    exact fun _ _ => id
  constructor
  · intro t info stamp hget
    rw [hcache] at hget
    exact (h.stamps t info stamp hget).trans hclock
  · intro i l hl hdone
    rw [hlookups] at hl
    rw [hinflight i l hl hdone]
    exact h.registered i l hl hdone
  · intro t i ha
    rw [hlookups]
    exact h.bound t i (hawaited t i ha)
  · intro t i l ha hl
    rw [hlookups] at hl
    exact h.token_eq t i l (hawaited t i ha) hl
  · intro t r hr info stamp hget
    rw [hcache] at hget
    exact h.cached t r (hrevoked t r hr) info stamp hget
  · intro t r hr i l ha hl
    rw [hlookups] at hl
    exact h.looked t r (hrevoked t r hr) i l (hawaited t i ha) hl

/-- A caller that ends, or one more that has ended. -/
theorem awaited_of_set {s : AuthState} {c : ℕ} {t : Text} {i : ℕ}
    (h : ({ s with callers := s.callers.set c .ended } : AuthState).Awaited t i) : s.Awaited t i := by
  rcases h with h | h
  · exact Or.inl h
  · rcases List.mem_or_eq_of_mem_set h with h | h
    · exact Or.inr h
    · cases h

/-- A lookup goes on: it stays in flight until it is done, and finds what the store has. -/
theorem Inv.setStatus {s : AuthState} (h : s.Inv) {i : ℕ} {l : Lookup} (hl : s.lookups[i]? = some l)
    {status : LookupStatus}
    (hdone : ({ l with status := status } : Lookup).isDone = false → l.isDone = false)
    (hinfo : ∀ info, ({ l with status := status } : Lookup).info = some info →
      l.info = some info ∨ s.store l.token = some info) :
    (s.setStatus i l status).Inv := by
  have hlen : i < s.lookups.length := (List.getElem?_eq_some_iff.mp hl).1
  -- any lookup of the new list is an old one, or the one that went on
  have hget : ∀ j l', (s.setStatus i l status).lookups[j]? = some l' →
      (j = i ∧ l' = { l with status := status }) ∨ (j ≠ i ∧ s.lookups[j]? = some l') := by
    intro j l' hj
    by_cases hji : j = i
    · subst hji
      rw [AuthState.setStatus, List.getElem?_set_self hlen] at hj
      exact Or.inl ⟨rfl, (Option.some.inj hj).symm⟩
    · rw [AuthState.setStatus, List.getElem?_set_ne (Ne.symm hji)] at hj
      exact Or.inr ⟨hji, hj⟩
  constructor
  · exact h.stamps
  · intro j l' hj hnot
    rcases hget j l' hj with ⟨rfl, rfl⟩ | ⟨-, hj⟩
    · exact h.registered j l hl (hdone hnot)
    · exact h.registered j l' hj hnot
  · intro t j ha
    exact (h.bound t j ha).trans_eq (List.length_set ..).symm
  · intro t j l' ha hj
    rcases hget j l' hj with ⟨rfl, rfl⟩ | ⟨-, hj⟩
    · exact h.token_eq t j l ha hl
    · exact h.token_eq t j l' ha hj
  · exact h.cached
  · intro t r hr j l' ha hj info hi
    rcases hget j l' hj with ⟨rfl, rfl⟩ | ⟨-, hj⟩
    · rcases hinfo info hi with hold | hstore
      · exact h.looked t r hr j l ha hl info hold
      · obtain ⟨si, hsi, hrev⟩ : s.Revoked t r := hr
        rw [h.token_eq t j l ha hl, hsi] at hstore
        rw [← Option.some.inj hstore]
        exact hrev
    · exact h.looked t r hr j l' ha hj info hi

/-- The cache takes what a lookup in flight found. -/
theorem Inv.remember {s : AuthState} (h : s.Inv) {token : Text} {info : Option TokenInfo}
    (hknown : ∀ r, s.Revoked token r → ∀ x, info = some x → x.revokedAt = some r) :
    (s.remember token info).Inv := by
  cases info with
  | none => exact h
  | some info =>
    have hget : ∀ t x stamp, (s.remember token (some info)).cache t = some (x, stamp) →
        (t = token ∧ x = info ∧ stamp = s.clock) ∨ s.cache t = some (x, stamp) := by
      intro t x stamp hc
      by_cases ht : t = token
      · subst ht
        simp only [AuthState.remember, Function.update_self, Option.some.injEq, Prod.mk.injEq] at hc
        exact Or.inl ⟨rfl, hc.1.symm, hc.2.symm⟩
      · simp only [AuthState.remember, Function.update_of_ne ht] at hc
        exact Or.inr hc
    refine ⟨?_, h.registered, h.bound, h.token_eq, ?_, h.looked⟩
    · intro t x stamp hc
      rcases hget t x stamp hc with ⟨-, -, rfl⟩ | hc
      · exact le_rfl
      · exact h.stamps t x stamp hc
    · intro t r hr x stamp hc
      rcases hget t x stamp hc with ⟨rfl, rfl, -⟩ | hc
      · exact Or.inl (hknown r hr x rfl)
      · exact h.cached t r hr x stamp hc

/-- A call that waits, for the lookup in flight or for a new one. -/
theorem Inv.wait {s : AuthState} (h : s.Inv) (token : Text) : (s.wait token).Inv := by
  unfold AuthState.wait
  cases hin : s.inflight token with
  | some i =>
    refine h.awaited_mono le_rfl rfl rfl rfl ?_ fun _ _ _ _ => rfl
    rintro t j (hj | hj)
    · exact Or.inl hj
    · rcases List.mem_append.mp hj with hj | hj
      · exact Or.inr hj
      · cases List.mem_singleton.mp hj
        exact Or.inl hin
  | none =>
    -- the new lookup has found nothing yet
    have hawaited : ∀ t j, ({ s with
          inflight := Function.update s.inflight token (some s.lookups.length)
          lookups := s.lookups ++ [⟨token, .running⟩]
          callers := s.callers ++ [.waiting token s.lookups.length] } : AuthState).Awaited t j →
        (t = token ∧ j = s.lookups.length) ∨ s.Awaited t j := by
      rintro t j (hj | hj)
      · by_cases ht : t = token
        · subst ht
          simp only [Function.update_self, Option.some.injEq] at hj
          exact Or.inl ⟨rfl, hj.symm⟩
        · simp only [Function.update_of_ne ht] at hj
          exact Or.inr (Or.inl hj)
      · rcases List.mem_append.mp hj with hj | hj
        · exact Or.inr (Or.inr hj)
        · cases List.mem_singleton.mp hj
          exact Or.inl ⟨rfl, rfl⟩
    have hget : ∀ j l, (s.lookups ++ [⟨token, .running⟩])[j]? = some l →
        (j = s.lookups.length ∧ l = ⟨token, .running⟩) ∨ s.lookups[j]? = some l := by
      intro j l hj
      rw [List.getElem?_append] at hj
      split at hj
      · exact Or.inr hj
      · obtain ⟨hlt, rfl⟩ := List.getElem?_eq_some_iff.mp hj
        have hone : j - s.lookups.length < 1 := hlt
        exact Or.inl ⟨by omega, by simp⟩
    constructor
    · exact h.stamps
    · intro j l hj hnot
      rcases hget j l hj with ⟨rfl, rfl⟩ | hj
      · simp
      · have hreg := h.registered j l hj hnot
        have hne : l.token ≠ token := by
          rintro rfl
          exact absurd (hin.symm.trans hreg) nofun
        simpa [Function.update_of_ne hne] using hreg
    · intro t j ha
      rw [List.length_append, List.length_singleton]
      rcases hawaited t j ha with ⟨-, rfl⟩ | ha
      · exact Nat.lt_succ_self _
      · exact (h.bound t j ha).trans (Nat.lt_succ_self _)
    · intro t j l ha hj
      rcases hget j l hj with ⟨rfl, rfl⟩ | hj
      · rcases hawaited t _ ha with ⟨rfl, -⟩ | ha
        · rfl
        · exact absurd (h.bound t _ ha) (Nat.lt_irrefl _)
      · rcases hawaited t j ha with ⟨-, rfl⟩ | ha
        · exact absurd (List.getElem?_eq_some_iff.mp hj).1 (Nat.lt_irrefl _)
        · exact h.token_eq t j l ha hj
    · exact h.cached
    · intro t r hr j l ha hj info hi
      rcases hget j l hj with ⟨rfl, rfl⟩ | hj
      · cases hi
      · rcases hawaited t j ha with ⟨-, rfl⟩ | ha
        · exact absurd (List.getElem?_eq_some_iff.mp hj).1 (Nat.lt_irrefl _)
        · exact h.looked t r hr j l ha hj info hi

/-- Nothing that a lookup found of the tokens that are revoked now is in flight or awaited. -/
def Quiet (s : AuthState) (selects : TokenInfo → Bool) : Prop :=
  ∀ t info, s.store t = some info → selects info = true → info.revokedAt = none →
    ∀ i l, s.Awaited t i → s.lookups[i]? = some l → l.info = none

/-- Revoking, while nothing is under way. -/
theorem Inv.revoke {s : AuthState} (h : s.Inv) {selects : TokenInfo → Bool}
    (hquiet : s.Quiet selects) :
    (s.revoke selects).Inv := by
  -- a token was revoked before, or is revoked now
  have hcases : ∀ t r, (s.revoke selects).Revoked t r →
      s.Revoked t r ∨ (r = s.clock ∧ ∃ info, s.store t = some info ∧ selects info = true ∧
        info.revokedAt = none) := by
    rintro t r ⟨info', hinfo', hrev⟩
    obtain ⟨info, hinfo, rfl⟩ := Option.map_eq_some_iff.mp hinfo'
    by_cases hsel : (selects info && info.revokedAt.isNone) = true
    · rw [TokenInfo.revokeIf, if_pos hsel] at hrev
      rw [Bool.and_eq_true, Option.isNone_iff_eq_none] at hsel
      exact Or.inr ⟨(Option.some.inj hrev).symm, info, hinfo, hsel.1, hsel.2⟩
    · rw [TokenInfo.revokeIf, if_neg hsel] at hrev
      exact Or.inl ⟨info, hinfo, hrev⟩
  refine ⟨h.stamps, h.registered, h.bound, h.token_eq, ?_, ?_⟩
  · intro t r hr info stamp hget
    rcases hcases t r hr with hr | ⟨rfl, -⟩
    · exact h.cached t r hr info stamp hget
    · exact Or.inr (h.stamps t info stamp hget)
  · intro t r hr i l ha hl info hi
    rcases hcases t r hr with hr | ⟨-, si, hsi, hsel, hnone⟩
    · exact h.looked t r hr i l ha hl info hi
    · exact absurd ((hquiet t si hsi hsel hnone i l ha hl).symm.trans hi) nofun

section Runs

variable (cacheTtl : ℤ)

/-- A call that ends at once is one caller more, who waits for nothing. -/
theorem Inv.ended {s : AuthState} (h : s.Inv) :
    ({ s with callers := s.callers ++ [.ended] } : AuthState).Inv := by
  refine h.awaited_mono le_rfl rfl rfl rfl ?_ fun _ _ _ _ => rfl
  rintro t i (hi | hi)
  · exact Or.inl hi
  · rcases List.mem_append.mp hi with hi | hi
    · exact Or.inr hi
    · cases List.mem_singleton.mp hi

theorem Inv.call {s : AuthState} (h : s.Inv) (corpToken : Option Text) :
    (s.step cacheTtl (.call corpToken)).Inv := by
  simp only [AuthState.step]
  split
  · next token _ => exact h.wait token
  · exact h.ended

theorem Inv.read {s : AuthState} (h : s.Inv) (i : ℕ) : (s.step cacheTtl (.read i)).Inv := by
  simp only [AuthState.step]
  split
  · next token hl => exact h.setStatus hl (fun _ => rfl) fun info hi => Or.inr hi
  · exact h

theorem Inv.complete {s : AuthState} (h : s.Inv) (i : ℕ) : (s.step cacheTtl (.complete i)).Inv := by
  simp only [AuthState.step]
  split
  · next token info hl =>
    -- a lookup that is not done is in flight
    have hin : s.Awaited token i := Or.inl (h.registered i _ hl rfl)
    have hset : (s.setStatus i ⟨token, .read info⟩ (.done (.ok info))).Inv :=
      h.setStatus hl nofun fun x hx => Or.inl hx
    refine hset.remember ?_
    intro r hr x hx
    exact h.looked token r hr i _ hin hl x hx
  · exact h

theorem Inv.fail {s : AuthState} (h : s.Inv) (i : ℕ) (message : String) :
    (s.step cacheTtl (.fail i message)).Inv := by
  simp only [AuthState.step]
  split
  · exact h
  · next l _ hl => exact h.setStatus hl nofun nofun
  · exact h

theorem Inv.forget {s : AuthState} (h : s.Inv) (i : ℕ) : (s.step cacheTtl (.forget i)).Inv := by
  simp only [AuthState.step]
  split
  · next token result hl =>
    split_ifs with hin
    · refine h.awaited_mono le_rfl rfl rfl rfl ?_ ?_
      · rintro t j (hj | hj)
        · by_cases ht : t = token
          · subst ht
            simp at hj
          · exact Or.inl (by simpa [Function.update_of_ne ht] using hj)
        · exact Or.inr hj
      · -- another lookup of the token is done, or it would be in flight
        intro j l hj hnot
        have hne : l.token ≠ token := by
          intro ht
          cases (h.registered j l hj hnot).symm.trans (ht ▸ hin)
          cases hl.symm.trans hj
          cases hnot
        exact Function.update_of_ne hne _ _
    · exact h
  · exact h

/-- A caller that ends leaves the lookups as they are. -/
theorem Inv.leave {s : AuthState} (h : s.Inv) (c : ℕ) :
    ({ s with callers := s.callers.set c .ended } : AuthState).Inv :=
  h.awaited_mono le_rfl rfl rfl rfl (fun _ _ => awaited_of_set) fun _ _ _ _ => rfl

/-- Every step keeps the invariant, if it revokes no token whose lookup is under way. -/
theorem Inv.step {s : AuthState} (h : s.Inv) (e : AuthEvent)
    (hquiet : ∀ selects, e = .revoke selects → s.Quiet selects) : (s.step cacheTtl e).Inv := by
  cases e with
  | tick elapsed =>
    exact h.awaited_mono (le_add_of_nonneg_right (Int.natCast_nonneg elapsed)) rfl rfl rfl
      (fun _ _ => id) fun _ _ _ _ => rfl
  | call corpToken => exact h.call cacheTtl corpToken
  | read i => exact h.read cacheTtl i
  | complete i => exact h.complete cacheTtl i
  | fail i message => exact h.fail cacheTtl i message
  | forget i => exact h.forget cacheTtl i
  | resume c =>
    simp only [AuthState.step]
    split
    · exact h.leave c
    · exact h
  | giveUp c => exact h.leave c
  | revoke selects => exact h.revoke (hquiet selects rfl)

/-- No token is revoked while something that a lookup found of it is in flight or awaited. -/
def QuietRun (s : AuthState) : List AuthEvent → Prop
  | [] => True
  | e :: events =>
      (∀ selects, e = .revoke selects → s.Quiet selects) ∧ QuietRun (s.step cacheTtl e) events

theorem Inv.run {s : AuthState} (h : s.Inv) {events : List AuthEvent}
    (hquiet : QuietRun cacheTtl s events) : (s.run cacheTtl events).Inv := by
  induction events generalizing s with
  | nil => exact h
  | cons e events ih => exact ih (h.step cacheTtl e hquiet.1) hquiet.2

/-- A revocation that a lookup found is noticed. -/
theorem validate_of_revoked {info : TokenInfo} {r now : ℤ} (hinfo : info.revokedAt = some r)
    (hr : r ≤ now) : validate info now = .error .revokedToken := by
  simp [validate, hinfo, hr]

/-- In a state that satisfies the invariant a call succeeds within the time of the cache. -/
theorem Inv.lag {s : AuthState} (h : s.Inv) {e : AuthEvent} {token : Text} {context : AuthContext}
    (hreturned : s.returned cacheTtl e = some (some token, .ok context)) {r : ℤ}
    (hrevoked : s.Revoked token r) (hr : r ≤ s.clock) : s.clock - r ≤ cacheTtl := by
  unfold returned at hreturned
  cases e with
  | call corpToken =>
    cases corpToken with
    | none => simp at hreturned
    | some t =>
      by_cases hnil : t = []
      · simp [hnil] at hreturned
      · simp only [hnil, if_false] at hreturned
        obtain ⟨info, hfresh, heq⟩ := Option.map_eq_some_iff.mp hreturned
        obtain ⟨htoken, hvalid⟩ := Prod.mk.inj heq
        cases htoken
        unfold fresh at hfresh
        cases hcache : s.cache token with
        | none => simp [hcache] at hfresh
        | some entry =>
          simp only [hcache, Option.ite_none_right_eq_some, Option.some.injEq] at hfresh
          obtain ⟨hage, hentry⟩ := hfresh
          rcases h.cached token r hrevoked entry.1 entry.2 hcache with hknown | hstamp
          · -- the entry knows of the revocation
            rw [← hentry] at hvalid
            exact absurd ((validate_of_revoked hknown hr).symm.trans hvalid) nofun
          · omega
  | resume c =>
    simp only at hreturned
    cases hc : s.callers[c]? with
    | none => simp [hc] at hreturned
    | some caller =>
      cases caller with
      | ended => simp [hc] at hreturned
      | waiting t i =>
        simp only [hc] at hreturned
        cases hl : s.lookups[i]? with
        | none => simp [hl] at hreturned
        | some l =>
          obtain ⟨t', status⟩ := l
          cases status with
          | running => simp [hl] at hreturned
          | read info => simp [hl] at hreturned
          | done result =>
            simp only [hl, Option.some.injEq, Prod.mk.injEq] at hreturned
            obtain ⟨rfl, hvalid⟩ := hreturned
            have hawaited : s.Awaited t i := Or.inr (List.mem_of_getElem? hc)
            cases result with
            | error message => cases hvalid
            | ok found =>
              cases found with
              | none => cases hvalid
              | some info =>
                have hknown := h.looked t r hrevoked i _ hawaited hl info rfl
                exact absurd ((validate_of_revoked hknown hr).symm.trans hvalid) nofun
  | tick elapsed => cases hreturned
  | read i => cases hreturned
  | complete i => cases hreturned
  | fail i message => cases hreturned
  | forget i => cases hreturned
  | giveUp c => cases hreturned
  | revoke selects => cases hreturned

end Runs

end AuthState

/-- **The revocation lag.** In every run in which no token is revoked while something that a
lookup found of it is in flight or awaited, a call that succeeds for a revoked token does
so within the time of the cache after the revocation. -/
theorem revocation_lag (cacheTtl clock : ℤ) (store : Text → Option TokenInfo)
    (events : List AuthEvent)
    (hquiet : AuthState.QuietRun cacheTtl (.init clock store) events) (e : AuthEvent)
    (token : Text) (context : AuthContext) (r : ℤ)
    (hreturned : ((AuthState.init clock store).run cacheTtl events).returned cacheTtl e =
      some (some token, .ok context))
    (hrevoked : ((AuthState.init clock store).run cacheTtl events).Revoked token r)
    (hr : r ≤ ((AuthState.init clock store).run cacheTtl events).clock) :
    ((AuthState.init clock store).run cacheTtl events).clock - r ≤ cacheTtl :=
  ((AuthState.inv_init clock store).run cacheTtl hquiet).lag cacheTtl hreturned hrevoked hr

/-- One token. -/
def oneToken : Text → Option TokenInfo := fun token =>
  if token = "t".toList then some ⟨token, "u".toList, "team".toList, [], 0, 1000, none⟩ else none

/-- A call that is answered by the cache after the revocation. -/
theorem revocation_lag_cached :
    let events : List AuthEvent := [.call (some "t".toList), .read 0, .complete 0, .forget 0, .resume 0,
      .tick 10, .revoke fun _ => true, .tick 49]
    let s := (AuthState.init 0 oneToken).run 60 events
    AuthState.QuietRun 60 (.init 0 oneToken) events ∧
      s.returned 60 (.call (some "t".toList)) = some (some "t".toList, .ok ⟨"u".toList, "team".toList, []⟩) ∧
      s.Revoked "t".toList 10 ∧ s.clock - 10 ≤ 60 := by
  intro events s
  have hquiet : AuthState.QuietRun 60 (.init 0 oneToken) events := by
    refine ⟨nofun, nofun, nofun, nofun, nofun, nofun, ?_, nofun, trivial⟩
    intro selects _ t info _ _ _ i l ha
    rcases ha with ha | ha
    · have hnone : ∀ x, (Function.update (Function.update (fun _ : Text => (none : Option ℕ))
          "t".toList (some 0)) "t".toList none) x = none := by
        simp
      exact absurd ((hnone t).symm.trans ha) nofun
    · cases List.mem_singleton.mp ha
  have hreturned : s.returned 60 (.call (some "t".toList)) =
      some (some "t".toList, .ok ⟨"u".toList, "team".toList, []⟩) := by
    decide +kernel
  have hrevoked : s.Revoked "t".toList 10 :=
    ⟨⟨"t".toList, "u".toList, "team".toList, [], 0, 1000, some 10⟩, by decide +kernel, rfl⟩
  exact ⟨hquiet, hreturned, hrevoked,
    revocation_lag 60 0 oneToken events hquiet _ _ _ 10 hreturned hrevoked (by decide +kernel)⟩

/-- A lookup that read the token before the revocation and completes 61 units later: the call
succeeds, and the cache answers for 60 more. -/
theorem late_lookup_succeeds :
    let s := (AuthState.init 0 oneToken).run 60 [.call (some "t".toList), .read 0,
      .revoke fun _ => true, .tick 61, .complete 0]
    s.returned 60 (.resume 0) = some (some "t".toList, .ok ⟨"u".toList, "team".toList, []⟩) ∧
      s.Revoked "t".toList 0 ∧ ¬ s.clock - 0 ≤ 60 := by
  refine ⟨by decide +kernel, ⟨⟨"t".toList, "u".toList, "team".toList, [], 0, 1000, some 0⟩,
    by decide +kernel, rfl⟩, by decide +kernel⟩

end CorpLlmGateway.Tokens
