import CorpLlmGateway.Sanitizer.Placeholder

/-!
# Corp tokens and the calls of a token store

The model of `tokens/models.py`, `tokens/errors.py` and the interface of
`tokens/store.py`. A time is a number of microseconds, as `datetime` and `timedelta`
count them. A store is any state with one transition per call; `trace` records what
every call of a run found, returned and left.

* `trace_map_outcome`, `final_rel` — two stores that every call keeps in a relation,
  with equal outcomes, agree along every run (the refinement rule);
* `inv_trace` — an invariant that every call keeps holds before and after each call.
-/

namespace CorpLlmGateway.Tokens

open CorpLlmGateway.Sanitizer

/-- `TokenInfo`. -/
structure TokenInfo where
  corpToken : Text
  userId : Text
  teamId : Text
  scopes : List Text
  issuedAt : ℤ
  expiresAt : ℤ
  revokedAt : Option ℤ := none
  deriving DecidableEq

/-- The OIDC `(issuer, subject)` a token was issued for. -/
abbrev Owner := Text × Text

namespace TokenInfo

/-- Unrevoked and unexpired at `now`. -/
def isActive (now : ℤ) (held : TokenInfo) : Bool :=
  held.revokedAt.isNone && decide (now < held.expiresAt)

/-- `dataclasses.replace(held, revoked_at=now)`. -/
def revoke (now : ℤ) (held : TokenInfo) : TokenInfo := { held with revokedAt := some now }

/-- A held token after the selected ones were revoked. -/
def revokeIf (now : ℤ) (selects : TokenInfo → Bool) (held : TokenInfo) : TokenInfo :=
  if selects held then held.revoke now else held

/-- The order of `(issued_at, corp_token)`: texts compare by code point. -/
def older (a b : TokenInfo) : Prop :=
  a.issuedAt < b.issuedAt ∨ (a.issuedAt = b.issuedAt ∧ a.corpToken ≤ b.corpToken)

instance : DecidableRel older := fun a b =>
  inferInstanceAs (Decidable (a.issuedAt < b.issuedAt ∨
    (a.issuedAt = b.issuedAt ∧ a.corpToken ≤ b.corpToken)))

instance : Std.Total older where
  total a b := by
    rcases lt_trichotomy a.issuedAt b.issuedAt with h | h | h
    · exact Or.inl (Or.inl h)
    · rcases le_total a.corpToken b.corpToken with hle | hle
      · exact Or.inl (Or.inr ⟨h, hle⟩)
      · exact Or.inr (Or.inr ⟨h.symm, hle⟩)
    · exact Or.inr (Or.inl h)

instance : IsTrans TokenInfo older where
  trans a b c hab hbc := by
    rcases hab with hab | ⟨hab, hle⟩ <;> rcases hbc with hbc | ⟨hbc, hle'⟩
    · exact Or.inl (hab.trans hbc)
    · exact Or.inl (hbc ▸ hab)
    · exact Or.inl (hab ▸ hbc)
    · exact Or.inr ⟨hab.trans hbc, hle.trans hle'⟩

@[simp] theorem isActive_revoke (now now' : ℤ) (held : TokenInfo) :
    (held.revoke now).isActive now' = false := rfl

@[simp] theorem corpToken_revokeIf (now : ℤ) (selects : TokenInfo → Bool) (held : TokenInfo) :
    (revokeIf now selects held).corpToken = held.corpToken := by
  unfold revokeIf
  split <;> rfl

@[simp] theorem issuedAt_revokeIf (now : ℤ) (selects : TokenInfo → Bool) (held : TokenInfo) :
    (revokeIf now selects held).issuedAt = held.issuedAt := by
  unfold revokeIf
  split <;> rfl

theorem isActive_revokeIf (now now' : ℤ) (selects : TokenInfo → Bool) (held : TokenInfo) :
    (revokeIf now selects held).isActive now' = (held.isActive now' && !selects held) := by
  unfold revokeIf
  split
  · next h => simp [h]
  · next h => simp [h]

theorem isActive_iff {now : ℤ} {held : TokenInfo} :
    held.isActive now = true ↔ held.revokedAt = none ∧ now < held.expiresAt := by
  simp [isActive]

end TokenInfo

/-- `IssuancePolicyError`. -/
inductive IssuancePolicyError
  | rate
  | replay
  | busy
  deriving DecidableEq

/-- The text that the error carries. -/
def IssuancePolicyError.code : IssuancePolicyError → String
  | .rate => "E_ISSUE_RATE"
  | .replay => "E_ISSUE_REPLAY"
  | .busy => "E_ISSUE_BUSY"

/-- What a call raises: a policy error, a `RuntimeError`, or the driver's
`UniqueViolationError` with the name of the constraint. -/
inductive Refused
  | policy (error : IssuancePolicyError)
  | runtimeError (message : String)
  | uniqueViolation (constraint : String)
  deriving DecidableEq

/-- The calls of a token store. `revoke_user` reads the clock, an issuance takes the
time from its `info`. -/
inductive Call
  | upsert (info : TokenInfo)
  | lookup (corpToken : Text)
  | revokeUser (userId : Text) (now : ℤ)
  | issueForSubject (info : TokenInfo) (owner : Owner) (jti : Text) (maxActive minInterval : ℤ)

/-- What a call returns or raises. -/
inductive Outcome
  | stored
  | found (info : Option TokenInfo)
  | revoked (count : ℕ)
  | issued (info : TokenInfo)
  | refused (error : Refused)
  deriving DecidableEq

def Outcome.ofIssue : Except Refused TokenInfo → Outcome
  | .ok info => .issued info
  | .error e => .refused e

/-! ## Runs of calls -/

/-- One call of a run: the store before it, what came of it, and the store after it. -/
structure Step (σ : Type) where
  before : σ
  call : Call
  outcome : Outcome
  after : σ

section Runs

variable {σ τ : Type}

/-- The calls of a run, one after the other. -/
def trace (step : σ → Call → Outcome × σ) (s : σ) : List Call → List (Step σ)
  | [] => []
  | c :: calls =>
      let r := step s c
      ⟨s, c, r.1, r.2⟩ :: trace step r.2 calls

/-- The store that a run ends with. -/
def final (step : σ → Call → Outcome × σ) (s : σ) (calls : List Call) : σ :=
  calls.foldl (fun s c => (step s c).2) s

variable {step : σ → Call → Outcome × σ} {step' : τ → Call → Outcome × τ}

/-- An invariant that the allowed calls keep holds before each call of a run, and the
call did what the transition says. -/
theorem inv_trace {Inv : σ → Prop} {Allowed : Call → Prop}
    (hstep : ∀ s c, Inv s → Allowed c → Inv (step s c).2) {s : σ} (hs : Inv s) {calls : List Call}
    (hcalls : ∀ c ∈ calls, Allowed c) :
    ∀ x ∈ trace step s calls, Inv x.before ∧ Allowed x.call ∧
      step x.before x.call = (x.outcome, x.after) := by
  induction calls generalizing s with
  | nil => simp [trace]
  | cons c calls ih =>
    obtain ⟨hc, hcalls⟩ := List.forall_mem_cons.mp hcalls
    rw [trace, List.forall_mem_cons]
    exact ⟨⟨hs, hc, rfl⟩, ih (hstep s c hs hc) hcalls⟩

section Simulation

variable {R : σ → τ → Prop}
  (hstep : ∀ s t c, R s t → (step s c).1 = (step' t c).1 ∧ R (step s c).2 (step' t c).2)

include hstep

/-- Related stores return the same along every run. -/
theorem trace_map_outcome {s : σ} {t : τ} (h : R s t) (calls : List Call) :
    (trace step s calls).map Step.outcome = (trace step' t calls).map Step.outcome := by
  induction calls generalizing s t with
  | nil => rfl
  | cons c calls ih =>
    obtain ⟨hout, hrel⟩ := hstep s t c h
    simp only [trace, List.map_cons, hout, ih hrel]

/-- Related stores are related at the end of every run. -/
theorem final_rel {s : σ} {t : τ} (h : R s t) (calls : List Call) :
    R (final step s calls) (final step' t calls) := by
  induction calls generalizing s t with
  | nil => exact h
  | cons c calls ih => exact ih (hstep s t c h).2

end Simulation

end Runs

end CorpLlmGateway.Tokens
