import CorpLlmGateway.Data.Dict
import CorpLlmGateway.Tokens.Store

/-!
# The token store in memory

The model of `tokens/in_memory.py`. The tokens, the owners of the issued ones and the
seen `jti`s are three separate tables; no call awaits while it holds its lock, so each
call is one transition.

* `tokens_revokeUser`, `issueForSubject_cases` — what a call leaves in the tables, as
  equations on their entries;
* `valid_call` — the owner table stays within the token table, and every token is
  stored under its own name.
-/

namespace CorpLlmGateway.Tokens

open CorpLlmGateway.Sanitizer

/-- `InMemoryTokenStore`; the locks guard the calls and hold no data. -/
structure InMemoryTokenStore where
  tokens : Dict Text TokenInfo
  subjects : Dict Text Owner
  jtis : Finset Text

namespace InMemoryTokenStore

def empty : InMemoryTokenStore := ⟨.empty, .empty, ∅⟩

/-- `upsert(info)`. -/
def upsert (s : InMemoryTokenStore) (info : TokenInfo) : InMemoryTokenStore :=
  { s with tokens := s.tokens.insert info.corpToken info }

/-- `lookup(corp_token)`. -/
def lookup (s : InMemoryTokenStore) (corpToken : Text) : Option TokenInfo :=
  s.tokens.get? corpToken

/-- `self._tokens[token] = replace(info, revoked_at=now)`. -/
def revokeToken (now : ℤ) (s : InMemoryTokenStore) (token : Text) (info : TokenInfo) :
    InMemoryTokenStore :=
  { s with tokens := s.tokens.insert token (info.revoke now) }

/-- `revoke_user(user_id)` at time `now`. -/
def revokeUser (s : InMemoryTokenStore) (userId : Text) (now : ℤ) : ℕ × InMemoryTokenStore :=
  s.tokens.entries.foldl (fun acc e =>
    if e.2.userId = userId ∧ e.2.revokedAt = none then
      (acc.1 + 1, acc.2.revokeToken now e.1 e.2)
    else acc) (0, s)

/-- `held_by_subject`. -/
def heldBySubject (s : InMemoryTokenStore) (key : Owner) : List TokenInfo :=
  s.subjects.entries.filterMap fun e => if e.2 = key then s.tokens.get? e.1 else none

/-- `issue_for_subject(info, …)`; the store is the one at the end of the call, also of
a call that raises. -/
def issueForSubject (s : InMemoryTokenStore) (info : TokenInfo) (key : Owner) (jti : Text)
    (maxActive minInterval : ℤ) : Except Refused TokenInfo × InMemoryTokenStore :=
  if jti ∈ s.jtis then (.error (.policy .replay), s)
  else
    let now := info.issuedAt
    let heldBySubject := s.heldBySubject key
    -- The interval is an issuance rate: revoked and expired tokens count.
    let latest := (heldBySubject.map TokenInfo.issuedAt).max?
    if latest.any fun latest => now - latest < minInterval then (.error (.policy .rate), s)
    else if (s.tokens.get? info.corpToken).isSome then
      (.error (.runtimeError "corp_tokens unique violation on issuance"), s)
    else
      let active := (heldBySubject.filter (TokenInfo.isActive now)).insertionSort TokenInfo.older
      let s := (active.take (max 0 ((active.length : ℤ) - maxActive + 1)).toNat).foldl
        (fun s held => s.revokeToken now held.corpToken held) s
      let stored := { info with revokedAt := none }
      (.ok stored,
        { tokens := s.tokens.insert stored.corpToken stored
          subjects := s.subjects.insert stored.corpToken key
          jtis := insert jti s.jtis })

/-- One call on the store. -/
def call (s : InMemoryTokenStore) : Call → Outcome × InMemoryTokenStore
  | .upsert info => (.stored, s.upsert info)
  | .lookup corpToken => (.found (s.lookup corpToken), s)
  | .revokeUser userId now =>
      let r := s.revokeUser userId now
      (.revoked r.1, r.2)
  | .issueForSubject info key jti maxActive minInterval =>
      let r := s.issueForSubject info key jti maxActive minInterval
      (.ofIssue r.1, r.2)

/-! ## What the tables hold -/

/-- Every token is stored under its own name, and every owned token is stored. -/
structure Valid (s : InMemoryTokenStore) : Prop where
  keyed : ∀ {token info}, s.tokens.get? token = some info → info.corpToken = token
  owned : ∀ {token}, token ∈ s.subjects.keys → token ∈ s.tokens.keys

theorem valid_empty : empty.Valid where
  keyed h := by simp [empty] at h
  owned h := by simp [empty, Dict.keys, Dict.empty] at h

/-- A store whose named tokens were revoked at `now`. -/
def revokeTokens (now : ℤ) (tokens : List Text) (e : Text × TokenInfo) : Text × TokenInfo :=
  (e.1, if e.1 ∈ tokens then e.2.revoke now else e.2)

@[simp] theorem fst_revokeTokens (now : ℤ) (tokens : List Text) (e : Text × TokenInfo) :
    (revokeTokens now tokens e).1 = e.1 := rfl

/-- The loops that revoke tokens change these tokens in place and nothing else. -/
theorem foldl_revokeToken (now : ℤ) (s : InMemoryTokenStore) (l : List (Text × TokenInfo))
    (hl : ∀ e ∈ l, e ∈ s.tokens.entries) (hnodup : (l.map Prod.fst).Nodup) :
    (l.foldl (fun s e => s.revokeToken now e.1 e.2) s).tokens.entries =
        s.tokens.entries.map (revokeTokens now (l.map Prod.fst)) ∧
      (l.foldl (fun s e => s.revokeToken now e.1 e.2) s).subjects = s.subjects ∧
      (l.foldl (fun s e => s.revokeToken now e.1 e.2) s).jtis = s.jtis := by
  have hfold : ∀ (l : List (Text × TokenInfo)) (s : InMemoryTokenStore),
      l.foldl (fun s e => s.revokeToken now e.1 e.2) s =
        { s with
          tokens :=
            (l.map fun e => (e.1, e.2.revoke now)).foldl (fun d e => d.insert e.1 e.2) s.tokens } := by
    intro l
    induction l with
    | nil => intro s; rfl
    | cons e l ih => intro s; exact ih _
  rw [hfold]
  refine ⟨?_, rfl, rfl⟩
  have hkeys : ((l.map fun e => (e.1, e.2.revoke now)).map Prod.fst) = l.map Prod.fst := by
    rw [List.map_map]
    rfl
  rw [Dict.entries_foldl_insert]
  · refine List.map_congr_left fun e he => ?_
    -- The value that the loop stores for a key is the stored one, revoked.
    have hlookup : (l.map fun e => (e.1, e.2.revoke now)).lookup e.1 =
        if e.1 ∈ l.map Prod.fst then some (e.2.revoke now) else none := by
      split
      · next hmem =>
        obtain ⟨x, hx, hxe⟩ := List.mem_map.mp hmem
        have hget := Dict.mem_entries.mp (show (e.1, x.2) ∈ s.tokens.entries from hxe ▸ hl x hx)
        have hval : x.2 = e.2 := by
          have := Dict.mem_entries.mp (show (e.1, e.2) ∈ s.tokens.entries from he)
          exact Option.some.inj (hget.symm.trans this)
        let d : Dict Text TokenInfo := ⟨l.map fun e => (e.1, e.2.revoke now), hkeys ▸ hnodup⟩
        refine Dict.mem_entries (d := d) |>.mp (List.mem_map.mpr ⟨x, hx, ?_⟩)
        rw [hxe, hval]
      · next hmem =>
        rw [← Option.not_isSome_iff_eq_none, Dict.isSome_lookup, hkeys]
        exact hmem
    rw [hlookup]
    unfold revokeTokens
    split <;> rfl
  · intro e he
    obtain ⟨x, hx, rfl⟩ := List.mem_map.mp he
    exact List.mem_map.mpr ⟨x, hl x hx, rfl⟩
  · rw [hkeys]
    exact hnodup

/-- Which tokens `revoke_user` revokes. -/
def revokedBy (s : InMemoryTokenStore) (userId : Text) : List (Text × TokenInfo) :=
  s.tokens.entries.filter fun e => e.2.userId = userId ∧ e.2.revokedAt = none

theorem revokeUser_eq (s : InMemoryTokenStore) (userId : Text) (now : ℤ) :
    s.revokeUser userId now = ((s.revokedBy userId).length,
      (s.revokedBy userId).foldl (fun s e => s.revokeToken now e.1 e.2) s) := by
  have hfold : ∀ (l : List (Text × TokenInfo)) (acc : ℕ × InMemoryTokenStore),
      l.foldl (fun acc e => if e.2.userId = userId ∧ e.2.revokedAt = none then
          (acc.1 + 1, acc.2.revokeToken now e.1 e.2) else acc) acc =
        (acc.1 + (l.filter fun e => e.2.userId = userId ∧ e.2.revokedAt = none).length,
          (l.filter fun e => e.2.userId = userId ∧ e.2.revokedAt = none).foldl
            (fun s e => s.revokeToken now e.1 e.2) acc.2) := by
    intro l
    induction l with
    | nil => intro acc; rfl
    | cons e l ih =>
      intro acc
      rw [List.foldl_cons, ih, List.filter_cons]
      by_cases hp : e.2.userId = userId ∧ e.2.revokedAt = none
      · simp only [hp, decide_true, and_self, if_true, List.length_cons, List.foldl_cons]
        rw [Nat.add_assoc, Nat.add_comm 1]
      · simp only [hp, decide_false, if_false, Bool.false_eq_true]
  rw [revokeUser, hfold, Nat.zero_add]
  rfl

/-- `revoke_user` revokes the user's unrevoked tokens in place. -/
theorem tokens_revokeUser (s : InMemoryTokenStore) (userId : Text) (now : ℤ) :
    (s.revokeUser userId now).2.tokens.entries =
        s.tokens.entries.map (revokeTokens now ((s.revokedBy userId).map Prod.fst)) ∧
      (s.revokeUser userId now).2.subjects = s.subjects ∧
      (s.revokeUser userId now).2.jtis = s.jtis := by
  rw [revokeUser_eq]
  exact foldl_revokeToken now s _ (fun e he => List.mem_of_mem_filter he)
    (s.tokens.nodup.sublist (List.filter_sublist.map _))

/-! ## Issuance -/

/-- The tokens of a subject that are active at `now`. -/
def active (s : InMemoryTokenStore) (key : Owner) (now : ℤ) : List TokenInfo :=
  (s.heldBySubject key).filter (TokenInfo.isActive now)

/-- The tokens that an issuance at `now` revokes: the oldest active ones. -/
def oldest (s : InMemoryTokenStore) (key : Owner) (now maxActive : ℤ) : List TokenInfo :=
  ((s.active key now).insertionSort TokenInfo.older).take
    (((s.active key now).length : ℤ) - maxActive + 1).toNat

theorem mem_active_of_mem_oldest {s : InMemoryTokenStore} {key : Owner} {now maxActive : ℤ}
    {held : TokenInfo} (h : held ∈ s.oldest key now maxActive) : held ∈ s.active key now :=
  (List.mem_insertionSort _).mp (List.mem_of_mem_take h)

namespace Valid

variable {s : InMemoryTokenStore} (hv : s.Valid)

include hv

/-- What a subject holds is stored under its own name and owned by the subject. -/
theorem mem_heldBySubject {key : Owner} {held : TokenInfo} :
    held ∈ s.heldBySubject key ↔
      s.tokens.get? held.corpToken = some held ∧ s.subjects.get? held.corpToken = some key := by
  rw [heldBySubject, List.mem_filterMap]
  constructor
  · rintro ⟨⟨token, owner⟩, he, hget⟩
    split at hget
    · next howner =>
      have hname := hv.keyed hget
      subst hname
      exact ⟨hget, howner ▸ Dict.mem_entries.mp he⟩
    · exact absurd hget (by simp)
  · rintro ⟨hget, howner⟩
    exact ⟨(held.corpToken, key), Dict.mem_entries.mpr howner, by simpa using hget⟩

theorem heldBySubject_map_corpToken (key : Owner) :
    (s.heldBySubject key).map TokenInfo.corpToken =
      (s.subjects.entries.filter fun e => e.2 = key).map Prod.fst := by
  have howned : ∀ e ∈ s.subjects.entries, e.1 ∈ s.tokens.keys := fun e he =>
    hv.owned (List.mem_map_of_mem he)
  unfold heldBySubject
  generalize s.subjects.entries = l at howned
  induction l with
  | nil => rfl
  | cons e l ih =>
    obtain ⟨he, hl⟩ := List.forall_mem_cons.mp howned
    obtain ⟨info, hinfo⟩ := Option.isSome_iff_exists.mp (Dict.mem_keys.mp he)
    by_cases hkey : e.2 = key
    · simp only [List.filterMap_cons, hkey, if_true, hinfo, List.map_cons, hv.keyed hinfo,
        List.filter_cons, decide_true, ih hl]
    · simp only [List.filterMap_cons, hkey, if_false, List.filter_cons, decide_false, ih hl,
        Bool.false_eq_true]

/-- A subject holds no token twice. -/
theorem nodup_heldBySubject (key : Owner) :
    ((s.heldBySubject key).map TokenInfo.corpToken).Nodup := by
  rw [hv.heldBySubject_map_corpToken]
  exact s.subjects.nodup.sublist (List.filter_sublist.map _)

theorem nodup_active (key : Owner) (now : ℤ) :
    ((s.active key now).map TokenInfo.corpToken).Nodup :=
  (hv.nodup_heldBySubject key).sublist (List.filter_sublist.map _)

theorem nodup_oldest (key : Owner) (now maxActive : ℤ) :
    ((s.oldest key now maxActive).map TokenInfo.corpToken).Nodup := by
  have hsorted : (((s.active key now).insertionSort TokenInfo.older).map
      TokenInfo.corpToken).Nodup :=
    ((List.perm_insertionSort _ _).map _).nodup_iff.mpr (hv.nodup_active key now)
  exact hsorted.sublist ((List.take_sublist _ _).map _)

end Valid

/-- What a successful issuance found and left. -/
structure Issues (s : InMemoryTokenStore) (info : TokenInfo) (key : Owner) (jti : Text)
    (maxActive minInterval : ℤ) (s' : InMemoryTokenStore) : Prop where
  fresh : jti ∉ s.jtis
  rate : ∀ held ∈ s.heldBySubject key, minInterval ≤ info.issuedAt - held.issuedAt
  free : s.tokens.get? info.corpToken = none
  tokens : s'.tokens.entries =
    s.tokens.entries.map
      (revokeTokens info.issuedAt
        ((s.oldest key info.issuedAt maxActive).map TokenInfo.corpToken)) ++
      [(info.corpToken, { info with revokedAt := none })]
  subjects : s'.subjects.entries = s.subjects.entries ++ [(info.corpToken, key)]
  jtis : s'.jtis = insert jti s.jtis

/-- Some time of a list is less than the interval ago exactly if its latest is. -/
theorem any_max? (l : List ℤ) (now minInterval : ℤ) :
    (l.max?.any fun latest => decide (now - latest < minInterval)) = true ↔
      ∃ time ∈ l, now - time < minInterval := by
  cases h : l.max? with
  | none =>
    rw [List.max?_eq_none_iff] at h
    simp [h]
  | some latest =>
    obtain ⟨hmem, hle⟩ := List.max?_eq_some_iff.mp h
    simp only [Option.any_some, decide_eq_true_eq]
    constructor
    · exact fun hlt => ⟨latest, hmem, hlt⟩
    · rintro ⟨time, htime, hlt⟩
      have := hle time htime
      omega

section Cases

variable {s : InMemoryTokenStore} {info : TokenInfo} {key : Owner} {jti : Text}
  (maxActive : ℤ) {minInterval : ℤ}

/-- Was a token of the subject issued less than the interval ago? -/
def TooEarly (s : InMemoryTokenStore) (key : Owner) (now minInterval : ℤ) : Prop :=
  ∃ time ∈ (s.heldBySubject key).map TokenInfo.issuedAt, now - time < minInterval

theorem issueForSubject_replay (hjti : jti ∈ s.jtis) :
    s.issueForSubject info key jti maxActive minInterval = (.error (.policy .replay), s) :=
  if_pos hjti

theorem issueForSubject_rate (hjti : jti ∉ s.jtis)
    (hrate : s.TooEarly key info.issuedAt minInterval) :
    s.issueForSubject info key jti maxActive minInterval = (.error (.policy .rate), s) := by
  unfold issueForSubject
  rw [if_neg hjti]
  exact if_pos ((any_max? _ _ _).mpr hrate)

theorem issueForSubject_unique (hjti : jti ∉ s.jtis)
    (hrate : ¬s.TooEarly key info.issuedAt minInterval)
    (hfree : (s.tokens.get? info.corpToken).isSome) :
    s.issueForSubject info key jti maxActive minInterval =
      (.error (.runtimeError "corp_tokens unique violation on issuance"), s) := by
  unfold issueForSubject
  rw [if_neg hjti]
  dsimp only
  rw [if_neg (mt (any_max? _ _ _).mp hrate)]
  exact if_pos hfree

theorem issueForSubject_ok (hv : s.Valid) (hjti : jti ∉ s.jtis)
    (hrate : ¬s.TooEarly key info.issuedAt minInterval)
    (hfree : s.tokens.get? info.corpToken = none) :
    ∃ s', s.issueForSubject info key jti maxActive minInterval =
        (.ok { info with revokedAt := none }, s') ∧
      s.Issues info key jti maxActive minInterval s' := by
  unfold issueForSubject
  rw [if_neg hjti]
  dsimp only
  rw [if_neg (mt (any_max? _ _ _).mp hrate), if_neg (by simp [hfree])]
  refine ⟨_, rfl, ?_⟩
  -- The loop over the oldest tokens, as the one that `foldl_revokeToken` describes.
  have htake : (((s.heldBySubject key).filter (TokenInfo.isActive info.issuedAt)).insertionSort
      TokenInfo.older).take (max 0 (((((s.heldBySubject key).filter
        (TokenInfo.isActive info.issuedAt)).insertionSort TokenInfo.older).length : ℤ) -
          maxActive + 1)).toNat = s.oldest key info.issuedAt maxActive := by
    rw [List.length_insertionSort]
    unfold oldest active
    congr 1
    omega
  rw [htake]
  have hloop := foldl_revokeToken info.issuedAt s
    ((s.oldest key info.issuedAt maxActive).map fun held => (held.corpToken, held))
    (by
      intro e he
      obtain ⟨held, hheld, rfl⟩ := List.mem_map.mp he
      exact Dict.mem_entries.mpr (hv.mem_heldBySubject.mp
        (List.mem_of_mem_filter (mem_active_of_mem_oldest hheld))).1)
    (by
      rw [List.map_map]
      exact hv.nodup_oldest key info.issuedAt maxActive)
  simp only [List.foldl_map, List.map_map, Function.comp_def] at hloop
  obtain ⟨htokens, hsubjects, hjtis⟩ := hloop
  have hkeys : info.corpToken ∉ s.tokens.keys := Dict.get?_eq_none.mp hfree
  refine ⟨hjti, ?_, hfree, ?_, ?_, ?_⟩
  · intro held hheld
    by_contra hlt
    exact hrate ⟨held.issuedAt, List.mem_map_of_mem hheld, by omega⟩
  · rw [Dict.entries_insert_of_notMem _ (by
      rw [Dict.keys, htokens, List.map_map]
      exact hkeys), htokens]
  · rw [hsubjects, Dict.entries_insert_of_notMem _ fun hmem => hkeys (hv.owned hmem)]
  · rw [hjtis]

/-- An issuance raises and changes nothing, or does what `Issues` says. -/
theorem issueForSubject_cases (hv : s.Valid) (info : TokenInfo) (key : Owner) (jti : Text)
    (maxActive minInterval : ℤ) :
    (∃ e, s.issueForSubject info key jti maxActive minInterval = (.error e, s)) ∨
      ∃ s', s.issueForSubject info key jti maxActive minInterval =
          (.ok { info with revokedAt := none }, s') ∧
        s.Issues info key jti maxActive minInterval s' := by
  by_cases hjti : jti ∈ s.jtis
  · exact Or.inl ⟨_, issueForSubject_replay maxActive hjti⟩
  by_cases hrate : s.TooEarly key info.issuedAt minInterval
  · exact Or.inl ⟨_, issueForSubject_rate maxActive hjti hrate⟩
  cases hfree : s.tokens.get? info.corpToken with
  | some held =>
    exact Or.inl ⟨_, issueForSubject_unique maxActive hjti hrate (by rw [hfree]; rfl)⟩
  | none => exact Or.inr (issueForSubject_ok maxActive hv hjti hrate hfree)

end Cases

/-! ## What a call keeps -/

/-- The token is one of the named ones. -/
def named (tokens : List Text) (held : TokenInfo) : Bool := held.corpToken ∈ tokens

theorem lookup_revokeTokens (now : ℤ) (tokens : List Text) (l : List (Text × TokenInfo))
    (token : Text) :
    (l.map (revokeTokens now tokens)).lookup token =
      (l.lookup token).map fun held => if token ∈ tokens then held.revoke now else held :=
  Dict.lookup_map_snd l (fun token held => if token ∈ tokens then held.revoke now else held) token

/-- What a call left: the old tokens with some of them revoked, and the new ones. -/
theorem get?_of_entries {s s' : InMemoryTokenStore} (hv : s.Valid) {now : ℤ} {tokens : List Text}
    {new : List (Text × TokenInfo)}
    (h : s'.tokens.entries = s.tokens.entries.map (revokeTokens now tokens) ++ new) (token : Text) :
    s'.tokens.get? token =
      ((s.tokens.get? token).map (TokenInfo.revokeIf now (named tokens))).or (new.lookup token) := by
  unfold Dict.get?
  rw [h, List.lookup_append, lookup_revokeTokens]
  congr 1
  cases hget : s.tokens.entries.lookup token with
  | none => rfl
  | some held => simp only [Option.map_some, TokenInfo.revokeIf, named, hv.keyed hget, decide_eq_true_eq]

/-- A call that revokes tokens in place and adds tokens with their owners keeps the
tables in order. -/
theorem Valid.of_entries {s s' : InMemoryTokenStore} (hv : s.Valid) {now : ℤ} {tokens : List Text}
    {new : List (Text × TokenInfo)} (hnew : ∀ e ∈ new, e.2.corpToken = e.1)
    (htokens : s'.tokens.entries = s.tokens.entries.map (revokeTokens now tokens) ++ new)
    (howned : ∀ token ∈ s'.subjects.keys, token ∈ s.subjects.keys ∨ token ∈ new.map Prod.fst) :
    s'.Valid := by
  have hkeys : s'.tokens.keys = s.tokens.keys ++ new.map Prod.fst := by
    rw [Dict.keys, htokens, List.map_append, List.map_map]
    rfl
  constructor
  · intro token info hget
    rcases List.mem_append.mp (htokens ▸ Dict.mem_entries.mpr hget) with hmem | hmem
    · obtain ⟨e, he, heq⟩ := List.mem_map.mp hmem
      obtain ⟨rfl, rfl⟩ := Prod.mk.inj heq
      have hname := hv.keyed (Dict.mem_entries.mp he)
      split <;> exact hname
    · exact hnew _ hmem
  · intro token hmem
    rw [hkeys]
    rcases howned token hmem with h | h
    · exact List.mem_append_left _ (hv.owned h)
    · exact List.mem_append_right _ h

theorem Issues.valid {s s' : InMemoryTokenStore} {info : TokenInfo} {key : Owner} {jti : Text}
    {maxActive minInterval : ℤ} (hv : s.Valid)
    (h : s.Issues info key jti maxActive minInterval s') : s'.Valid := by
  refine hv.of_entries ?_ h.tokens ?_
  · intro e he
    rw [List.mem_singleton.mp he]
  · intro token hmem
    rw [Dict.keys, h.subjects, List.map_append] at hmem
    exact List.mem_append.mp hmem

theorem valid_revokeUser {s : InMemoryTokenStore} (hv : s.Valid) (userId : Text) (now : ℤ) :
    (s.revokeUser userId now).2.Valid := by
  obtain ⟨htokens, hsubjects, -⟩ := tokens_revokeUser s userId now
  rw [← List.append_nil (s.tokens.entries.map _)] at htokens
  refine hv.of_entries (fun e he => absurd he List.not_mem_nil) htokens ?_
  intro token hmem
  exact Or.inl (hsubjects ▸ hmem)

theorem valid_upsert {s : InMemoryTokenStore} (hv : s.Valid) (info : TokenInfo) :
    (s.upsert info).Valid := by
  constructor
  · intro token held hget
    simp only [upsert, Dict.get?_insert, beq_iff_eq] at hget
    split at hget
    · next heq => rw [← Option.some.inj hget, heq]
    · exact hv.keyed hget
  · intro token hmem
    have hold := Dict.mem_keys.mp (hv.owned hmem)
    rw [Dict.mem_keys, upsert, Dict.get?_insert]
    split
    · rfl
    · exact hold

/-- Every call keeps the tables in order. -/
theorem valid_call {s : InMemoryTokenStore} (hv : s.Valid) (c : Call) : (s.call c).2.Valid := by
  cases c with
  | upsert info => exact valid_upsert hv info
  | lookup token => exact hv
  | revokeUser userId now => exact valid_revokeUser hv userId now
  | issueForSubject info key jti maxActive minInterval =>
    rcases issueForSubject_cases hv info key jti maxActive minInterval with ⟨e, he⟩ | ⟨s', he, h⟩
    · simpa only [call, he] using hv
    · simpa only [call, he] using h.valid hv

end InMemoryTokenStore

end CorpLlmGateway.Tokens
