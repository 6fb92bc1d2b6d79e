import CorpLlmGateway.Data.Table
import CorpLlmGateway.Tokens.InMemory

/-!
# The token store on Postgres

The model of `tokens/postgres_store.py` over the `corp_tokens` table of
`tokens/schema.sql`: one table, with nullable identity columns, where the in-memory
store has three dictionaries. Each SQL statement is one function on the rows, an
issuance is a transaction, and no lock wait times out.

* `Agrees` — the three dictionaries are read off the rows, in their order;
* `Agrees.call` — every call has the same outcome on both stores and keeps `Agrees`;
* `stores_agree` — so the stores agree along every run.
-/

namespace CorpLlmGateway.Tokens

open CorpLlmGateway.Sanitizer

/-- A row of `corp_tokens`. Tokens that the CLI stores have no identity columns. -/
structure Row extends TokenInfo where
  oidcIssuer : Option Text
  oidcSubject : Option Text
  oidcJti : Option Text

/-- The primary key. -/
def corpTokenKey : Table.Unique Row Text := ⟨"corp_tokens_pkey", fun row => some row.corpToken⟩

/-- `_JTI_UNIQUE_INDEX`. -/
def jtiUniqueIndex : Table.Unique Row Text := ⟨"corp_tokens_oidc_jti_key", Row.oidcJti⟩

abbrev CorpTokens := Table [corpTokenKey, jtiUniqueIndex]

namespace Row

/-- `oidc_issuer = $1 AND oidc_subject = $2`; `NULL` equals nothing. -/
def ownedBy (key : Owner) (row : Row) : Bool :=
  row.oidcIssuer == some key.1 && row.oidcSubject == some key.2

/-- The assignments of an upsert: the identity columns stay. -/
def setInfo (info : TokenInfo) (row : Row) : Row :=
  { row with
    userId := info.userId, teamId := info.teamId, scopes := info.scopes
    issuedAt := info.issuedAt, expiresAt := info.expiresAt, revokedAt := info.revokedAt }

/-- `SET revoked_at = $1`. -/
def setRevoked (now : ℤ) (row : Row) : Row := { row with revokedAt := some now }

theorem column_setInfo (info : TokenInfo) :
    ∀ u ∈ [corpTokenKey, jtiUniqueIndex], ∀ row, u.column (setInfo info row) = u.column row := by
  simp [corpTokenKey, jtiUniqueIndex, setInfo]

theorem column_setRevoked (now : ℤ) :
    ∀ u ∈ [corpTokenKey, jtiUniqueIndex], ∀ row, u.column (setRevoked now row) = u.column row := by
  simp [corpTokenKey, jtiUniqueIndex, setRevoked]

end Row

namespace PostgresTokenStore

/-- `upsert(info)`. -/
def upsert (db : CorpTokens) (info : TokenInfo) : Except String CorpTokens :=
  db.insertOrUpdate corpTokenKey ⟨info, none, none, none⟩ (Row.setInfo info)
    (Row.column_setInfo info)

/-- `lookup(corp_token)`. -/
def lookup (db : CorpTokens) (corpToken : Text) : Option TokenInfo :=
  (db.rows.find? fun row => row.corpToken = corpToken).map Row.toTokenInfo

/-- `revoke_user(user_id)` at time `now`: the count is the one of the update. -/
def revokeUser (db : CorpTokens) (userId : Text) (now : ℤ) : ℕ × CorpTokens :=
  let hit (row : Row) : Bool := decide (row.userId = userId ∧ row.revokedAt = none)
  ((db.rows.filter hit).length, db.update hit (Row.setRevoked now) (Row.column_setRevoked now))

/-- The rows that count for a subject's cap, the oldest first. -/
def activeRows (db : CorpTokens) (key : Owner) (now : ℤ) : List Row :=
  (db.rows.filter fun row => row.ownedBy key && row.isActive now).insertionSort fun a b =>
    a.toTokenInfo.older b.toTokenInfo

/-- `UPDATE corp_tokens SET revoked_at = $1 WHERE corp_token = ANY($2)`. -/
def revokeAll (db : CorpTokens) (now : ℤ) (tokens : List Text) : CorpTokens :=
  db.update (fun row => decide (row.corpToken ∈ tokens)) (Row.setRevoked now)
    (Row.column_setRevoked now)

/-- The statements of the issuance transaction. -/
def issue (info : TokenInfo) (key : Owner) (jti : Text) (maxActive minInterval : ℤ)
    (db : CorpTokens) : Except Refused (Unit × CorpTokens) :=
  let now := info.issuedAt
  if db.rows.any fun row => row.oidcJti == some jti then .error (.policy .replay)
  else
    let latest := ((db.rows.filter (Row.ownedBy key)).map (·.issuedAt)).max?
    if latest.any fun latest => now - latest < minInterval then .error (.policy .rate)
    else
      let active := (activeRows db key now).map (·.corpToken)
      let excess : ℤ := (active.length : ℤ) - maxActive + 1
      let db := if 0 < excess then revokeAll db now (active.take excess.toNat) else db
      match db.insert ⟨{ info with revokedAt := none }, some key.1, some key.2, some jti⟩ with
      | .ok db => .ok ((), db)
      | .error constraint => .error (.uniqueViolation constraint)

/-- `issue_for_subject(info, …)`: a unique violation of the transaction is told apart
by the constraint. -/
def issueForSubject (db : CorpTokens) (info : TokenInfo) (key : Owner) (jti : Text)
    (maxActive minInterval : ℤ) : Except Refused TokenInfo × CorpTokens :=
  match db.transaction (issue info key jti maxActive minInterval) with
  | (.ok (), db) => (.ok { info with revokedAt := none }, db)
  | (.error (.uniqueViolation constraint), db) =>
      if constraint = jtiUniqueIndex.name then (.error (.policy .replay), db)
      else (.error (.runtimeError "corp_tokens unique violation on issuance"), db)
  | (.error e, db) => (.error e, db)

/-- One call on the store. -/
def call (db : CorpTokens) : Call → Outcome × CorpTokens
  | .upsert info =>
      match upsert db info with
      | .ok db => (.stored, db)
      | .error constraint => (.refused (.uniqueViolation constraint), db)
  | .lookup corpToken => (.found (lookup db corpToken), db)
  | .revokeUser userId now =>
      let r := revokeUser db userId now
      (.revoked r.1, r.2)
  | .issueForSubject info key jti maxActive minInterval =>
      let r := issueForSubject db info key jti maxActive minInterval
      (.ofIssue r.1, r.2)

end PostgresTokenStore

/-! ## The relation between the stores -/

/-- The owner that the identity columns name. -/
def Row.owner (row : Row) : Option Owner :=
  match row.oidcIssuer, row.oidcSubject with
  | some issuer, some subject => some (issuer, subject)
  | _, _ => none

theorem Row.ownedBy_iff {row : Row} {key : Owner} :
    row.ownedBy key = true ↔ row.owner = some key := by
  obtain ⟨issuer, subject⟩ := key
  unfold Row.ownedBy Row.owner
  cases row.oidcIssuer <;> cases row.oidcSubject <;> simp

/-- The entry of a row in the token table. -/
def Row.entry (row : Row) : Text × TokenInfo := (row.corpToken, row.toTokenInfo)

/-- The entry of a row in the owner table, if it has one. -/
def Row.ownerEntry (row : Row) : Option (Text × Owner) := row.owner.map fun key => (row.corpToken, key)

/-- The dictionaries of the in-memory store are read off the rows. -/
structure Agrees (s : InMemoryTokenStore) (db : CorpTokens) : Prop where
  tokens : s.tokens.entries = db.rows.map Row.entry
  subjects : s.subjects.entries = db.rows.filterMap Row.ownerEntry
  jtis : ∀ jti, jti ∈ s.jtis ↔ jti ∈ db.rows.filterMap Row.oidcJti

namespace Agrees

open InMemoryTokenStore PostgresTokenStore

theorem empty : Agrees .empty .empty := ⟨rfl, rfl, fun _ => by
  simp [InMemoryTokenStore.empty, Table.empty]⟩

variable {s : InMemoryTokenStore} {db : CorpTokens} (h : Agrees s db)

include h

theorem get?_row {row : Row} (hrow : row ∈ db.rows) :
    s.tokens.get? row.corpToken = some row.toTokenInfo :=
  Dict.mem_entries.mp (h.tokens ▸ List.mem_map_of_mem hrow)

theorem exists_row {token : Text} {info : TokenInfo} (hget : s.tokens.get? token = some info) :
    ∃ row ∈ db.rows, row.entry = (token, info) :=
  List.mem_map.mp (h.tokens ▸ Dict.mem_entries.mpr hget)

theorem valid : s.Valid where
  keyed hget := by
    obtain ⟨row, -, hentry⟩ := h.exists_row hget
    obtain ⟨rfl, rfl⟩ := Prod.mk.inj hentry
    rfl
  owned hmem := by
    rw [Dict.keys, h.subjects] at hmem
    obtain ⟨e, he, rfl⟩ := List.mem_map.mp hmem
    obtain ⟨row, hrow, hentry⟩ := List.mem_filterMap.mp he
    obtain ⟨key, -, rfl⟩ := Option.map_eq_some_iff.mp hentry
    rw [Dict.mem_keys, h.get?_row hrow]
    rfl

/-- A token is free in the dictionary exactly if the primary key is. -/
theorem isSome_get? (row : Row) :
    (s.tokens.get? row.corpToken).isSome ↔ corpTokenKey.Conflict db.rows row := by
  rw [← Dict.mem_keys, Dict.keys, h.tokens, List.map_map]
  simp only [Table.Unique.Conflict, corpTokenKey, Option.mem_def, Option.some.injEq,
    List.mem_filterMap, List.mem_map, Function.comp_apply, Row.entry, exists_eq_left']

theorem heldBySubject_eq (key : Owner) :
    s.heldBySubject key = (db.rows.filter (Row.ownedBy key)).map Row.toTokenInfo := by
  unfold heldBySubject
  rw [h.subjects, List.filterMap_filterMap, ← List.filterMap_eq_map, List.filterMap_filter]
  refine List.filterMap_congr fun row hrow => ?_
  unfold Row.ownerEntry
  cases howner : row.owner with
  | none =>
    have hne : row.ownedBy key = false := by
      rw [Bool.eq_false_iff, ne_eq, Row.ownedBy_iff, howner]
      simp
    simp [hne]
  | some key' =>
    by_cases hkey : key' = key
    · have heq : row.ownedBy key = true := by rw [Row.ownedBy_iff, howner, hkey]
      simp [heq, hkey, h.get?_row hrow]
    · have hne : row.ownedBy key = false := by
        rw [Bool.eq_false_iff, ne_eq, Row.ownedBy_iff, howner]
        simpa using hkey
      simp [hne, hkey]

/-- The rows of the cap, in order, are the sorted active tokens. -/
theorem activeRows_eq (key : Owner) (now : ℤ) :
    (activeRows db key now).map Row.toTokenInfo =
      (s.active key now).insertionSort TokenInfo.older := by
  unfold activeRows active
  rw [h.heldBySubject_eq key, List.filter_map, List.filter_filter]
  rw [List.map_insertionSort (fun a b : Row => a.toTokenInfo.older b.toTokenInfo) TokenInfo.older
    Row.toTokenInfo _ fun _ _ _ _ => Iff.rfl]
  congr 2
  refine List.filter_congr fun row _ => ?_
  exact Bool.and_comm _ _

/-- Revoking the same tokens on both sides. -/
theorem revokeAll {s' : InMemoryTokenStore} {now : ℤ} {tokens : List Text}
    (htokens : s'.tokens.entries = s.tokens.entries.map (revokeTokens now tokens))
    (hsubjects : s'.subjects = s.subjects) (hjtis : s'.jtis = s.jtis) :
    Agrees s' (PostgresTokenStore.revokeAll db now tokens) := by
  constructor
  · rw [htokens, h.tokens, PostgresTokenStore.revokeAll, Table.update, List.map_map, List.map_map]
    refine List.map_congr_left fun row _ => ?_
    by_cases hmem : row.corpToken ∈ tokens <;>
      simp [revokeTokens, Row.entry, hmem, Row.setRevoked, TokenInfo.revoke]
  · rw [hsubjects, h.subjects, PostgresTokenStore.revokeAll, Table.update, List.filterMap_map]
    refine List.filterMap_congr fun row _ => ?_
    by_cases hmem : row.corpToken ∈ tokens <;>
      simp [hmem, Row.setRevoked, Row.ownerEntry, Row.owner]
  · intro jti
    rw [hjtis, h.jtis, PostgresTokenStore.revokeAll, Table.update, List.filterMap_map]
    refine iff_of_eq (congrArg _ (List.filterMap_congr fun row _ => ?_))
    by_cases hmem : row.corpToken ∈ tokens <;> simp [hmem, Row.setRevoked]

/-- A row that both sides add. -/
theorem append {s' : InMemoryTokenStore} {db' : CorpTokens} {row : Row}
    (hrows : db'.rows = db.rows ++ [row])
    (htokens : s'.tokens.entries = s.tokens.entries ++ [row.entry])
    (hsubjects : s'.subjects.entries = s.subjects.entries ++ row.ownerEntry.toList)
    (hjtis : ∀ jti, jti ∈ s'.jtis ↔ jti ∈ s.jtis ∨ row.oidcJti = some jti) : Agrees s' db' := by
  constructor
  · rw [htokens, h.tokens, hrows, List.map_append, List.map_singleton]
  · rw [hsubjects, h.subjects, hrows, List.filterMap_append]
    cases hentry : row.ownerEntry <;> simp [hentry]
  · intro jti
    rw [hjtis, h.jtis, hrows, List.filterMap_append, List.mem_append]
    cases hjti : row.oidcJti <;> simp [hjti, eq_comm]

/-! ## Call by call -/

theorem lookup_eq (token : Text) : s.lookup token = PostgresTokenStore.lookup db token := by
  unfold InMemoryTokenStore.lookup PostgresTokenStore.lookup
  cases hfind : db.rows.find? fun row => row.corpToken = token with
  | none =>
    rw [Option.map_none, Dict.get?_eq_none, Dict.keys, h.tokens, List.map_map]
    intro hmem
    obtain ⟨row, hrow, rfl⟩ := List.mem_map.mp hmem
    exact List.find?_eq_none.mp hfind row hrow (decide_eq_true rfl)
  | some row =>
    have heq : row.corpToken = token := by simpa using List.find?_some hfind
    rw [← heq, h.get?_row (List.mem_of_find?_eq_some hfind), Option.map_some]

/-- `revoke_user` finds the same tokens on both sides. -/
theorem mem_revokedBy {userId : Text} {row : Row} (hrow : row ∈ db.rows) :
    row.corpToken ∈ (s.revokedBy userId).map Prod.fst ↔
      row.userId = userId ∧ row.revokedAt = none := by
  unfold revokedBy
  rw [List.mem_map]
  constructor
  · rintro ⟨⟨token, info⟩, he, rfl⟩
    obtain ⟨hmem, hp⟩ := List.mem_filter.mp he
    have hsame : info = row.toTokenInfo :=
      Option.some.inj ((Dict.mem_entries.mp hmem).symm.trans (h.get?_row hrow))
    simpa [hsame] using hp
  · intro hp
    refine ⟨row.entry, List.mem_filter.mpr ⟨h.tokens ▸ List.mem_map_of_mem hrow, ?_⟩, rfl⟩
    exact decide_eq_true hp

theorem revokeUser (userId : Text) (now : ℤ) :
    (s.revokeUser userId now).1 = (PostgresTokenStore.revokeUser db userId now).1 ∧
      Agrees (s.revokeUser userId now).2 (PostgresTokenStore.revokeUser db userId now).2 := by
  obtain ⟨htokens, hsubjects, hjtis⟩ := tokens_revokeUser s userId now
  constructor
  · rw [revokeUser_eq, revokedBy, h.tokens, List.filter_map, List.length_map]
    rfl
  · have hrel := h.revokeAll htokens hsubjects hjtis
    -- The update by user and the update by token names change the same rows.
    have hrows : (PostgresTokenStore.revokeUser db userId now).2 =
        PostgresTokenStore.revokeAll db now ((s.revokedBy userId).map Prod.fst) := by
      simp only [PostgresTokenStore.revokeUser, PostgresTokenStore.revokeAll, Table.update,
        Table.mk.injEq, decide_eq_true_eq]
      refine List.map_congr_left fun row hrow => ?_
      simp only [h.mem_revokedBy hrow]
    rw [hrows]
    exact hrel

theorem upsert (info : TokenInfo) :
    ∃ db', PostgresTokenStore.upsert db info = .ok db' ∧ Agrees (s.upsert info) db' := by
  unfold PostgresTokenStore.upsert Table.insertOrUpdate InMemoryTokenStore.upsert
  have hkey := h.isSome_get? ⟨info, none, none, none⟩
  split
  · next hconflict =>
    refine ⟨_, rfl, ?_⟩
    have hentries : (s.tokens.insert info.corpToken info).entries =
        s.tokens.entries.map fun e => (e.1, if e.1 == info.corpToken then info else e.2) := by
      rw [Dict.entries_insert, if_pos (hkey.mpr hconflict)]
    constructor
    · rw [hentries, h.tokens, Table.update, List.map_map, List.map_map]
      refine List.map_congr_left fun row _ => ?_
      by_cases heq : row.corpToken = info.corpToken <;>
        simp [Row.entry, corpTokenKey, heq, Row.setInfo]
    · rw [h.subjects, Table.update, List.filterMap_map]
      refine List.filterMap_congr fun row _ => ?_
      by_cases heq : row.corpToken = info.corpToken <;>
        simp [corpTokenKey, heq, Row.setInfo, Row.ownerEntry, Row.owner]
    · intro jti
      rw [h.jtis, Table.update, List.filterMap_map]
      refine iff_of_eq (congrArg _ (List.filterMap_congr fun row _ => ?_))
      by_cases heq : row.corpToken = info.corpToken <;> simp [corpTokenKey, heq, Row.setInfo]
  · next hfree =>
    have hnone : ∀ u ∈ [corpTokenKey, jtiUniqueIndex],
        ¬u.Conflict db.rows ⟨info, none, none, none⟩ := by
      simp only [List.forall_mem_cons, List.not_mem_nil, false_imp_iff, implies_true, and_true]
      refine ⟨hfree, ?_⟩
      rintro ⟨_, hv, _⟩
      simp [jtiUniqueIndex] at hv
    obtain ⟨db', hinsert, hrows⟩ := Table.insert_ok hnone
    refine ⟨db', hinsert, h.append hrows ?_ (by simp [Row.ownerEntry, Row.owner]) (by simp)⟩
    exact Dict.entries_insert_of_notMem _ (by rw [Dict.mem_keys]; exact fun hs => hfree (hkey.mp hs))

section Issuance

variable (info : TokenInfo) (key : Owner) (jti : Text) (maxActive minInterval : ℤ)

omit h in
/-- The transaction, with its tests stated over the in-memory store. -/
theorem issue_eq (h : Agrees s db) [Decidable (s.TooEarly key info.issuedAt minInterval)] :
    issue info key jti maxActive minInterval db =
      if jti ∈ s.jtis then .error (.policy .replay)
      else if s.TooEarly key info.issuedAt minInterval then .error (.policy .rate)
      else
        match (PostgresTokenStore.revokeAll db info.issuedAt
            ((s.oldest key info.issuedAt maxActive).map TokenInfo.corpToken)).insert
            ⟨{ info with revokedAt := none }, some key.1, some key.2, some jti⟩ with
        | .ok db => .ok ((), db)
        | .error constraint => .error (.uniqueViolation constraint) := by
  have hseen : (db.rows.any fun row => row.oidcJti == some jti) = true ↔ jti ∈ s.jtis := by
    simp [h.jtis, List.mem_filterMap]
  have hlatest : (((db.rows.filter (Row.ownedBy key)).map (·.issuedAt)).max?.any fun latest =>
      decide (info.issuedAt - latest < minInterval)) = true ↔
        s.TooEarly key info.issuedAt minInterval := by
    rw [any_max?, TooEarly, h.heldBySubject_eq key, List.map_map]
    rfl
  -- The tokens that the update names are the oldest ones; without excess there are none.
  have hactive : (activeRows db key info.issuedAt).map (·.corpToken) =
      ((s.active key info.issuedAt).insertionSort TokenInfo.older).map TokenInfo.corpToken := by
    rw [← h.activeRows_eq key info.issuedAt, List.map_map]
    rfl
  have hupdate : (if 0 < ((((activeRows db key info.issuedAt).map (·.corpToken)).length : ℤ) -
        maxActive + 1) then
      PostgresTokenStore.revokeAll db info.issuedAt
        (((activeRows db key info.issuedAt).map (·.corpToken)).take
          ((((activeRows db key info.issuedAt).map (·.corpToken)).length : ℤ) -
            maxActive + 1).toNat)
      else db) = PostgresTokenStore.revokeAll db info.issuedAt
        ((s.oldest key info.issuedAt maxActive).map TokenInfo.corpToken) := by
    rw [hactive, List.length_map, List.length_insertionSort, oldest, List.map_take]
    split
    · rfl
    · next hexcess =>
      rw [Int.toNat_eq_zero.mpr (not_lt.mp hexcess), List.take_zero]
      simp [PostgresTokenStore.revokeAll, Table.update]
  unfold issue
  simp only [hseen, hlatest]
  rw [hupdate]

/-- An issuance has the same outcome on both sides. -/
theorem issueForSubject :
    (s.issueForSubject info key jti maxActive minInterval).1 =
        (PostgresTokenStore.issueForSubject db info key jti maxActive minInterval).1 ∧
      Agrees (s.issueForSubject info key jti maxActive minInterval).2
        (PostgresTokenStore.issueForSubject db info key jti maxActive minInterval).2 := by
  classical
  unfold PostgresTokenStore.issueForSubject Table.transaction
  rw [h.issue_eq info key jti maxActive minInterval]
  by_cases hjti : jti ∈ s.jtis
  · rw [issueForSubject_replay maxActive hjti, if_pos hjti]
    exact ⟨rfl, h⟩
  rw [if_neg hjti]
  by_cases hrate : s.TooEarly key info.issuedAt minInterval
  · rw [issueForSubject_rate maxActive hjti hrate, if_pos hrate]
    exact ⟨rfl, h⟩
  rw [if_neg hrate]
  generalize htokens : (s.oldest key info.issuedAt maxActive).map TokenInfo.corpToken = tokens
  -- The store between the revocations and the insertion.
  let between : InMemoryTokenStore :=
    { s with
      tokens := ⟨s.tokens.entries.map (revokeTokens info.issuedAt tokens), by
        rw [List.map_map]
        exact s.tokens.nodup⟩ }
  have hbetween : Agrees between (PostgresTokenStore.revokeAll db info.issuedAt tokens) :=
    h.revokeAll rfl rfl rfl
  have hkeys : between.tokens.keys = s.tokens.keys := by
    simp only [between, Dict.keys, List.map_map]
    rfl
  have hconflict := hbetween.isSome_get?
    ⟨{ info with revokedAt := none }, some key.1, some key.2, some jti⟩
  rw [← Dict.mem_keys, hkeys, Dict.mem_keys] at hconflict
  cases hfree : s.tokens.get? info.corpToken with
  | some held =>
    have hsome : (s.tokens.get? info.corpToken).isSome := by rw [hfree]; rfl
    rw [issueForSubject_unique maxActive hjti hrate hsome,
      Table.insert_error rfl (hconflict.mp hsome)]
    exact ⟨rfl, h⟩
  | none =>
    obtain ⟨s', hissue, hissues⟩ := issueForSubject_ok maxActive h.valid hjti hrate hfree
    have hnone : ∀ u ∈ [corpTokenKey, jtiUniqueIndex], ¬u.Conflict
        (PostgresTokenStore.revokeAll db info.issuedAt tokens).rows
        ⟨{ info with revokedAt := none }, some key.1, some key.2, some jti⟩ := by
      simp only [List.forall_mem_cons, List.not_mem_nil, false_imp_iff, implies_true, and_true]
      constructor
      · rw [← hconflict]
        simp [hfree]
      · rintro ⟨value, hvalue, hmem⟩
        rw [← Option.some.inj (Option.mem_def.mp hvalue)] at hmem
        exact hjti ((hbetween.jtis jti).mpr hmem)
    obtain ⟨db', hinsert, hrows⟩ := Table.insert_ok hnone
    rw [hissue, hinsert]
    refine ⟨rfl, hbetween.append hrows ?_ hissues.subjects ?_⟩
    · rw [hissues.tokens, htokens]
      rfl
    · intro jti'
      rw [hissues.jtis, Finset.mem_insert, or_comm, Option.some.injEq, eq_comm]

end Issuance

/-- Every call has the same outcome on both stores and leaves them in agreement. -/
theorem call (c : Call) :
    (s.call c).1 = (PostgresTokenStore.call db c).1 ∧
      Agrees (s.call c).2 (PostgresTokenStore.call db c).2 := by
  cases c with
  | upsert info =>
    obtain ⟨db', hupsert, hrel⟩ := h.upsert info
    simp only [PostgresTokenStore.call, hupsert]
    exact ⟨rfl, hrel⟩
  | lookup token => exact ⟨congrArg Outcome.found (h.lookup_eq token), h⟩
  | revokeUser userId now =>
    obtain ⟨hcount, hrel⟩ := h.revokeUser userId now
    exact ⟨congrArg Outcome.revoked hcount, hrel⟩
  | issueForSubject info key jti maxActive minInterval =>
    obtain ⟨hout, hrel⟩ := h.issueForSubject info key jti maxActive minInterval
    exact ⟨congrArg Outcome.ofIssue hout, hrel⟩

end Agrees

/-- Along every run of calls from the empty stores, the Postgres store and the
in-memory store return and raise the same, and every later lookup agrees. -/
theorem stores_agree (calls : List Call) :
    (trace InMemoryTokenStore.call .empty calls).map Step.outcome =
        (trace PostgresTokenStore.call .empty calls).map Step.outcome ∧
      ∀ token, (final InMemoryTokenStore.call .empty calls).lookup token =
        PostgresTokenStore.lookup (final PostgresTokenStore.call .empty calls) token :=
  ⟨trace_map_outcome (fun _ _ c h => h.call c) Agrees.empty calls, fun token =>
    (final_rel (fun _ _ c h => h.call c) Agrees.empty calls).lookup_eq token⟩

end CorpLlmGateway.Tokens
