import CorpLlmGateway.Hash.Sha256
import CorpLlmGateway.Sanitizer.Placeholder

/-!
# The mapping store

The model of `storage/in_memory.py`: Cache A maps a content hash to the pairs of a
sanitization with a fixed lifetime, Cache B maps the originals and placeholders of a
conversation to each other with a lifetime that every read renews. The clock is read
by the caller.

* `getDedup_mem` — a hit of Cache A returns an entry of the table;
* `getDedup_dedup`, `setDedup_dedup`, `put_dedup` — what the operations do to Cache A.
-/

namespace CorpLlmGateway.Storage

open CorpLlmGateway.Sanitizer Hash

/-- `_Entry`. -/
structure Entry (α : Type) where
  value : α
  expiresAt : ℚ
  slidingTtl : Option ℚ

/-- The tables of `InMemoryMappingStore`. -/
structure InMemoryMappingStore where
  dedup : Dict Digest (Entry (List Pair))
  o2p : Dict (Text × Text) (Entry Text)
  p2o : Dict (Text × Text) (Entry Text)

namespace InMemoryMappingStore

def empty : InMemoryMappingStore := ⟨.empty, .empty, .empty⟩

/-- `get_dedup(content_hash)`; an expired entry is removed. -/
def getDedup (s : InMemoryMappingStore) (now : ℚ) (contentHash : Digest) :
    Option (List Pair) × InMemoryMappingStore :=
  match s.dedup.get? contentHash with
  | none => (none, s)
  | some entry =>
      if entry.expiresAt ≤ now then (none, { s with dedup := s.dedup.erase contentHash })
      else (some entry.value, s)

/-- `set_dedup(content_hash, mapping, ttl_seconds=ttl)`. -/
def setDedup (s : InMemoryMappingStore) (now : ℚ) (contentHash : Digest) (mapping : List Pair)
    (ttl : ℕ) : InMemoryMappingStore :=
  { s with dedup := s.dedup.insert contentHash ⟨mapping, now + ttl, none⟩ }

/-- `put(conversation_id, original, placeholder, sliding_ttl_seconds=ttl)`. -/
def put (s : InMemoryMappingStore) (now : ℚ) (conversationId original placeholder : Text)
    (ttl : ℕ) : InMemoryMappingStore :=
  { s with
    o2p := s.o2p.insert (conversationId, original) ⟨placeholder, now + ttl, some ttl⟩
    p2o := s.p2o.insert (conversationId, placeholder) ⟨original, now + ttl, some ttl⟩ }

/-- `_get_sliding(store, key)`. -/
def getSliding (table : Dict (Text × Text) (Entry Text)) (now : ℚ) (key : Text × Text) :
    Option Text × Dict (Text × Text) (Entry Text) :=
  match table.get? key with
  | none => (none, table)
  | some entry =>
      if entry.expiresAt ≤ now then (none, table.erase key)
      else
        match entry.slidingTtl with
        | none => (some entry.value, table)
        | some ttl => (some entry.value, table.insert key { entry with expiresAt := now + ttl })

/-- `get_placeholder(conversation_id, original)`. -/
def getPlaceholder (s : InMemoryMappingStore) (now : ℚ) (conversationId original : Text) :
    Option Text × InMemoryMappingStore :=
  let r := getSliding s.o2p now (conversationId, original)
  (r.1, { s with o2p := r.2 })

/-- `get_original(conversation_id, placeholder)`. -/
def getOriginal (s : InMemoryMappingStore) (now : ℚ) (conversationId placeholder : Text) :
    Option Text × InMemoryMappingStore :=
  let r := getSliding s.p2o now (conversationId, placeholder)
  (r.1, { s with p2o := r.2 })

/-! ## Cache A -/

/-- A hit returns an entry of the table. -/
theorem getDedup_mem {s : InMemoryMappingStore} {now : ℚ} {h : Digest} {pairs : List Pair}
    (hit : (s.getDedup now h).1 = some pairs) :
    ∃ entry, s.dedup.get? h = some entry ∧ entry.value = pairs := by
  unfold getDedup at hit
  cases hs : s.dedup.get? h with
  | none =>
    rw [hs] at hit
    exact absurd hit (by simp)
  | some entry =>
    rw [hs] at hit
    simp only at hit
    split at hit
    · exact absurd hit (by simp)
    · exact ⟨entry, rfl, Option.some.inj hit⟩

/-- An entry is returned until it expires. -/
theorem getDedup_fresh {s : InMemoryMappingStore} {now : ℚ} {h : Digest}
    {entry : Entry (List Pair)} (he : s.dedup.get? h = some entry) (hnow : now < entry.expiresAt) :
    (s.getDedup now h).1 = some entry.value := by
  simp only [getDedup, he, if_neg (not_le.mpr hnow)]

/-- Reading only removes entries. -/
theorem getDedup_dedup {s : InMemoryMappingStore} {now : ℚ} {h h' : Digest}
    {entry : Entry (List Pair)} (he : (s.getDedup now h).2.dedup.get? h' = some entry) :
    s.dedup.get? h' = some entry := by
  unfold getDedup at he
  split at he
  · exact he
  · split at he
    · simp only [Dict.get?_erase] at he
      split at he
      · exact absurd he (by simp)
      · exact he
    · exact he

theorem setDedup_dedup (s : InMemoryMappingStore) (now : ℚ) (h h' : Digest) (mapping : List Pair)
    (ttl : ℕ) : (s.setDedup now h mapping ttl).dedup.get? h' =
      if h' == h then some ⟨mapping, now + ttl, none⟩ else s.dedup.get? h' :=
  Dict.get?_insert _ _ _ _

@[simp] theorem put_dedup (s : InMemoryMappingStore) (now : ℚ)
    (conversationId original placeholder : Text) (ttl : ℕ) :
    (s.put now conversationId original placeholder ttl).dedup = s.dedup := rfl

end InMemoryMappingStore

end CorpLlmGateway.Storage
