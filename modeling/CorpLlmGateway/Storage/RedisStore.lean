import CorpLlmGateway.Storage.InMemory
import CorpLlmGateway.Text.Numerals

/-!
# The Redis mapping store

The model of Cache B in `storage/redis_store.py`. Redis is a map from keys to values whose
lifetimes are left out. The store keeps a pair of a conversation and a name under one flat
key, and the lifetime of an entry under a companion key beside it, where the store in memory
has two tables keyed by pairs.

* `Apart` — names whose flat keys can be told apart;
* `Refines.call` — related stores answer one call alike;
* `redis_refines_inMemory` — on such names both stores answer alike and nothing raises;
* `redis_diverges` — on others they do not: a conversation reads the entries of another, and
  a companion that was overwritten raises.
-/

namespace CorpLlmGateway.Storage

open CorpLlmGateway.Sanitizer Numerals

/-! ## The store -/

/-- Redis as a map. Lifetimes are left out, so that `EXPIRE` changes nothing. -/
abbrev Redis := Dict Text Text

/-- What a call may raise: the `ValueError` of `int(...)`. -/
inductive RedisError where
  | valueError
deriving DecidableEq, Repr

/-- The two key spaces: `_O2P_PREFIX` and `_P2O_PREFIX`. -/
inductive Space where
  | o2p
  | p2o
deriving DecidableEq, Repr

def Space.head : Space → Text
  | .o2p => "conv:o2p:".toList
  | .p2o => "conv:p2o:".toList

/-- A key of a space. -/
def Space.key (space : Space) (conversationId name : Text) : Text :=
  space.head ++ conversationId ++ ':' :: name

/-- `_TTL_SUFFIX`. -/
def ttlSuffix : Text := ":ttl".toList

/-- `_o2p_key(conversation_id, original)`. -/
def o2pKey : Text → Text → Text := Space.key .o2p

/-- `_p2o_key(conversation_id, placeholder)`. -/
def p2oKey : Text → Text → Text := Space.key .p2o

structure RedisMappingStore where
  r : Redis

namespace RedisMappingStore

def empty : RedisMappingStore := ⟨.empty⟩

/-- `put(conversation_id, original, placeholder, sliding_ttl_seconds=ttl)`. -/
def put (s : RedisMappingStore) (conversationId original placeholder : Text) (ttl : ℕ) :
    RedisMappingStore :=
  let o2p := o2pKey conversationId original
  let p2o := p2oKey conversationId placeholder
  let ttlStr := Nat.toDigits 10 ttl
  ⟨(((s.r.insert o2p placeholder).insert p2o original).insert (o2p ++ ttlSuffix) ttlStr).insert
    (p2o ++ ttlSuffix) ttlStr⟩

/-- `_sliding_get(key)`. -/
def slidingGet (s : RedisMappingStore) (key : Text) : Except RedisError (Option Text) :=
  match s.r.get? key with
  | none => .ok none
  | some raw =>
      match s.r.get? (key ++ ttlSuffix) with
      | none => .ok (some raw)
      | some ttlRaw =>
          match parseInt ttlRaw with
          | none => .error .valueError
          | some _ => .ok (some raw)

/-- `get_placeholder(conversation_id, original)`. -/
def getPlaceholder (s : RedisMappingStore) (conversationId original : Text) :
    Except RedisError (Option Text) := s.slidingGet (o2pKey conversationId original)

/-- `get_original(conversation_id, placeholder)`. -/
def getOriginal (s : RedisMappingStore) (conversationId placeholder : Text) :
    Except RedisError (Option Text) := s.slidingGet (p2oKey conversationId placeholder)

end RedisMappingStore

/-! ## Calls -/

/-- A call of a mapping store. -/
inductive Call where
  | put (conversationId original placeholder : Text) (ttl : ℕ)
  | getPlaceholder (conversationId original : Text)
  | getOriginal (conversationId placeholder : Text)

/-- A call at a time, on the store in memory; a `put` returns nothing. -/
def InMemoryMappingStore.call (s : InMemoryMappingStore) (now : ℚ) :
    Call → Option Text × InMemoryMappingStore
  | .put conversationId original placeholder ttl =>
      (none, s.put now conversationId original placeholder ttl)
  | .getPlaceholder conversationId original => s.getPlaceholder now conversationId original
  | .getOriginal conversationId placeholder => s.getOriginal now conversationId placeholder

/-- A call of the store in Redis. -/
def RedisMappingStore.call (s : RedisMappingStore) :
    Call → Except RedisError (Option Text × RedisMappingStore)
  | .put conversationId original placeholder ttl =>
      .ok (none, s.put conversationId original placeholder ttl)
  | .getPlaceholder conversationId original =>
      (s.getPlaceholder conversationId original).map fun answer => (answer, s)
  | .getOriginal conversationId placeholder =>
      (s.getOriginal conversationId placeholder).map fun answer => (answer, s)

/-- What a sequence of calls returns, each with its time. -/
def InMemoryMappingStore.answers (s : InMemoryMappingStore) :
    List (ℚ × Call) → List (Option Text)
  | [] => []
  | (now, c) :: calls => (s.call now c).1 :: (s.call now c).2.answers calls

def RedisMappingStore.answers (s : RedisMappingStore) :
    List (ℚ × Call) → Except RedisError (List (Option Text))
  | [] => .ok []
  | (_, c) :: calls => do
      let (answer, s) ← s.call c
      let answers ← s.answers calls
      .ok (answer :: answers)

/-! ## Names that flat keys tell apart -/

/-- A conversation without the separator, and a name that does not look like a companion. -/
structure Apart (conversationId name : Text) : Prop where
  conversation : ':' ∉ conversationId
  name : ¬ttlSuffix <:+ name

theorem sep_inj {c c' n n' : Text} (hc : ':' ∉ c) (hc' : ':' ∉ c')
    (h : c ++ ':' :: n = c' ++ ':' :: n') : c = c' ∧ n = n' := by
  induction c generalizing c' with
  | nil =>
    cases c' with
    | nil => exact ⟨rfl, (List.cons.inj h).2⟩
    | cons x c' => exact absurd (List.mem_cons.mpr (.inl (List.cons.inj h).1)) hc'
  | cons x c ih =>
    cases c' with
    | nil => exact absurd (List.mem_cons.mpr (.inl (List.cons.inj h).1.symm)) hc
    | cons y c' =>
      obtain ⟨rfl, hrest⟩ := List.cons.inj h
      obtain ⟨rfl, rfl⟩ := ih (fun hmem => hc (List.mem_cons_of_mem _ hmem))
        (fun hmem => hc' (List.mem_cons_of_mem _ hmem)) hrest
      exact ⟨rfl, rfl⟩

/-- Keys of different spaces differ, whatever follows. -/
theorem head_inj {space space' : Space} {s t : Text} (h : space.head ++ s = space'.head ++ t) :
    space = space' ∧ s = t := by
  have ho2p : Space.o2p.head = ['c', 'o', 'n', 'v', ':', 'o', '2', 'p', ':'] := by decide
  have hp2o : Space.p2o.head = ['c', 'o', 'n', 'v', ':', 'p', '2', 'o', ':'] := by decide
  cases space <;> cases space'
  · exact ⟨rfl, List.append_cancel_left h⟩
  · rw [ho2p, hp2o] at h
    simp at h
  · rw [ho2p, hp2o] at h
    simp at h
  · exact ⟨rfl, List.append_cancel_left h⟩

theorem Apart.key_inj {space space' : Space} {c c' n n' : Text} (h : Apart c n) (h' : Apart c' n')
    (heq : space.key c n = space'.key c' n') : space = space' ∧ c = c' ∧ n = n' := by
  rw [Space.key, Space.key, List.append_assoc, List.append_assoc] at heq
  obtain ⟨rfl, hrest⟩ := head_inj heq
  exact ⟨rfl, sep_inj h.conversation h'.conversation hrest⟩

/-- A companion key is the key of no name. -/
theorem Apart.key_ne_companion {space space' : Space} {c c' n n' : Text} (h : Apart c n)
    (h' : Apart c' n') : space.key c n ≠ space'.key c' n' ++ ttlSuffix := by
  intro heq
  simp only [Space.key, List.append_assoc, List.cons_append] at heq
  obtain ⟨-, hrest⟩ := head_inj heq
  obtain ⟨-, rfl⟩ := sep_inj h.conversation h'.conversation hrest
  exact h.name (List.suffix_append _ _)

/-! ## Related stores -/

/-- A space of Redis that mirrors a table: it has the same values, and what stands under a
companion key is a number. -/
structure Mirrors (r : Redis) (space : Space) (table : Dict (Text × Text) (Entry Text)) : Prop where
  value : ∀ c n, Apart c n → r.get? (space.key c n) = (table.get? (c, n)).map Entry.value
  companion : ∀ c n, Apart c n → ∀ raw, r.get? (space.key c n ++ ttlSuffix) = some raw →
    ∃ ttl, parseInt raw = some ttl

theorem mirrors_empty (space : Space) : Mirrors .empty space .empty :=
  ⟨fun _ _ _ => rfl, fun _ _ _ _ h => by simp at h⟩

section Mirrors

variable {r : Redis} {space : Space} {table : Dict (Text × Text) (Entry Text)} {c n : Text}

/-- A value that is stored in both. -/
theorem Mirrors.insert (h : Mirrors r space table) (hname : Apart c n) (entry : Entry Text) :
    Mirrors (r.insert (space.key c n) entry.value) space (table.insert (c, n) entry) where
  value c' n' hname' := by
    rw [Dict.get?_insert, Dict.get?_insert]
    by_cases hkey : space.key c' n' = space.key c n
    · obtain ⟨-, rfl, rfl⟩ := hname'.key_inj hname hkey
      simp
    · have hpair : (c', n') ≠ (c, n) := by
        rintro heq
        cases heq
        exact hkey rfl
      simp only [beq_iff_eq, hkey, hpair, if_false]
      exact h.value c' n' hname'
  companion c' n' hname' raw hraw := by
    rw [Dict.get?_insert, if_neg (by simpa using (hname.key_ne_companion hname').symm)] at hraw
    exact h.companion c' n' hname' raw hraw

/-- A value that is stored in the other space. -/
theorem Mirrors.insert_other (h : Mirrors r space table) (hname : Apart c n) {space' : Space}
    (hspace : space' ≠ space) (v : Text) : Mirrors (r.insert (space'.key c n) v) space table where
  value c' n' hname' := by
    rw [Dict.get?_insert, if_neg]
    · exact h.value c' n' hname'
    · simp only [beq_iff_eq]
      intro hkey
      exact hspace (hname'.key_inj hname hkey).1.symm
  companion c' n' hname' raw hraw := by
    rw [Dict.get?_insert, if_neg (by simpa using (hname.key_ne_companion hname').symm)] at hraw
    exact h.companion c' n' hname' raw hraw

/-- A lifetime that is stored in a companion, of either space. -/
theorem Mirrors.insert_companion (h : Mirrors r space table) (hname : Apart c n) (space' : Space)
    {ttl : ℕ} (hshort : ShortInt ttl) :
    Mirrors (r.insert (space'.key c n ++ ttlSuffix) (Nat.toDigits 10 ttl)) space table where
  value c' n' hname' := by
    rw [Dict.get?_insert, if_neg (by simpa using hname'.key_ne_companion hname)]
    exact h.value c' n' hname'
  companion c' n' hname' raw hraw := by
    rw [Dict.get?_insert] at hraw
    split at hraw
    · cases hraw
      exact ⟨ttl, (parseInt_intText ttl).trans (if_pos hshort)⟩
    · exact h.companion c' n' hname' raw hraw

/-- A read of Redis returns the value of the table, and does not raise. -/
theorem Mirrors.slidingGet (h : Mirrors r space table) (hname : Apart c n) :
    (⟨r⟩ : RedisMappingStore).slidingGet (space.key c n) =
      .ok ((table.get? (c, n)).map Entry.value) := by
  rw [← h.value c n hname, RedisMappingStore.slidingGet]
  cases hvalue : r.get? (space.key c n) with
  | none => rfl
  | some raw =>
    simp only
    cases hcompanion : r.get? (space.key c n ++ ttlSuffix) with
    | none => rfl
    | some ttlRaw =>
      obtain ⟨ttl, httl⟩ := h.companion c n hname ttlRaw hcompanion
      simp only [httl]

end Mirrors

/-- A table whose entries outlast every call: they expire after `last` and are renewed for
longer than `last - first`. -/
def Outlasts (first last : ℚ) (table : Dict (Text × Text) (Entry Text)) : Prop :=
  ∀ key entry, table.get? key = some entry →
    last < entry.expiresAt ∧ ∃ ttl, entry.slidingTtl = some ttl ∧ last - first < ttl

section Outlasts

variable {first last now : ℚ} {table : Dict (Text × Text) (Entry Text)}

theorem Outlasts.insert (h : Outlasts first last table) {key : Text × Text} {value : Text} {ttl : ℚ}
    (hnow : first ≤ now) (httl : last - first < ttl) :
    Outlasts first last (table.insert key ⟨value, now + ttl, some ttl⟩) := by
  intro key' entry hentry
  rw [Dict.get?_insert] at hentry
  split at hentry
  · cases hentry
    exact ⟨by linarith, ttl, rfl, httl⟩
  · exact h key' entry hentry

/-- A read of the table returns its value and renews the lifetime. -/
theorem Outlasts.getSliding (h : Outlasts first last table) (hfirst : first ≤ now)
    (hlast : now ≤ last) (key : Text × Text) :
    ∃ table', InMemoryMappingStore.getSliding table now key =
        ((table.get? key).map Entry.value, table') ∧ Outlasts first last table' ∧
      ∀ key', (table'.get? key').map Entry.value = (table.get? key').map Entry.value := by
  unfold InMemoryMappingStore.getSliding
  cases hentry : table.get? key with
  | none => exact ⟨table, rfl, h, fun _ => rfl⟩
  | some entry =>
    obtain ⟨hexpires, ttl, hsliding, httl⟩ := h key entry hentry
    obtain ⟨value, expiresAt, slidingTtl⟩ := entry
    obtain rfl : slidingTtl = some ttl := hsliding
    simp only [if_neg (not_le.mpr (hlast.trans_lt hexpires))]
    refine ⟨_, rfl, h.insert hfirst httl, ?_⟩
    intro key'
    rw [Dict.get?_insert]
    split
    · next hkey =>
      rw [eq_of_beq hkey, hentry]
      rfl
    · rfl

end Outlasts

/-! ## Refinement -/

/-- Both stores hold the same. -/
structure Refines (first last : ℚ) (s : RedisMappingStore) (m : InMemoryMappingStore) : Prop where
  o2p : Mirrors s.r .o2p m.o2p
  p2o : Mirrors s.r .p2o m.p2o
  o2pOutlasts : Outlasts first last m.o2p
  p2oOutlasts : Outlasts first last m.p2o

/-- The names of a call. -/
def Call.NamesApart : Call → Prop
  | .put conversationId original placeholder _ =>
      Apart conversationId original ∧ Apart conversationId placeholder
  | .getPlaceholder conversationId original => Apart conversationId original
  | .getOriginal conversationId placeholder => Apart conversationId placeholder

/-- The lifetime that a call gives outlasts all calls, and can be written. -/
def Call.Lasting (first last : ℚ) : Call → Prop
  | .put _ _ _ ttl => last - first < ttl ∧ ShortInt ttl
  | .getPlaceholder _ _ | .getOriginal _ _ => True

/-- A call between `first` and `last` whose names are apart. -/
structure Fits (first last : ℚ) (now : ℚ) (c : Call) : Prop where
  notBefore : first ≤ now
  notAfter : now ≤ last
  names : c.NamesApart
  lasting : c.Lasting first last

section Refines

variable {first last now : ℚ} {s : RedisMappingStore} {m : InMemoryMappingStore}

theorem Mirrors.congr {r : Redis} {space : Space} {table table' : Dict (Text × Text) (Entry Text)}
    (h : Mirrors r space table)
    (htable : ∀ key, (table'.get? key).map Entry.value = (table.get? key).map Entry.value) :
    Mirrors r space table' where
  value c n hname := (h.value c n hname).trans (htable (c, n)).symm
  companion := h.companion

/-- **One call**: related stores answer alike, and stay related. -/
theorem Refines.call (h : Refines first last s m) {c : Call} (hc : Fits first last now c) :
    ∃ s', s.call c = .ok ((m.call now c).1, s') ∧ Refines first last s' (m.call now c).2 := by
  cases c with
  | put conversationId original placeholder ttl =>
    obtain ⟨ho, hp⟩ := hc.names
    obtain ⟨hlast, hshort⟩ := hc.lasting
    refine ⟨_, rfl, ?_, ?_, h.o2pOutlasts.insert hc.notBefore hlast,
      h.p2oOutlasts.insert hc.notBefore hlast⟩
    · -- the original's own key, then three keys that are none of its space's
      have h₁ := h.o2p.insert ho ⟨placeholder, now + ttl, some ttl⟩
      have h₂ := h₁.insert_other hp (by decide : Space.p2o ≠ .o2p) original
      exact (h₂.insert_companion ho .o2p hshort).insert_companion hp .p2o hshort
    · have h₁ := h.p2o.insert_other ho (by decide : Space.o2p ≠ .p2o) placeholder
      have h₂ := h₁.insert hp ⟨original, now + ttl, some ttl⟩
      exact (h₂.insert_companion ho .o2p hshort).insert_companion hp .p2o hshort
  | getPlaceholder conversationId original =>
    have hname : Apart conversationId original := hc.names
    obtain ⟨table, hread, hlasts, hvalues⟩ :=
      h.o2pOutlasts.getSliding hc.notBefore hc.notAfter (conversationId, original)
    have hm : m.call now (.getPlaceholder conversationId original) =
        ((m.o2p.get? (conversationId, original)).map Entry.value, { m with o2p := table }) := by
      simp only [InMemoryMappingStore.call, InMemoryMappingStore.getPlaceholder, hread]
    have hr : s.getPlaceholder conversationId original = _ := h.o2p.slidingGet hname
    refine ⟨s, ?_, ?_⟩
    · rw [RedisMappingStore.call, hr, hm]
      rfl
    · rw [hm]
      exact ⟨h.o2p.congr hvalues, h.p2o, hlasts, h.p2oOutlasts⟩
  | getOriginal conversationId placeholder =>
    have hname : Apart conversationId placeholder := hc.names
    obtain ⟨table, hread, hlasts, hvalues⟩ :=
      h.p2oOutlasts.getSliding hc.notBefore hc.notAfter (conversationId, placeholder)
    have hm : m.call now (.getOriginal conversationId placeholder) =
        ((m.p2o.get? (conversationId, placeholder)).map Entry.value, { m with p2o := table }) := by
      simp only [InMemoryMappingStore.call, InMemoryMappingStore.getOriginal, hread]
    have hr : s.getOriginal conversationId placeholder = _ := h.p2o.slidingGet hname
    refine ⟨s, ?_, ?_⟩
    · rw [RedisMappingStore.call, hr, hm]
      rfl
    · rw [hm]
      exact ⟨h.o2p, h.p2o.congr hvalues, h.o2pOutlasts, hlasts⟩

/-- Related stores answer a whole sequence of calls alike. -/
theorem Refines.answers (h : Refines first last s m) {calls : List (ℚ × Call)}
    (hcalls : ∀ x ∈ calls, Fits first last x.1 x.2) :
    s.answers calls = .ok (m.answers calls) := by
  induction calls generalizing s m with
  | nil => rfl
  | cons x calls ih =>
    obtain ⟨hx, hcalls⟩ := List.forall_mem_cons.mp hcalls
    obtain ⟨s', hcall, hrefines⟩ := h.call hx
    simp only [RedisMappingStore.answers, InMemoryMappingStore.answers, hcall, ih hrefines hcalls,
      bind, Except.bind]

end Refines

/-- **The store in Redis refines the one in memory** while no entry expires: for names that the
flat keys tell apart both return the same, and nothing raises. -/
theorem redis_refines_inMemory {first last : ℚ} {calls : List (ℚ × Call)}
    (hcalls : ∀ x ∈ calls, Fits first last x.1 x.2) :
    RedisMappingStore.empty.answers calls = .ok (InMemoryMappingStore.empty.answers calls) := by
  have hempty : Outlasts first last (Dict.empty : Dict (Text × Text) (Entry Text)) :=
    fun key entry hentry => by simp at hentry
  have hrefines : Refines first last RedisMappingStore.empty InMemoryMappingStore.empty :=
    ⟨mirrors_empty _, mirrors_empty _, hempty, hempty⟩
  exact hrefines.answers hcalls

theorem redis_refines_inMemory_put :
    let calls : List (ℚ × Call) :=
      [(0, .put "a".toList "b:c".toList "P".toList 60), (1, .getPlaceholder "a".toList "b:c".toList)]
    (∀ x ∈ calls, Fits 0 1 x.1 x.2) ∧
      RedisMappingStore.empty.answers calls = .ok (InMemoryMappingStore.empty.answers calls) := by
  intro calls
  have hapart : ∀ name : Text, ¬ttlSuffix <:+ name → Apart "a".toList name :=
    fun name hname => ⟨by decide, hname⟩
  have hcalls : ∀ x ∈ calls, Fits 0 1 x.1 x.2 := by
    simp only [calls, List.forall_mem_cons, List.not_mem_nil, false_imp_iff, implies_true, and_true]
    refine ⟨⟨le_rfl, by norm_num, ⟨hapart _ (by decide), hapart _ (by decide)⟩, ?_⟩,
      ⟨by norm_num, le_rfl, hapart _ (by decide), trivial⟩⟩
    exact ⟨by norm_num, by decide⟩
  exact ⟨hcalls, redis_refines_inMemory hcalls⟩

/-- Two pairs under one key: a conversation reads the entry of another one. And a name that
looks like a companion: it replaces a lifetime by a text, and the read of the other name
raises. -/
theorem redis_diverges :
    let foreign : List (ℚ × Call) :=
      [(0, .put "a".toList "b:c".toList "P".toList 60), (0, .getPlaceholder "a:b".toList "c".toList)]
    let companion : List (ℚ × Call) :=
      [(0, .put "a".toList "x".toList "P".toList 60), (0, .put "a".toList "x:ttl".toList "Q".toList 60),
        (0, .getPlaceholder "a".toList "x".toList)]
    RedisMappingStore.empty.answers foreign = .ok [none, some "P".toList] ∧
      InMemoryMappingStore.empty.answers foreign = [none, none] ∧
      RedisMappingStore.empty.answers companion = .error .valueError ∧
      InMemoryMappingStore.empty.answers companion = [none, none, some "P".toList] := by
  intro foreign companion
  refine ⟨rfl, by decide +kernel, rfl, by decide +kernel⟩

end CorpLlmGateway.Storage
