import Mathlib

/-!
# Insertion-ordered dictionaries

A dictionary that iterates in the order in which its keys were first stored, as
an association list with distinct keys.

* `setdefault` keeps the value of a key that is already there (first claim wins);
* `insert` overwrites it in place;
* `ofPairs` claims keys from the front of a list, so `get?_ofPairs` reads the
  first pair of a key.
-/

/-- An insertion-ordered dictionary; the keys of its entries are distinct. -/
structure Dict (κ ν : Type) where
  entries : List (κ × ν)
  nodup : (entries.map Prod.fst).Nodup

namespace Dict

variable {κ ν : Type}

/-- The keys in the order of their first insertion. -/
def keys (d : Dict κ ν) : List κ := d.entries.map Prod.fst

theorem keys_nodup (d : Dict κ ν) : d.keys.Nodup := d.nodup

def empty : Dict κ ν := ⟨[], List.nodup_nil⟩

variable [BEq κ] [LawfulBEq κ]

/-- `d.get(k)`. -/
def get? (d : Dict κ ν) (k : κ) : Option ν := d.entries.lookup k

theorem isSome_lookup {l : List (κ × ν)} {k : κ} :
    (l.lookup k).isSome = true ↔ k ∈ l.map Prod.fst := by
  induction l with
  | nil => simp
  | cons e l ih =>
    rcases e with ⟨a, b⟩
    by_cases hk : k = a
    · simp [hk]
    · have hne : (k == a) = false := by simpa using hk
      rw [List.lookup_cons, hne, List.map_cons, List.mem_cons]
      simp only [hk, false_or]
      exact ih

theorem mem_keys {d : Dict κ ν} {k : κ} : k ∈ d.keys ↔ (d.get? k).isSome :=
  isSome_lookup.symm

theorem get?_eq_none {d : Dict κ ν} {k : κ} : d.get? k = none ↔ k ∉ d.keys := by
  rw [mem_keys]
  cases d.get? k <;> simp

/-- Append an entry for a key that is not there. -/
def append (d : Dict κ ν) (k : κ) (v : ν) (h : d.get? k = none) : Dict κ ν :=
  ⟨d.entries ++ [(k, v)], by
    have hk : k ∉ d.entries.map Prod.fst := get?_eq_none.mp h
    rw [List.map_append, List.nodup_append]
    refine ⟨d.nodup, by simp, ?_⟩
    intro a ha b hb hab
    simp only [List.map_cons, List.map_nil, List.mem_singleton] at hb
    exact hk (hb ▸ hab ▸ ha)⟩

/-- `d.setdefault(k, v)`: the first value stored for a key stays. -/
def setdefault (d : Dict κ ν) (k : κ) (v : ν) : Dict κ ν :=
  match h : d.get? k with
  | some _ => d
  | none => d.append k v h

/-- `d[k] = v`: a key that is there keeps its place. -/
def insert (d : Dict κ ν) (k : κ) (v : ν) : Dict κ ν :=
  match h : d.get? k with
  | some _ => ⟨d.entries.map fun e => (e.1, if e.1 == k then v else e.2), by
      simpa [List.map_map, Function.comp_def] using d.nodup⟩
  | none => d.append k v h

/-- `del d[k]`. -/
def erase (d : Dict κ ν) (k : κ) : Dict κ ν :=
  ⟨d.entries.filter fun e => !(e.1 == k), d.nodup.sublist (List.filter_sublist.map _)⟩

/-- Claim the keys of a list of pairs from the front: `for k, v in pairs: d.setdefault(k, v)`. -/
def ofPairs (pairs : List (κ × ν)) : Dict κ ν :=
  pairs.foldl (fun d e => d.setdefault e.1 e.2) empty

omit [LawfulBEq κ] in
@[simp] theorem get?_empty (k : κ) : (empty : Dict κ ν).get? k = none := rfl

theorem get?_append (d : Dict κ ν) (k k' : κ) (v : ν) (h : d.get? k = none) :
    (d.append k v h).get? k' = if k' == k then some v else d.get? k' := by
  unfold append get?
  rw [List.lookup_append]
  by_cases hk : k' = k
  · subst hk
    have h' : d.entries.lookup k' = none := h
    simp [h']
  · cases d.entries.lookup k' <;> simp [hk]

/-- A claimed key keeps its value, a free one takes the default. -/
theorem get?_setdefault (d : Dict κ ν) (k k' : κ) (v : ν) :
    (d.setdefault k v).get? k' = if k' == k then some ((d.get? k).getD v) else d.get? k' := by
  unfold setdefault
  split
  · next x hx =>
    by_cases hk : k' = k
    · simp [hk, hx]
    · simp [hk]
  · next hx => simp [get?_append, hx]

theorem lookup_map_value (l : List (κ × ν)) (k k' : κ) (v : ν) :
    (l.map fun e => (e.1, if e.1 == k then v else e.2)).lookup k' =
      if k' == k then (l.lookup k').map (fun _ => v) else l.lookup k' := by
  induction l with
  | nil => simp
  | cons e l ih =>
    rcases e with ⟨a, b⟩
    by_cases hk' : k' = a
    · subst hk'
      by_cases hk : k' = k <;> simp [hk]
    · have hne : (k' == a) = false := by simpa using hk'
      simp only [List.map_cons, List.lookup_cons, hne, ih]

/-- Values that are changed in place, key by key. -/
theorem lookup_map_snd (l : List (κ × ν)) (g : κ → ν → ν) (k : κ) :
    (l.map fun e => (e.1, g e.1 e.2)).lookup k = (l.lookup k).map (g k) := by
  induction l with
  | nil => rfl
  | cons e l ih =>
    obtain ⟨a, b⟩ := e
    by_cases hk : k = a
    · simp [hk]
    · have hne : (k == a) = false := by simpa using hk
      simp only [List.map_cons, List.lookup_cons, hne, ih]

theorem get?_insert (d : Dict κ ν) (k k' : κ) (v : ν) :
    (d.insert k v).get? k' = if k' == k then some v else d.get? k' := by
  unfold insert
  split
  · next x hx =>
    by_cases hk : k' = k
    · subst hk
      have hx' : d.entries.lookup k' = some x := hx
      simp [get?, lookup_map_value, hx']
    · simp [get?, lookup_map_value, hk]
  · next hx => simp [get?_append]

theorem lookup_filter_ne {l : List (κ × ν)} {k k' : κ} (h : k' ≠ k) :
    (l.filter fun e => !(e.1 == k)).lookup k' = l.lookup k' := by
  induction l with
  | nil => rfl
  | cons e l ih =>
    rcases e with ⟨a, b⟩
    by_cases ha : a = k
    · have hne : (k' == a) = false := by simpa [ha] using h
      rw [List.filter_cons_of_neg (by simp [ha]), ih, List.lookup_cons, hne]
    · rw [List.filter_cons_of_pos (by simpa using ha), List.lookup_cons, List.lookup_cons, ih]

theorem get?_erase (d : Dict κ ν) (k k' : κ) :
    (d.erase k).get? k' = if k' == k then none else d.get? k' := by
  by_cases hk : k' = k
  · rw [if_pos (by simpa using hk), get?_eq_none, hk]
    intro hmem
    rcases List.mem_map.mp hmem with ⟨e, he, heq⟩
    have hne := (List.mem_filter.mp he).2
    simp [heq] at hne
  · rw [if_neg (by simpa using hk)]
    exact lookup_filter_ne hk

/-- Folding claims over a dictionary: an earlier claim wins, then the first pair. -/
theorem get?_foldl_setdefault (pairs : List (κ × ν)) (d : Dict κ ν) (k : κ) :
    (pairs.foldl (fun d e => d.setdefault e.1 e.2) d).get? k = (d.get? k).or (pairs.lookup k) := by
  induction pairs generalizing d with
  | nil => simp
  | cons e pairs ih =>
    rcases e with ⟨a, b⟩
    simp only [List.foldl_cons, List.lookup_cons, ih, get?_setdefault]
    by_cases hk : k = a
    · subst hk
      cases d.get? k <;> simp
    · have hne : (k == a) = false := by simpa using hk
      simp [hne]

/-- The dictionary of a list of pairs reads the first pair of a key. -/
theorem get?_ofPairs (pairs : List (κ × ν)) (k : κ) : (ofPairs pairs).get? k = pairs.lookup k := by
  simp [ofPairs, get?_foldl_setdefault]

theorem mem_keys_ofPairs {pairs : List (κ × ν)} {k : κ} :
    k ∈ (ofPairs pairs).keys ↔ k ∈ pairs.map Prod.fst := by
  rw [mem_keys, get?_ofPairs, isSome_lookup]

theorem mem_entries_setdefault {d : Dict κ ν} {k : κ} {v : ν} {e : κ × ν}
    (h : e ∈ (d.setdefault k v).entries) : e ∈ d.entries ∨ e = (k, v) := by
  unfold setdefault at h
  split at h
  · exact Or.inl h
  · rcases List.mem_append.mp h with h | h
    · exact Or.inl h
    · exact Or.inr (List.mem_singleton.mp h)

theorem mem_entries_foldl_setdefault {pairs : List (κ × ν)} {d : Dict κ ν} {e : κ × ν}
    (h : e ∈ (pairs.foldl (fun d e => d.setdefault e.1 e.2) d).entries) :
    e ∈ d.entries ∨ e ∈ pairs := by
  induction pairs generalizing d with
  | nil => exact Or.inl h
  | cons x pairs ih =>
    rcases ih h with hd | hp
    · rcases mem_entries_setdefault hd with hd | rfl
      · exact Or.inl hd
      · exact Or.inr List.mem_cons_self
    · exact Or.inr (List.mem_cons_of_mem _ hp)

/-- The entries of a dict that is filled from pairs are among them. -/
theorem mem_of_mem_entries_ofPairs {pairs : List (κ × ν)} {e : κ × ν}
    (h : e ∈ (ofPairs pairs).entries) : e ∈ pairs := by
  rcases mem_entries_foldl_setdefault h with h | h
  · exact absurd h List.not_mem_nil
  · exact h

theorem entries_foldl_setdefault (pairs : List (κ × ν)) (d : Dict κ ν)
    (h : (d.keys ++ pairs.map Prod.fst).Nodup) :
    (pairs.foldl (fun d e => d.setdefault e.1 e.2) d).entries = d.entries ++ pairs := by
  induction pairs generalizing d with
  | nil => simp
  | cons e pairs ih =>
    have hnew : d.get? e.1 = none := by
      rw [get?_eq_none]
      intro hmem
      exact (List.nodup_append.mp h).2.2 _ hmem _ (by simp) rfl
    have hset : (d.setdefault e.1 e.2).entries = d.entries ++ [e] := by
      unfold setdefault
      split
      · next hx => rw [hnew] at hx; contradiction
      · rfl
    rw [List.foldl_cons, ih, hset]
    · simp
    · unfold keys at h ⊢
      rw [hset]
      simpa using h

/-- A list of pairs with distinct keys is its own dictionary. -/
theorem entries_ofPairs {pairs : List (κ × ν)} (h : (pairs.map Prod.fst).Nodup) :
    (ofPairs pairs).entries = pairs := by
  rw [ofPairs, entries_foldl_setdefault pairs empty (by simpa [empty, keys] using h)]
  rfl

/-- The first pair of each key, in order. -/
def firsts [DecidableEq κ] : List (κ × ν) → List (κ × ν)
  | [] => []
  | e :: pairs => e :: (firsts pairs).filter fun e' => e'.1 ≠ e.1

/-- The loop that claims keys appends the first pairs of the keys that are free. -/
theorem entries_foldl_firsts [DecidableEq κ] (pairs : List (κ × ν)) (d : Dict κ ν) :
    (pairs.foldl (fun d e => d.setdefault e.1 e.2) d).entries =
      d.entries ++ (firsts pairs).filter fun e => e.1 ∉ d.keys := by
  induction pairs generalizing d with
  | nil => simp [firsts]
  | cons e pairs ih =>
    rw [List.foldl_cons, ih, firsts]
    unfold setdefault
    split
    · next x hx =>
      have hmem : e.1 ∈ d.keys := mem_keys.mpr (by simp [hx])
      have hkey : ∀ e' : κ × ν, e'.1 ∉ d.keys → e'.1 ≠ e.1 := fun e' h heq => h (heq ▸ hmem)
      rw [List.filter_cons_of_neg (by simpa using hmem), List.filter_filter]
      congr 1
      refine List.filter_congr fun e' _ => ?_
      by_cases he' : e'.1 ∈ d.keys
      · simp [he']
      · simp [he', hkey e' he']
    · next hx =>
      have hno : e.1 ∉ d.keys := get?_eq_none.mp hx
      rw [List.filter_cons_of_pos (by simpa using hno), List.filter_filter]
      have hkeys : (d.append e.1 e.2 hx).keys = d.keys ++ [e.1] := by simp [keys, append]
      show (d.entries ++ [(e.1, e.2)]) ++ _ = _
      rw [hkeys, List.append_assoc]
      have hfilter : (firsts pairs).filter (fun e' => decide (e'.1 ∉ d.keys ++ [e.1])) =
          (firsts pairs).filter fun e' => decide (e'.1 ∉ d.keys) && decide (e'.1 ≠ e.1) :=
        List.filter_congr fun e' _ => by simp
      rw [hfilter]
      rfl

theorem entries_ofPairs_firsts [DecidableEq κ] (pairs : List (κ × ν)) :
    (ofPairs pairs).entries = firsts pairs := by
  rw [ofPairs, entries_foldl_firsts]
  simp [empty, keys]

omit [BEq κ] [LawfulBEq κ] in
/-- Dropping pairs by their keys and keeping first pairs commute. -/
theorem firsts_filter [DecidableEq κ] (P : κ → Bool) (pairs : List (κ × ν)) :
    firsts (pairs.filter fun e => P e.1) = (firsts pairs).filter fun e => P e.1 := by
  induction pairs with
  | nil => rfl
  | cons e pairs ih =>
    rw [firsts]
    by_cases he : P e.1 = true
    · rw [List.filter_cons_of_pos (p := fun e : κ × ν => P e.1) he,
        List.filter_cons_of_pos (p := fun e : κ × ν => P e.1) he, firsts, ih,
        List.filter_filter, List.filter_filter]
      congr 1
      exact List.filter_congr fun e' _ => Bool.and_comm ..
    · rw [List.filter_cons_of_neg (p := fun e : κ × ν => P e.1) he,
        List.filter_cons_of_neg (p := fun e : κ × ν => P e.1) he, ih, List.filter_filter]
      -- a pair with the dropped key is dropped by its key
      refine List.filter_congr fun e' _ => ?_
      by_cases heq : e'.1 = e.1
      · simp [heq, he]
      · simp [heq]

/-- Storing a value changes it in place, or appends a key that is not there. -/
theorem entries_insert (d : Dict κ ν) (k : κ) (v : ν) :
    (d.insert k v).entries =
      if (d.get? k).isSome then d.entries.map fun e => (e.1, if e.1 == k then v else e.2)
      else d.entries ++ [(k, v)] := by
  unfold insert
  split
  · next hx => simp [hx]
  · next hx => simp [hx, append]

theorem entries_insert_of_notMem {d : Dict κ ν} {k : κ} (v : ν) (h : k ∉ d.keys) :
    (d.insert k v).entries = d.entries ++ [(k, v)] := by
  rw [entries_insert, get?_eq_none.mpr h]
  rfl

/-- Storing a value in a dictionary of which some keys were dropped. -/
theorem filter_entries_insert {P : κ → Bool} {d d' : Dict κ ν}
    (h : d'.entries = d.entries.filter fun e => P e.1) (k : κ) (v : ν) :
    ((d.insert k v).entries.filter fun e => P e.1) =
      if P k then (d'.insert k v).entries else d'.entries := by
  have hkeys : P k = true → ((d'.get? k).isSome ↔ (d.get? k).isSome) := by
    intro hk
    rw [← mem_keys, ← mem_keys, keys, keys, h]
    constructor
    · exact fun hmem => (List.filter_sublist.map Prod.fst).subset hmem
    · intro hmem
      obtain ⟨e, he, rfl⟩ := List.mem_map.mp hmem
      exact List.mem_map_of_mem (List.mem_filter.mpr ⟨he, hk⟩)
  rw [entries_insert, entries_insert]
  by_cases hsome : (d.get? k).isSome
  · rw [if_pos hsome, List.filter_map, Function.comp_def, ← h]
    by_cases hk : P k = true
    · rw [if_pos hk, if_pos ((hkeys hk).mpr hsome)]
    · rw [if_neg hk, h]
      -- the value that changes belongs to a key that is dropped
      refine (List.map_congr_left fun e he => ?_).trans (List.map_id _)
      have hne : e.1 ≠ k := fun heq => hk (heq ▸ (List.mem_filter.mp he).2)
      simp [hne]
  · rw [if_neg hsome, List.filter_append, ← h]
    by_cases hk : P k = true
    · rw [if_pos hk, if_neg (fun h' => hsome ((hkeys hk).mp h'))]
      simp [hk]
    · rw [if_neg hk]
      simp [hk]

/-- Dropping keys before a loop that stores values, or after it. -/
theorem filter_entries_foldl_insert {P : κ → Bool} (l : List (κ × ν)) {d d' : Dict κ ν}
    (h : d'.entries = d.entries.filter fun e => P e.1) :
    ((l.filter fun e => P e.1).foldl (fun d e => d.insert e.1 e.2) d').entries =
      (l.foldl (fun d e => d.insert e.1 e.2) d).entries.filter fun e => P e.1 := by
  induction l generalizing d d' with
  | nil => exact h
  | cons e l ih =>
    have hstep := filter_entries_insert h e.1 e.2
    by_cases hk : P e.1 = true
    · rw [List.filter_cons_of_pos (p := fun e : κ × ν => P e.1) hk]
      rw [if_pos hk] at hstep
      exact ih hstep.symm
    · rw [List.filter_cons_of_neg (p := fun e : κ × ν => P e.1) hk]
      rw [if_neg hk] at hstep
      exact ih hstep.symm

/-- A loop that stores values for keys that are there changes each of them in place. -/
theorem entries_foldl_insert (l : List (κ × ν)) (d : Dict κ ν) (h : ∀ e ∈ l, e.1 ∈ d.keys)
    (hl : (l.map Prod.fst).Nodup) :
    (l.foldl (fun d e => d.insert e.1 e.2) d).entries =
      d.entries.map fun e => (e.1, (l.lookup e.1).getD e.2) := by
  induction l generalizing d with
  | nil => simp
  | cons x l ih =>
    obtain ⟨k, v⟩ := x
    obtain ⟨hx, hl⟩ := List.nodup_cons.mp hl
    have hentries : (d.insert k v).entries =
        d.entries.map fun e => (e.1, if e.1 == k then v else e.2) := by
      rw [entries_insert, if_pos (mem_keys.mp (h (k, v) List.mem_cons_self))]
    have hkeys : (d.insert k v).keys = d.keys := by
      rw [keys, hentries, List.map_map]
      rfl
    rw [List.foldl_cons, ih _ (fun e he => hkeys ▸ h e (List.mem_cons_of_mem _ he)) hl, hentries,
      List.map_map]
    refine List.map_congr_left fun e _ => ?_
    by_cases he : e.1 = k
    · have hnone : l.lookup k = none := by
        rw [← Option.not_isSome_iff_eq_none, isSome_lookup]
        exact hx
      simp [he, hnone]
    · have hne : (e.1 == k) = false := by simpa using he
      simp [List.lookup_cons, hne]

/-- An entry is what its key reads. -/
theorem mem_entries {d : Dict κ ν} {k : κ} {v : ν} : (k, v) ∈ d.entries ↔ d.get? k = some v := by
  unfold get?
  have hnodup := d.nodup
  generalize d.entries = l at hnodup
  induction l with
  | nil => simp
  | cons e l ih =>
    obtain ⟨a, b⟩ := e
    obtain ⟨ha, hl⟩ := List.nodup_cons.mp hnodup
    by_cases hk : k = a
    · subst hk
      have hne : (k, v) ∉ l := fun hmem => ha (List.mem_map.mpr ⟨_, hmem, rfl⟩)
      simp [hne, eq_comm]
    · have hne : (k == a) = false := by simpa using hk
      simp only [List.mem_cons, Prod.mk.injEq, hk, false_and, false_or, List.lookup_cons, hne, ih hl]

/-- Over the entries of a dictionary, one key contributes what its value does. -/
theorem flatMap_lookup [DecidableEq κ] {α : Type} {l : List (κ × ν)} (h : (l.map Prod.fst).Nodup)
    (k : κ) (g : ν → List α) :
    (l.flatMap fun e => if e.1 = k then g e.2 else []) =
      match l.lookup k with
      | some v => g v
      | none => [] := by
  induction l with
  | nil => rfl
  | cons e l ih =>
    obtain ⟨a, v⟩ := e
    obtain ⟨ha, hl⟩ := List.nodup_cons.mp h
    rw [List.flatMap_cons, ih hl]
    by_cases hk : a = k
    · subst hk
      have hnone : l.lookup a = none := by
        rw [← Option.not_isSome_iff_eq_none, isSome_lookup]
        exact ha
      simp [hnone]
    · have hne : (k == a) = false := by simpa using Ne.symm hk
      simp [List.lookup_cons, hne, hk]

end Dict
