import CorpLlmGateway.Data.Dict
import CorpLlmGateway.Json.Token
import CorpLlmGateway.Text.Numerals

/-!
# JSON values

The values that `json.loads` returns. Floating-point numbers are a parameter: a type
with the conversions of `float` and `repr`, of which only the documented round trip is
assumed. An object keeps its fields in the order in which their names first occurred.

* `Fields.get?_set` — a field that is stored is read back, the others stay;
* `Ok` — the values that have a text: names are distinct, and no integer has more
  digits than the interpreter converts.
-/

open Json in
/-- The floating-point numbers of the interpreter. -/
class Json.Floats (F : Type) where
  /-- `float(literal)`. -/
  ofLiteral : List Char → F
  /-- `repr(f)`, with the names that JSON texts use for the special values. -/
  repr : F → List Char
  /-- The exact value; NaN and the infinities have none. -/
  value : F → Option ℚ
  isFloatLiteral_repr : ∀ f, IsFloatLiteral (repr f)
  ofLiteral_repr : ∀ f, ofLiteral (repr f) = f

/-- A JSON value over the floating-point numbers `F`. -/
inductive Json (F : Type) where
  | null
  | bool (b : Bool)
  | int (n : ℤ)
  | float (f : F)
  | str (s : PyStr)
  | arr (items : List (Json F))
  | obj (fields : List (PyStr × Json F))

namespace Json

variable {F : Type}

/-- The fields of an object. -/
abbrev Fields (F : Type) := List (PyStr × Json F)

/-- To prove something of every value: the items of a list and the fields of an object
come before it. -/
@[elab_as_elim]
theorem induct {P : Json F → Prop} (null : P .null) (bool : ∀ b, P (.bool b))
    (int : ∀ n, P (.int n)) (float : ∀ f, P (.float f)) (str : ∀ s, P (.str s))
    (arr : ∀ items, (∀ x ∈ items, P x) → P (.arr items))
    (obj : ∀ fields : Fields F, (∀ e ∈ fields, P e.2) → P (.obj fields)) (j : Json F) : P j :=
  @Json.rec F P (fun items => ∀ x ∈ items, P x) (fun fields => ∀ e ∈ fields, P e.2)
    (fun e => P e.2) null bool int float str arr obj (by simp)
    (fun x xs hx hxs => by
      intro y hy
      rcases List.mem_cons.mp hy with rfl | hy
      · exact hx
      · exact hxs y hy)
    (by simp)
    (fun e es he hes => by
      intro y hy
      rcases List.mem_cons.mp hy with rfl | hy
      · exact he
      · exact hes y hy)
    (fun _ _ h => h) j

/-! ## Fields -/

namespace Fields

/-- `d.get(k)`. -/
def get? (fs : Fields F) (k : PyStr) : Option (Json F) := fs.lookup k

/-- `k in d`. -/
def has (fs : Fields F) (k : PyStr) : Bool := (fs.get? k).isSome

/-- `d[k] = v`: a name that is there keeps its place. -/
def set (fs : Fields F) (k : PyStr) (v : Json F) : Fields F :=
  if fs.has k then fs.map fun e => (e.1, if e.1 == k then v else e.2) else fs ++ [(k, v)]

/-- `d.update(new)`. -/
def update (fs new : Fields F) : Fields F := new.foldl (fun fs e => fs.set e.1 e.2) fs

/-- `dict(pairs)`: the last value of a name, at the place of the first. -/
def ofPairs (pairs : Fields F) : Fields F := update [] pairs

variable {fs : Fields F}

@[simp] theorem get?_nil (k : PyStr) : get? ([] : Fields F) k = none := rfl

theorem get?_cons (k k' : PyStr) (v : Json F) (fs : Fields F) :
    get? ((k, v) :: fs) k' = if k' = k then some v else fs.get? k' := by
  by_cases h : k' = k
  · simp [get?, List.lookup, h]
  · have hne : (k' == k) = false := by simpa using h
    simp [get?, List.lookup, h, hne]

theorem get?_set (fs : Fields F) (k k' : PyStr) (v : Json F) :
    (fs.set k v).get? k' = if k' = k then some v else fs.get? k' := by
  by_cases hk : fs.has k = true
  · rw [set, if_pos hk]
    have hlookup := Dict.lookup_map_value fs k k' v
    by_cases hk' : k' = k
    · subst hk'
      obtain ⟨w, hw⟩ := Option.isSome_iff_exists.mp hk
      simpa [get?, show fs.lookup k' = some w from hw] using hlookup
    · simpa [get?, hk'] using hlookup
  · rw [set, if_neg hk]
    have hnone : fs.lookup k = none := Option.not_isSome_iff_eq_none.mp hk
    by_cases hk' : k' = k
    · subst hk'
      simp [get?, List.lookup_append, hnone]
    · simp only [get?, List.lookup_append, hk', if_false]
      cases fs.lookup k' <;> simp [hk']

@[simp] theorem get?_set_self (fs : Fields F) (k : PyStr) (v : Json F) :
    (fs.set k v).get? k = some v := by
  simp [get?_set]

theorem get?_set_of_ne {k k' : PyStr} (h : k' ≠ k) (v : Json F) :
    (fs.set k v).get? k' = fs.get? k' := by
  simp [get?_set, h]

theorem mem_of_get? {k : PyStr} {v : Json F} (h : fs.get? k = some v) : (k, v) ∈ fs := by
  induction fs with
  | nil => simp [get?] at h
  | cons e fs ih =>
    obtain ⟨k', v'⟩ := e
    by_cases hk : k = k'
    · subst hk
      have hv : v' = v := by simpa [get?, List.lookup] using h
      simp [hv]
    · have hne : (k == k') = false := by simpa using hk
      have hrest : get? fs k = some v := by simpa [get?, List.lookup, hne] using h
      exact List.mem_cons_of_mem _ (ih hrest)

theorem has_iff {k : PyStr} : fs.has k = true ↔ k ∈ fs.map Prod.fst := Dict.isSome_lookup

theorem get?_none_of_not_mem (fs : Fields F) {k : PyStr} (h : k ∉ fs.map Prod.fst) :
    fs.get? k = none := by
  rw [← has_iff, has, Option.not_isSome_iff_eq_none] at h
  exact h

theorem keys_set (fs : Fields F) (k : PyStr) (v : Json F) :
    (fs.set k v).map Prod.fst = if fs.has k then fs.map Prod.fst else fs.map Prod.fst ++ [k] := by
  unfold set
  split <;> simp

theorem set_nodup (h : (fs.map Prod.fst).Nodup) (k : PyStr) (v : Json F) :
    ((fs.set k v).map Prod.fst).Nodup := by
  rw [keys_set]
  split
  · exact h
  · next hk =>
    have hnot : k ∉ fs.map Prod.fst := fun hmem => hk (has_iff.mpr hmem)
    rw [List.nodup_append]
    refine ⟨h, by simp, ?_⟩
    rintro a ha b hb rfl
    exact hnot (by simpa [List.mem_singleton.mp hb] using ha)

/-- Objects with each name once are equal if they have the same names in the same order and
the same values. -/
theorem ext_get? {gs : Fields F} (hkeys : fs.map Prod.fst = gs.map Prod.fst)
    (hnodup : (gs.map Prod.fst).Nodup) (h : ∀ k, fs.get? k = gs.get? k) : fs = gs := by
  induction gs generalizing fs with
  | nil => simpa using hkeys
  | cons e gs ih =>
    obtain ⟨k, v⟩ := e
    cases fs with
    | nil => cases hkeys
    | cons e' fs =>
      obtain ⟨k', v'⟩ := e'
      simp only [List.map_cons, List.cons.injEq, List.nodup_cons] at hkeys hnodup
      obtain ⟨rfl, hkeys⟩ := hkeys
      have hv : v' = v := by simpa [get?_cons] using h k'
      rw [hv, ih hkeys hnodup.2 fun k => ?_]
      by_cases hk : k = k'
      · subst hk
        rw [get?_none_of_not_mem fs (by rw [hkeys]; exact hnodup.1),
          get?_none_of_not_mem gs hnodup.1]
      · simpa [get?_cons, hk] using h k

theorem mem_set {k : PyStr} {v : Json F} {e : PyStr × Json F} (h : e ∈ fs.set k v) :
    e ∈ fs ∨ e.2 = v := by
  unfold set at h
  split at h
  · obtain ⟨e', he', rfl⟩ := List.mem_map.mp h
    by_cases hk : e'.1 == k
    · simp [hk]
    · simp [hk, he']
  · rcases List.mem_append.mp h with h | h
    · exact .inl h
    · exact .inr (by rw [List.mem_singleton.mp h])

/-- New names go to the end. -/
theorem update_eq_append {new : Fields F} (h : ((fs ++ new).map Prod.fst).Nodup) :
    fs.update new = fs ++ new := by
  induction new generalizing fs with
  | nil => simp [update]
  | cons e new ih =>
    have hfresh : ¬ fs.has e.1 = true := by
      rw [has_iff]
      intro hmem
      simp only [List.map_append, List.map_cons, List.nodup_append] at h
      exact h.2.2 _ hmem _ List.mem_cons_self rfl
    have hset : fs.set e.1 e.2 = fs ++ [e] := if_neg hfresh
    rw [update, List.foldl_cons, hset]
    have hnext : (((fs ++ [e]) ++ new).map Prod.fst).Nodup := by simpa using h
    simpa [update] using ih hnext

theorem ofPairs_eq_self (h : (fs.map Prod.fst).Nodup) : ofPairs fs = fs := by
  have hupdate : update [] fs = [] ++ fs := update_eq_append h
  exact hupdate

end Fields

/-! ## Values with a text -/

/-- A value that has a text which is read back as the value. -/
inductive Ok : Json F → Prop
  | null : Ok .null
  | bool (b : Bool) : Ok (.bool b)
  | int {n : ℤ} (h : Numerals.ShortInt n) : Ok (.int n)
  | float (f : F) : Ok (.float f)
  | str (s : PyStr) : Ok (.str s)
  | arr {items : List (Json F)} (h : ∀ x ∈ items, Ok x) : Ok (.arr items)
  | obj {fields : Fields F} (hkeys : (fields.map Prod.fst).Nodup) (h : ∀ e ∈ fields, Ok e.2) :
      Ok (.obj fields)

namespace Ok

variable {fs : Fields F}

theorem items {items : List (Json F)} (h : Ok (.arr items)) : ∀ x ∈ items, Ok x := by
  cases h with
  | arr h => exact h

theorem keys (h : Ok (.obj fs)) : (fs.map Prod.fst).Nodup := by
  cases h with
  | obj hkeys h => exact hkeys

theorem fields (h : Ok (.obj fs)) : ∀ e ∈ fs, Ok e.2 := by
  cases h with
  | obj hkeys h => exact h

theorem get? (h : Ok (.obj fs)) {k : PyStr} {v : Json F} (hv : fs.get? k = some v) : Ok v :=
  h.fields _ (Fields.mem_of_get? hv)

theorem set (h : Ok (.obj fs)) (k : PyStr) {v : Json F} (hv : Ok v) :
    Ok (.obj (fs.set k v)) := by
  refine .obj (Fields.set_nodup h.keys k v) fun e he => ?_
  rcases Fields.mem_set he with he | he
  · exact h.fields e he
  · exact he ▸ hv

theorem update (h : Ok (.obj fs)) {new : Fields F} (hnew : ∀ e ∈ new, Ok e.2) :
    Ok (.obj (fs.update new)) := by
  induction new generalizing fs with
  | nil => exact h
  | cons e new ih =>
    exact ih (h.set e.1 (hnew e List.mem_cons_self)) fun e' he' =>
      hnew e' (List.mem_cons_of_mem _ he')

theorem empty : Ok (.obj ([] : Fields F)) := .obj (by simp) (by simp)

end Ok

/-! ## Values without lone surrogates -/

/-- A value whose strings and names hold no lone surrogate. -/
inductive Scalar : Json F → Prop
  | null : Scalar .null
  | bool (b : Bool) : Scalar (.bool b)
  | int (n : ℤ) : Scalar (.int n)
  | float (f : F) : Scalar (.float f)
  | str {s : PyStr} (h : PyStr.Scalar s) : Scalar (.str s)
  | arr {items : List (Json F)} (h : ∀ x ∈ items, Scalar x) : Scalar (.arr items)
  | obj {fields : Fields F} (hkeys : ∀ e ∈ fields, PyStr.Scalar e.1)
      (h : ∀ e ∈ fields, Scalar e.2) : Scalar (.obj fields)

namespace Scalar

variable {fs : Fields F}

theorem string {s : PyStr} (h : Scalar (F := F) (.str s)) : PyStr.Scalar s := by
  cases h with
  | str h => exact h

theorem items {items : List (Json F)} (h : Scalar (.arr items)) : ∀ x ∈ items, Scalar x := by
  cases h with
  | arr h => exact h

theorem keys (h : Scalar (.obj fs)) : ∀ e ∈ fs, PyStr.Scalar e.1 := by
  cases h with
  | obj hkeys h => exact hkeys

theorem fields (h : Scalar (.obj fs)) : ∀ e ∈ fs, Scalar e.2 := by
  cases h with
  | obj hkeys h => exact h

end Scalar

/-! ## Truth -/

/-- `bool(v)`. -/
def truthy [Floats F] : Json F → Bool
  | .null => false
  | .bool b => b
  | .int n => n != 0
  | .float f => Floats.value f != some 0
  | .str s => !s.isEmpty
  | .arr items => !items.isEmpty
  | .obj fields => !fields.isEmpty

/-! ## Decimal literals as numbers -/

/-- The exact value of a number literal. -/
def literalValue (l : List Char) : Option ℚ :=
  (intLen (l.drop (minusLen l))).map fun n =>
    let rest := (l.drop (minusLen l)).drop n
    let frac := (rest.take (fracLen rest)).drop 1
    let power := (rest.drop (fracLen rest)).drop 1
    let digits : ℕ := Nat.ofDigitChars 10 ((l.drop (minusLen l)).take n ++ frac) 0
    let shift : ℤ := Nat.ofDigitChars 10 (power.drop (signLen power)) 0
    (if minusLen l = 1 then -1 else 1) * digits *
      (10 : ℚ) ^ ((if power.head? = some '-' then -shift else shift) - frac.length)

instance (l : List Char) : Decidable (IsFloatLiteral l) := inferInstanceAs (Decidable (_ ∨ _))

/-- Floating-point numbers of unbounded precision: the literals themselves. -/
abbrev Literal := { l : List Char // IsFloatLiteral l }

instance : Floats Literal where
  ofLiteral l := if h : IsFloatLiteral l then ⟨l, h⟩ else ⟨"NaN".toList, .inl (by decide)⟩
  repr l := l.1
  value l := literalValue l.1
  isFloatLiteral_repr l := l.2
  ofLiteral_repr l := by simp [l.2]

end Json
