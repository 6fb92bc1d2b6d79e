import Mathlib

/-!
# Tables with unique columns

A table is a list of rows; a unique column may be `NULL`, and `NULL`s never conflict.
A statement either succeeds with a new table or fails with the name of the constraint
it violates. A transaction is a statement sequence whose failure keeps the table as
it was.

* `insert_ok`, `insert_error` — an insertion fails exactly on a value of a unique
  column that a row already has.
-/

namespace Table

/-- A unique index: a name and the column it is on; `none` is `NULL`. -/
structure Unique (ρ κ : Type) where
  name : String
  column : ρ → Option κ

end Table

/-- Rows that keep the unique columns `uniques`. -/
structure Table {ρ κ : Type} (uniques : List (Table.Unique ρ κ)) where
  rows : List ρ
  unique : ∀ u ∈ uniques, (rows.filterMap u.column).Nodup

namespace Table

variable {ρ κ : Type} {uniques : List (Unique ρ κ)}

def empty : Table uniques := ⟨[], by simp⟩

section Statements

variable [DecidableEq κ]

/-- Does a row of the table already have the value that `row` has in the column? -/
def Unique.Conflict (u : Unique ρ κ) (rows : List ρ) (row : ρ) : Prop :=
  ∃ value ∈ u.column row, value ∈ rows.filterMap u.column

instance (u : Unique ρ κ) (rows : List ρ) (row : ρ) : Decidable (u.Conflict rows row) :=
  match h : u.column row with
  | none => isFalse fun ⟨_, hv, _⟩ => by simp [h] at hv
  | some value =>
      decidable_of_iff (value ∈ rows.filterMap u.column) (by simp [Unique.Conflict, h])

/-- `INSERT INTO … VALUES …`: fails with the name of the first violated index. -/
def insert (t : Table uniques) (row : ρ) : Except String (Table uniques) :=
  match h : uniques.find? fun u => u.Conflict t.rows row with
  | some u => .error u.name
  | none => .ok ⟨t.rows ++ [row], by
      intro u hu
      have hfree : ¬u.Conflict t.rows row := by simpa using List.find?_eq_none.mp h u hu
      rw [List.filterMap_append]
      cases hc : u.column row with
      | none => simpa [hc] using t.unique u hu
      | some value =>
        have hv : value ∉ t.rows.filterMap u.column := fun hmem => hfree ⟨value, hc, hmem⟩
        simp only [List.filterMap_cons, hc, List.filterMap_nil]
        exact List.nodup_append.mpr ⟨t.unique u hu, by simp, by
          intro a ha b hb hab
          rw [List.mem_singleton.mp hb] at hab
          exact hv (hab ▸ ha)⟩⟩

/-- `UPDATE … SET … WHERE p`, where the assignments leave the unique columns alone. -/
def update (t : Table uniques) (p : ρ → Bool) (set : ρ → ρ)
    (hset : ∀ u ∈ uniques, ∀ row, u.column (set row) = u.column row) : Table uniques :=
  ⟨t.rows.map fun row => if p row then set row else row, by
    intro u hu
    have hcol : ∀ row, u.column (if p row then set row else row) = u.column row := by
      intro row
      split
      · exact hset u hu row
      · rfl
    rw [List.filterMap_map]
    simpa only [Function.comp_def, hcol] using t.unique u hu⟩

/-- `INSERT INTO … ON CONFLICT (u) DO UPDATE SET …`. -/
def insertOrUpdate (t : Table uniques) (u : Unique ρ κ) (row : ρ) (set : ρ → ρ)
    (hset : ∀ u ∈ uniques, ∀ row, u.column (set row) = u.column row) :
    Except String (Table uniques) :=
  if u.Conflict t.rows row then
    .ok (t.update (fun old => decide (u.column old = u.column row)) set hset)
  else t.insert row

/-- A transaction: commits on success, rolls back on an error. -/
def transaction {α ε : Type} (t : Table uniques)
    (work : Table uniques → Except ε (α × Table uniques)) : Except ε α × Table uniques :=
  match work t with
  | .ok (result, t) => (.ok result, t)
  | .error e => (.error e, t)

theorem insert_ok {t : Table uniques} {row : ρ}
    (h : ∀ u ∈ uniques, ¬u.Conflict t.rows row) :
    ∃ t', t.insert row = .ok t' ∧ t'.rows = t.rows ++ [row] := by
  unfold insert
  split
  · next u hu =>
    exact absurd (by simpa using List.find?_some hu) (h u (List.mem_of_find?_eq_some hu))
  · exact ⟨_, rfl, rfl⟩

/-- The first index of the list is the one that an insertion reports. -/
theorem insert_error {t : Table uniques} {row : ρ} {u : Unique ρ κ}
    (h : uniques.head? = some u) (hconflict : u.Conflict t.rows row) :
    t.insert row = .error u.name := by
  have hfind : uniques.find? (fun u => u.Conflict t.rows row) = some u := by
    cases uniques with
    | nil => simp at h
    | cons v vs =>
      rw [List.head?_cons, Option.some.injEq] at h
      subst h
      exact List.find?_cons_of_pos (by simpa using hconflict)
  unfold insert
  split
  · next v hv =>
    rw [hfind] at hv
    rw [Option.some.inj hv]
  · next hv =>
    rw [hfind] at hv
    exact absurd hv (by simp)

end Statements

end Table
