import SqlStore.Value

/-! # Tables

* **`Column`** and **`Table`** — the definition of a table: a name and columns in a fixed order;
* **`Table.findColumn?`** — a column by name, with its position: the first of that name;
* **`Row`** — the stored cells of a row, one slot a column, which may be empty. -/

namespace SqlStore

/-- A column of a table. -/
structure Column where
  name : String
  type : ColumnType
  deriving DecidableEq, Repr

/-- The definition of a table. -/
structure Table where
  name : String
  columns : List Column
  deriving DecidableEq, Repr

/-- The first column called `name` and its position, positions counted from `start`. -/
def Column.findFrom (name : String) (start : Nat) : List Column → Option (Nat × Column)
  | [] => none
  | c :: rest => if c.name = name then some (start, c) else findFrom name (start + 1) rest

/-- The first column called `name` and its position in the table. -/
def Table.findColumn? (t : Table) (name : String) : Option (Nat × Column) :=
  Column.findFrom name 0 t.columns

/-- The stored cells of a row. An empty slot was never given a value. -/
abbrev Row := List (Option Bytes)

/-- A column is found at its own position. -/
theorem Column.getElem?_of_findFrom {name : String} {start i : Nat} {columns : List Column}
    {c : Column} (h : findFrom name start columns = some (i, c)) :
    start ≤ i ∧ columns[i - start]? = some c ∧ c.name = name := by
  induction columns generalizing start with
  | nil => cases h
  | cons first rest ih =>
    rw [findFrom] at h
    split at h
    · next hname =>
      cases h
      simp [hname]
    · obtain ⟨hle, hget, hname⟩ := ih h
      refine ⟨Nat.le_of_succ_le hle, ?_, hname⟩
      have hsub : i - start = (i - (start + 1)) + 1 := by omega
      rw [hsub, List.getElem?_cons_succ, hget]

/-- A column that is found by its name stands at its position in the table. -/
theorem Table.getElem?_of_findColumn? {t : Table} {name : String} {i : Nat} {c : Column}
    (h : t.findColumn? name = some (i, c)) : t.columns[i]? = some c ∧ c.name = name :=
  (Column.getElem?_of_findFrom h).2

end SqlStore
