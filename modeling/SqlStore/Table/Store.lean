import SqlStore.ByteStore
import SqlStore.Error
import SqlStore.Table.Record

/-! # Tables in a byte store

Definitions and rows of all tables share one ordered store of byte strings.

* **`TableStore`** — a byte store read as tables;
* **`getTable?`**, **`getTable`** — a table by name;
* **`columnIndex`** — the position of a column;
* **`tables`** — all tables in the order of their names;
* **`create`** — sets a table's definition and leaves it without rows;
* **`append`** — adds a row after the rows of a table;
* **`rows`** — the rows of a table in the order they were added.

Whatever is read may turn out to be damaged; what is written cannot fail, and `append` reads all it
needs before it writes. -/

namespace SqlStore

/-- A byte store that holds tables. -/
structure TableStore where
  bytes : ByteStore

namespace TableStore

/-- The store without tables. -/
def empty : TableStore := ⟨ByteStore.empty⟩

/-- Reads a stored record. -/
def readRecord (f : Format α) (bytes : Bytes) : Except Error α :=
  (f.readFront bytes).mapError .damagedRecord

/-! ## Reading -/

/-- The table called `name`, if there is one. -/
def getTable? (s : TableStore) (name : String) : Except Error (Option Table) :=
  match s.bytes.get? (Key.table name).toBytes with
  | none => .ok none
  | some record => (readRecord Table.format record).map some

/-- The table called `name`. -/
def getTable (s : TableStore) (name : String) : Except Error Table := do
  match ← s.getTable? name with
  | some t => .ok t
  | none => .error (.tableNotFound name)

/-- The position of a column of a table. -/
def columnIndex (s : TableStore) (table column : String) : Except Error Nat := do
  match (← s.getTable table).findColumn? column with
  | some (index, _) => .ok index
  | none => .error (.columnNotFound column)

/-- All tables in ascending byte order of their names. -/
def tables (s : TableStore) : Except Error (List Table) := do
  let found ← (s.bytes.scanPrefix Key.tables).mapM fun (_, record) => readRecord Table.format record
  .ok (found.mergeSort fun a b => decide (Utf8.encode a.name ≤ Utf8.encode b.name))

/-- The rows of a table in the order they were added. -/
def rows (s : TableStore) (name : String) : Except Error (List Row) :=
  (s.bytes.scanPrefix (Key.rows name)).mapM fun (_, record) => readRecord Row.format record

/-- The number of the next row of a table. -/
def nextRow (s : TableStore) (name : String) : Except Error Nat :=
  match s.bytes.get? (Key.nextRow name).toBytes with
  | none => .ok 0
  | some record => readRecord rowCounter record

/-! ## Writing -/

/-- Removes the rows of a table and its counter. -/
def dropRows (s : TableStore) (name : String) : TableStore :=
  ⟨(s.bytes.erasePrefix (Key.rows name)).erase (Key.nextRow name).toBytes⟩

/-- Sets the definition of a table. A table of that name is replaced, and its rows are dropped. -/
def create (s : TableStore) (t : Table) : TableStore :=
  ⟨(s.dropRows t.name).bytes.set (Key.table t.name).toBytes (Table.format.write t)⟩

/-- Adds a row after the rows of a table. The number of the next row has 64 bits, so that behind the greatest
one it starts again from zero; a build that checks for overflow stops there, before anything is written. -/
def append (s : TableStore) (name : String) (row : Row) : Except Error TableStore := do
  let number ← s.nextRow name
  let counted := s.bytes.set (Key.nextRow name).toBytes (rowCounter.write (number + 1))
  .ok ⟨counted.set (Key.row name number).toBytes (Row.format.write row)⟩

end TableStore

end SqlStore
