import SqlStore.Session.Outcome
import SqlStore.Session.Policy

/-! # Carrying out statements

* **`createTable`** — checks every type, then the name, and then defines the table;
* **`insertRow`** — checks the number of values and every one of them, and then adds the row;
* **`selectColumns`** — settles the columns from the definition alone, and then reads the rows;
* **`execute`** — a statement of any kind.

All that can fail comes before anything is written, so a statement that fails leaves the tables as
they were. -/

namespace SqlStore

/-- The items up to the first one that fails a check, that one left out. -/
def reached (check : α → Except ε β) (items : List α) : List α :=
  items.takeWhile fun item => (check item).toBool

/-- An outcome that leaves the tables as they are. -/
def Outcome.unchanged (store : TableStore) (answer : Except Error α)
    (log : List LogRecord := []) : Outcome α :=
  { answer, store, log }

/-! ## Creating a table -/

/-- Defines a table, whatever was stored under its name. -/
def storeTable (store : TableStore) (t : Table) : Outcome Unit where
  answer := .ok ()
  store := store.create t
  log := [.storingTable t.name t.columns.length]

/-- The column that a definition describes. -/
def ColumnDefinition.toColumn (d : ColumnDefinition) : Except Error Column :=
  match ColumnType.ofName? d.type.value with
  | some type => .ok ⟨d.name.value, type⟩
  | none => .error (.invalidType d.type.value)

/-- Creates a table. A missing list of columns defines none. -/
def createTable (policy : DuplicatePolicy) (store : TableStore) (name : String)
    (definitions : List ColumnDefinition) : Outcome ResultSet :=
  match definitions.mapM ColumnDefinition.toColumn with
  | .error e => .unchanged store (.error e)
  | .ok columns =>
    let created := (storeTable store ⟨name, columns⟩).map fun _ => .created name
    match store.getTable? name, policy with
    | .error e, _ => .unchanged store (.error e)
    | .ok none, _ => created
    | .ok (some _), .refuse => .unchanged store (.error (.tableExists name))
    | .ok (some _), .replace => { created with log := .replacingTable name :: created.log }

/-! ## Inserting a row -/

/-- The slot that an expression fills in a column. An expression that is no literal leaves it empty;
a literal has to have a value of the column's type. -/
def slotFor (column : Column) : Expression → Except Error (Option Bytes)
  | .binary _ _ _ => .ok none
  | .literal t =>
    match Value.ofLiteral t with
    | .error fault => .error (.malformedNumeral t.value fault)
    | .ok none => .error (.typeMismatch column.name column.type (.token t.kind))
    | .ok (some v) =>
      if v.type = column.type then .ok (some v.toBytes)
      else .error (.typeMismatch column.name column.type (.value v.type))

/-- Whether an expression is an operation and no literal. -/
def Expression.isOperation : Expression → Bool
  | .literal _ => false
  | .binary _ _ _ => true

/-- The row that a list of values fills, one value a column. -/
def fillRow (t : Table) (values : List Expression) : Except Error Row :=
  if values.length = t.columns.length then
    (t.columns.zip values).mapM fun (column, value) => slotFor column value
  else .error (.missingValues t.name t.columns.length values.length)

/-- The notes on the slots left empty before a value is refused. -/
def fillNotes (t : Table) (values : List Expression) : List LogRecord :=
  if values.length = t.columns.length then
    let filled := reached (fun (column, value) => slotFor column value) (t.columns.zip values)
    (filled.filter (·.2.isOperation)).map fun (column, _) => .skippedValue column.name t.name
  else []

/-- Adds a row of values to a table. Without a list of values nothing is added. -/
def insertRow (store : TableStore) (table : String) (values : Option (List Expression)) :
    Outcome ResultSet :=
  match store.getTable table, values with
  | .error e, _ => .unchanged store (.error e)
  | .ok _, none => .unchanged store (.ok (.inserted 0))
  | .ok t, some values =>
    match fillRow t values >>= store.append t.name with
    | .error e => .unchanged store (.error e) (fillNotes t values)
    | .ok after => { answer := .ok (.inserted 1), store := after, log := fillNotes t values }

/-! ## Selecting columns -/

/-- The column that a selected expression names, with its position; none for an operation. -/
def projected (t : Table) : Expression → Except Error (Option (Nat × Column))
  | .binary _ _ _ => .ok none
  | .literal token =>
    if token.kind = .identifier then
      match t.findColumn? token.value with
      | some found => .ok (some found)
      | none => .error (.columnNotFound token.value)
    else .error (.columnNotFound token.value)

/-- The selected columns with their positions. Operations select nothing. -/
def projection (t : Table) (items : List Expression) : Except Error (List (Nat × Column)) :=
  (items.mapM (projected t)).map (·.filterMap id)

/-- The notes on the operations that come before an expression is refused. -/
def projectionNotes (t : Table) (items : List Expression) : List LogRecord :=
  ((reached (projected t) items).filter Expression.isOperation).map fun _ => .skippedItem t.name

/-- The value that a row has in the column at a position. -/
def cellValue (t : Table) (row : Row) (position : Nat) (column : Column) : Except Error Value :=
  match row[position]? with
  | some (some bytes) => (Value.ofBytes column.type bytes).mapError .damagedCell
  | _ => .error (.missingCell t.name column.name)

/-- The values of a row in the selected columns. -/
def projectRow (t : Table) (selected : List (Nat × Column)) (row : Row) :
    Except Error (List Value) :=
  selected.mapM fun (position, column) => cellValue t row position column

/-- The selected columns and their values in every row of a table. -/
def readColumns (store : TableStore) (t : Table) (items : List Expression) :
    Except Error ResultSet := do
  let selected ← projection t items
  let rows ← store.rows t.name
  return .selected (selected.map (·.2)) (← rows.mapM (projectRow t selected))

/-- Reads the selected columns of every row of a table. -/
def selectColumns (store : TableStore) (table : String) (items : List Expression) :
    Outcome ResultSet :=
  match store.getTable table with
  | .error e => .unchanged store (.error e)
  | .ok t => .unchanged store (readColumns store t items) (projectionNotes t items)

/-! ## Any statement -/

/-- Carries out a statement. -/
def execute (policy : DuplicatePolicy) (store : TableStore) : Statement → Outcome ResultSet
  | .createTable name columns => createTable policy store name.value (columns.getD [])
  | .insert table values => insertRow store table.value values
  | .select items table => selectColumns store table.value items

/-- Carries out statements in order up to the first that fails. What came before it keeps its effect
on the tables. -/
def executeAll (policy : DuplicatePolicy) (store : TableStore) :
    List Statement → Outcome (List ResultSet)
  | [] => .unchanged store (.ok [])
  | s :: rest =>
    (execute policy store s).andThen fun result store =>
      (executeAll policy store rest).map (result :: ·)

end SqlStore
