import SqlStore.Proofs.Record.RoundTrip
import SqlStore.Session
import Mathlib.Logic.Function.Basic

/-! # A database without bytes

What statements mean for tables of typed values that are not stored in any way:

* **`Relation`** and **`Database`** — columns and rows of optional values, and relations by name;
* **`Database.create`**, **`Database.insert`**, **`Database.select`** — each statement checks its parts
  in a fixed order and fails at the first fault;
* **`Database.execute`** and **`Database.answers`** — one statement, and the answers to a list of them;
* **`Database.RoomFor`** — a list of statements all of whose lengths are written in full, whose
  numerals can be read and whose rows can be counted.

A check is a function to an optional fault, so the first fault of a list is `List.findSome?`. -/

namespace SqlStore

/-- A table of optional values, a row with one for each column. -/
structure Relation where
  columns : List Column
  rows : List (List (Option Value))
  deriving DecidableEq, Repr

/-- The relations by name. -/
abbrev Database := String → Option Relation

/-! ## Columns -/

namespace ColumnDefinition

/-- Why a column cannot be defined: there are integers and texts only. -/
def fault? (d : ColumnDefinition) : Option Error :=
  if d.type.value = "int" ∨ d.type.value = "text" then none else some (.invalidType d.type.value)

/-- The column that is defined. -/
def column (d : ColumnDefinition) : Column :=
  ⟨d.name.value, if d.type.value = "int" then .int else .text⟩

end ColumnDefinition

/-! ## Values for columns -/

/-- The value of a literal: a number is an integer and a string is a text, and a name has none. -/
def Token.value? (t : Token) : Option Value :=
  match t.kind with
  | .numeric => (Numeral.read t.value).toOption.map .int
  | .string => some (.text t.value)
  | _ => none

namespace Expression

/-- The slot that an expression fills: an operation leaves it empty. -/
def slot : Expression → Option Value
  | .binary _ _ _ => none
  | .literal t => t.value?

/-- Why a column does not take an expression: a literal has to have a value of the column's type. -/
def slotFault? (c : Column) : Expression → Option Error
  | .binary _ _ _ => none
  | .literal t =>
    match t.value? with
    | none => some (.typeMismatch c.name c.type (.token t.kind))
    | some v =>
      if v.type = c.type then none else some (.typeMismatch c.name c.type (.value v.type))

end Expression

/-! ## Selected columns -/

namespace Relation

/-- The first column called `name`, with its position. -/
def find? (r : Relation) (name : String) : Option (Nat × Column) :=
  (r.columns.mapIdx Prod.mk).find? fun c => c.2.name = name

/-- The column that a selected expression names; none for an operation. -/
def item? (r : Relation) : Expression → Option (Nat × Column)
  | .binary _ _ _ => none
  | .literal t => r.find? t.value

/-- Why an expression cannot be selected: a literal has to be the name of a column. -/
def itemFault? (r : Relation) : Expression → Option Error
  | .binary _ _ _ => none
  | .literal t =>
    if t.kind = .identifier ∧ (r.find? t.value).isSome then none else some (.columnNotFound t.value)

/-- The value that a row has at the position of a column. -/
def cell? (row : List (Option Value)) (c : Nat × Column) : Option Value := row[c.1]?.join

/-- Why a column of a row cannot be read: its slot is empty. -/
def cellFault? (name : String) (row : List (Option Value)) (c : Nat × Column) : Option Error :=
  if (cell? row c).isSome then none else some (.missingCell name c.2.name)

end Relation

/-! ## Statements -/

namespace Database

/-- The database without relations. -/
def empty : Database := fun _ => none

/-- Creates a relation without rows. The types are checked before the name is. -/
def create (policy : DuplicatePolicy) (db : Database) (name : String)
    (definitions : List ColumnDefinition) : Except Error ResultSet × Database :=
  match definitions.findSome? ColumnDefinition.fault? with
  | some e => (.error e, db)
  | none =>
    if policy = .refuse ∧ (db name).isSome then (.error (.tableExists name), db)
    else
      (.ok (.created name),
        Function.update db name (some ⟨definitions.map ColumnDefinition.column, []⟩))

/-- Adds a row to a relation. The number of values is checked before the values are. -/
def insert (db : Database) (name : String) (values : Option (List Expression)) :
    Except Error ResultSet × Database :=
  match db name, values with
  | none, _ => (.error (.tableNotFound name), db)
  | some _, none => (.ok (.inserted 0), db)
  | some r, some values =>
    if values.length = r.columns.length then
      match (r.columns.zip values).findSome? fun (c, value) => value.slotFault? c with
      | some e => (.error e, db)
      | none =>
        (.ok (.inserted 1),
          Function.update db name (some { r with rows := r.rows ++ [values.map Expression.slot] }))
    else (.error (.missingValues name r.columns.length values.length), db)

/-- Reads columns of a relation. The names are checked before any row is read. -/
def select (db : Database) (name : String) (items : List Expression) : Except Error ResultSet :=
  match db name with
  | none => .error (.tableNotFound name)
  | some r =>
    match items.findSome? r.itemFault? with
    | some e => .error e
    | none =>
      let selected := items.filterMap r.item?
      match r.rows.findSome? fun row => selected.findSome? (Relation.cellFault? name row) with
      | some e => .error e
      | none =>
        .ok (.selected (selected.map (·.2))
          (r.rows.map fun row => selected.filterMap (Relation.cell? row)))

/-- The answer to a statement and the database after it. -/
def execute (policy : DuplicatePolicy) (db : Database) :
    Statement → Except Error ResultSet × Database
  | .createTable name columns => db.create policy name.value (columns.getD [])
  | .insert table values => db.insert table.value values
  | .select items table => (db.select table.value items, db)

/-- The answers to statements that are carried out one after the other, whether they fail or not. -/
def answers (policy : DuplicatePolicy) (db : Database) :
    List Statement → List (Except Error ResultSet)
  | [] => []
  | statement :: rest =>
    (db.execute policy statement).1 :: answers policy (db.execute policy statement).2 rest

/-! ## Room -/

/-- Whether a literal can be stored: its numeral can be read, or its text is written in full. -/
def LiteralFits (t : Token) : Prop :=
  (t.kind = .numeric → (Numeral.read t.value).toBool = true) ∧ (t.kind = .string → Text.Fits t.value)
  deriving Decidable

/-- Whether an inserted expression can be stored. -/
def ExpressionFits : Expression → Prop
  | .binary _ _ _ => True
  | .literal t => LiteralFits t

instance : DecidablePred ExpressionFits
  | .binary _ _ _ => .isTrue trivial
  | .literal t => inferInstanceAs (Decidable (LiteralFits t))

/-- Whether the rows of a relation can be counted. -/
def CanCount (db : Database) (name : String) : Prop :=
  ∀ r ∈ db name, r.rows.length < 2 ^ 64
  deriving Decidable

/-- Whether a statement is written in full, and the rows it leaves can be counted. -/
def HasRoom (db : Database) : Statement → Prop
  | .createTable name columns =>
    Text.Fits name.value ∧ (columns.getD []).length < 2 ^ 64 ∧
      ∀ d ∈ columns.getD [], Text.Fits d.name.value
  | .insert table values =>
    Text.Fits table.value ∧ (∀ value ∈ values.getD [], ExpressionFits value) ∧
      (db.insert table.value values).2.CanCount table.value
  | .select _ table => Text.Fits table.value

instance (db : Database) : DecidablePred db.HasRoom
  | .createTable name columns =>
    inferInstanceAs (Decidable (Text.Fits name.value ∧ (columns.getD []).length < 2 ^ 64 ∧
      ∀ d ∈ columns.getD [], Text.Fits d.name.value))
  | .insert table values =>
    inferInstanceAs (Decidable (Text.Fits table.value ∧
      (∀ value ∈ values.getD [], ExpressionFits value) ∧
      (db.insert table.value values).2.CanCount table.value))
  | .select _ table => inferInstanceAs (Decidable (Text.Fits table.value))

/-- Whether there is room for every statement when its turn comes. -/
def RoomFor (policy : DuplicatePolicy) (db : Database) : List Statement → Prop
  | [] => True
  | statement :: rest =>
    db.HasRoom statement ∧ RoomFor policy (db.execute policy statement).2 rest

/-- It can be decided whether there is room for a list of statements. -/
def decidableRoomFor (policy : DuplicatePolicy) :
    (statements : List Statement) → (db : Database) → Decidable (db.RoomFor policy statements)
  | [], _ => .isTrue trivial
  | statement :: rest, db =>
    have := decidableRoomFor policy rest (db.execute policy statement).2
    inferInstanceAs
      (Decidable (db.HasRoom statement ∧ RoomFor policy (db.execute policy statement).2 rest))

instance (policy : DuplicatePolicy) (db : Database) : DecidablePred (db.RoomFor policy) :=
  fun statements => decidableRoomFor policy statements db

end Database

end SqlStore
