import SqlStore.Table.Store

/-! # What running a statement yields

* **`ResultSet`** — the answer to a statement that succeeds;
* **`LogRecord`** — what is worth noting while a statement runs;
* **`Outcome`** — an answer or an error, the tables afterwards, and the notes made on the way, which
  are kept also if the statement fails;
* **`Outcome.andThen`** — one thing after another, the second only if the first succeeds. -/

namespace SqlStore

/-- The answer to a statement. -/
inductive ResultSet where
  | created (table : String)
  /-- So many rows were added. -/
  | inserted (count : Nat)
  | selected (columns : List Column) (rows : List (List Value))
  deriving DecidableEq, Repr

/-! ## Notes -/

/-- A note on what a statement does. -/
inductive LogRecord where
  | replacingTable (name : String)
  | storingTable (name : String) (columns : Nat)
  /-- An expression that is no literal leaves the slot of its column empty. -/
  | skippedValue (column table : String)
  /-- An expression that is no literal selects nothing. -/
  | skippedItem (table : String)
  deriving DecidableEq, Repr

/-- How much attention a note asks for. -/
inductive LogLevel where
  | debug | warn
  deriving DecidableEq, Repr

/-- The name of a level. -/
def LogLevel.name : LogLevel → String
  | .debug => "debug"
  | .warn => "warn"

namespace LogRecord

/-- The level of a note. -/
def level : LogRecord → LogLevel
  | .replacingTable _ => .debug
  | .storingTable _ _ => .debug
  | .skippedValue _ _ => .warn
  | .skippedItem _ => .warn

/-- The text of a note. -/
def text : LogRecord → String
  | .replacingTable name => s!"replacing table {name}, its rows are dropped"
  | .storingTable name columns => s!"storing table {name} with {columns} columns"
  | .skippedValue column table =>
    s!"skipping non-literal value for column {column} of table {table}"
  | .skippedItem table => s!"skipping non-literal select item on table {table}"

end LogRecord

/-! ## Outcomes -/

/-- The answer, the tables afterwards, and the notes made on the way. -/
structure Outcome (α : Type) where
  answer : Except Error α
  store : TableStore
  log : List LogRecord := []

namespace Outcome

/-- Goes on with the answer and the tables, unless there was an error. -/
def andThen (o : Outcome α) (next : α → TableStore → Outcome β) : Outcome β :=
  match o.answer with
  | .error e => { answer := .error e, store := o.store, log := o.log }
  | .ok a =>
    let after := next a o.store
    { after with log := o.log ++ after.log }

/-- The outcome with another answer. -/
def map (f : α → β) (o : Outcome α) : Outcome β :=
  { o with answer := o.answer.map f }

end Outcome

end SqlStore
