import SqlStore.Record
import SqlStore.Statement.Parser
import SqlStore.Value

/-! # Errors

Everything that can go wrong when a statement is read or carried out:

* **`Error`** — one constructor for each cause, holding what its text needs;
* **`Error.message`** — the text. -/

namespace SqlStore

/-- What an insertion offers a column that does not take it: a token that has no value, or a value of
the other type. -/
inductive Offered where
  | token (kind : TokenKind)
  | value (type : ColumnType)
  deriving DecidableEq, Repr

/-- The word for what was offered. -/
def Offered.name : Offered → String
  | .token kind => kind.name
  | .value type => type.name

/-- Why a statement could not be read or carried out. -/
inductive Error where
  /-- The text is no list of statements. -/
  | parse (e : ParseError)
  /-- No policy for taken table names is called this. -/
  | unknownPolicy (name : String)
  | tableNotFound (name : String)
  | tableExists (name : String)
  | columnNotFound (name : String)
  /-- No column type is called this. -/
  | invalidType (name : String)
  /-- An insertion gives another number of values than the table has columns. -/
  | missingValues (table : String) (expected found : Nat)
  | typeMismatch (column : String) (expected : ColumnType) (found : Offered)
  /-- A selected slot of a stored row is empty. -/
  | missingCell (table column : String)
  /-- A stored table, row or counter cannot be read. -/
  | damagedRecord (fault : Record.Fault)
  /-- A stored cell cannot be read as a value of its column's type. -/
  | damagedCell (fault : CellFault)
  /-- A numeric token is no signed 32-bit integer. The statements of a text hold no such token. -/
  | malformedNumeral (literal : String) (fault : Numeral.Fault)
  deriving DecidableEq, Repr

/-- The text of an error. -/
def Error.message : Error → String
  | .parse e => e.message
  | .unknownPolicy name =>
    s!"parse error unknown duplicate table policy {name}, expected replace or error"
  | .tableNotFound name => s!"table {name} does not exist"
  | .tableExists name => s!"table {name} already exists"
  | .columnNotFound name => s!"column {name} does not exist"
  | .invalidType name => s!"invalid datatype {name}"
  | .missingValues table expected found =>
    s!"missing values for table {table}: expected {expected}, got {found}"
  | .typeMismatch column expected found =>
    s!"column {column} expects {expected.name} but got {found.name} value"
  | .missingCell table column => s!"a row of table {table} has no value for column {column}"
  | .damagedRecord fault => s!"internal error {fault.message}"
  | .damagedCell fault => s!"internal error {fault.message}"
  | .malformedNumeral literal fault =>
    s!"numeric literal {literal} is not a 32-bit integer: {fault.message}"

end SqlStore
