import SqlStore.Token

/-! # Statements

What a query asks for, before any table is looked at. Names and literals stay tokens, so a
statement holds exactly what was written and where:

* **`Expression`** — a literal, or two expressions joined by an operator;
* **`ColumnDefinition`** — a column's name and the name of its type, any word;
* **`Statement`** — create a table, insert a row, or select columns. -/

namespace SqlStore

/-- An expression: a single token, or an operator between two expressions. -/
inductive Expression where
  | literal (token : Token)
  | binary (left : Expression) (operator : Token) (right : Expression)
  deriving DecidableEq, Repr

/-- A column as a table definition writes it. The type is a name like any other here. -/
structure ColumnDefinition where
  name : Token
  type : Token
  deriving DecidableEq, Repr

/-- A statement. A missing list of columns or values was not written at all. -/
inductive Statement where
  | createTable (name : Token) (columns : Option (List ColumnDefinition))
  | insert (table : Token) (values : Option (List Expression))
  | select (items : List Expression) (table : Token)
  deriving DecidableEq, Repr

/-- The name of the table a statement is about. -/
def Statement.tableName : Statement → String
  | .createTable name _ => name.value
  | .insert table _ => table.value
  | .select _ table => table.value

end SqlStore
