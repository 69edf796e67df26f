import SqlStore.Session.Execution

/-! # Sessions

* **`Session`** — tables, and what to do when a table name is taken;
* **`Session.execute`** — carries out a statement;
* **`Session.executeText`** — carries out the statements of a text. A text with a fault anywhere does
  nothing. -/

namespace SqlStore

/-- The tables of a user and the policy for taken names. -/
structure Session where
  policy : DuplicatePolicy := default
  store : TableStore := .empty

namespace Session

/-- The session after an outcome. -/
def after (s : Session) (o : Outcome α) : Session := { s with store := o.store }

/-- Carries out a statement. -/
def execute (s : Session) (statement : Statement) : Outcome ResultSet :=
  SqlStore.execute s.policy s.store statement

/-- Carries out the statements of a text in order, up to the first that fails. -/
def executeText (s : Session) (text : String) : Outcome (List ResultSet) :=
  match parseText text with
  | .error e => .unchanged s.store (.error (.parse e))
  | .ok statements => executeAll s.policy s.store statements

end Session

end SqlStore
