import SqlStore.Error
import SqlStore.Text.Lowercase

/-! # What becomes of a taken table name

* **`DuplicatePolicy`** — whether a definition replaces the table of its name or is refused;
* **`DuplicatePolicy.ofText`** — the policy with a name, upper and lower case alike. -/

namespace SqlStore

/-- What creating a table does when its name is taken. -/
inductive DuplicatePolicy where
  /-- The table is replaced, and its rows are dropped. -/
  | replace
  /-- Creating the table fails, and the old one stays. -/
  | refuse
  deriving DecidableEq, Repr

namespace DuplicatePolicy

/-- The policy of a session that names none. -/
instance : Inhabited DuplicatePolicy := ⟨.replace⟩

/-- The name of a policy. -/
def name : DuplicatePolicy → String
  | .replace => "replace"
  | .refuse => "error"

/-- The policy with this name once the name is in lower case. -/
def ofText (text : String) : Except Error DuplicatePolicy :=
  let lower := Text.lowercase text
  if lower = "replace" then .ok .replace
  else if lower = "error" then .ok .refuse
  else .error (.unknownPolicy lower)

end DuplicatePolicy

end SqlStore
