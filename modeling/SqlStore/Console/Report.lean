import SqlStore.Session.Outcome

/-! # Printed answers

* **`Report.widths`** — the width of each column: three, or the byte length of the longest text in
  it, the column's name included;
* **`Report.pad`** — a text filled up to a width, which must not be too great;
* **`Report.line`** and **`Report.rule`** — a line of texts between bars, and the line under the
  names;
* **`Report.selection`** — names, rule, rows, and the number of rows;
* **`Report.ofResult`** and **`Report.ofTable`** — what is printed for the answer to a statement, and
  for the definition of a table.

A text is filled up with spaces to the width of its column in characters. No text has more characters
than bytes, so none runs over. Nothing can be filled up beyond `Report.maxWidth`, so a selection with too
wide a column cannot be printed. -/

namespace SqlStore.Report

/-! ## Columns -/

/-- The number of bytes of a text. -/
def byteLength (s : String) : Nat := (Utf8.encode s).length

/-- The least width of a column. -/
def minWidth : Nat := 3

/-- The widths that also hold the texts of one more row. -/
def widen : List Nat → List String → List Nat
  | [], _ => []
  | widths, [] => widths
  | width :: widths, text :: texts => max width (byteLength text) :: widen widths texts

/-- The widths of the columns with these names and rows. -/
def widths (names : List String) (rows : List (List String)) : List Nat :=
  rows.foldl widen (names.map fun name => max minWidth (byteLength name))

/-! ## Lines -/

/-- The greatest width that a text can be filled up to. -/
def maxWidth : Nat := 65535

/-- A text was to be filled up to a width that is too great. -/
structure WidthFault where
  width : Nat
  deriving DecidableEq, Repr

/-- The text of the fault. -/
def WidthFault.message (_ : WidthFault) : String := "Formatting argument out of range"

/-- A text filled up with `filler` to `width` characters. -/
def pad (filler : Char) (width : Nat) (text : String) : Except WidthFault (List Char) :=
  if width ≤ maxWidth then .ok (text.toList ++ List.replicate (width - text.toList.length) filler)
  else .error ⟨width⟩

/-- A text between blanks, filled up to the width of its column. -/
def cell (width : Nat) (text : String) : Except WidthFault (List Char) := do
  return ' ' :: (← pad ' ' width text) ++ [' ']

/-- A line of texts, each in the width of its column, between bars. -/
def line (widths : List Nat) (texts : List String) : Except WidthFault (List Char) := do
  let cells ← (texts.zip widths).mapM fun (text, width) => cell width text
  return '|' :: cells.flatMap (· ++ ['|'])

/-- The line under the names. -/
def rule (widths : List Nat) : Except WidthFault (List Char) := do
  let cells ← widths.mapM fun width => pad '-' (width + 2) ""
  return '+' :: cells.flatMap (· ++ ['+'])

/-- The line that counts the rows. -/
def footer (count : Nat) : List Char :=
  let noun := if count = 1 then "row" else "rows"
  s!"({count} {noun})".toList

/-- The lines of a selection: names, rule, rows, and the number of rows. -/
def selectionLines (names : List String) (rows : List (List String)) :
    Except WidthFault (List (List Char)) := do
  let widths := widths names rows
  let header ← line widths names
  let separator ← rule widths
  let pieces ← rows.mapM (line widths)
  return header :: separator :: pieces ++ [footer rows.length]

/-- A selection as it is printed, every line ended. -/
def selection (names : List String) (rows : List (List String)) : Except WidthFault String := do
  let lines ← selectionLines names rows
  return String.ofList (lines.flatMap fun line => line ++ ['\n'])

/-! ## Answers and tables -/

/-- What is printed for the answer to a statement. -/
def ofResult : ResultSet → Except WidthFault String
  | .created _ => .ok "ok\n"
  | .inserted _ => .ok "ok\n"
  | .selected columns rows => selection (columns.map Column.name) (rows.map (·.map Value.written))

/-- A table's name and its columns with their types. -/
def ofTable (t : Table) : String :=
  let columns := t.columns.map fun c => s!"{c.name} {c.type.name}"
  let inside := ", ".intercalate columns
  s!"{t.name} ({inside})"

/-- The line that tells of an error. -/
def ofError (e : Error) : String := s!"Error: {e.message}\n"

end SqlStore.Report
