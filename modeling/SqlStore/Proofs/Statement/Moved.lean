import SqlStore.Proofs.Statement.Recognition
import SqlStore.Proofs.Token.Concatenation

/-! # Statements at other places

What becomes of statements if their tokens stand elsewhere, and of scripts one behind the other:

* **`Expression.moved`**, **`ColumnDefinition.moved`**, **`Statement.moved`** — the same words at other
  places;
* **`Grammar.Script.moved`** — moved words are the moved statements;
* **`Grammar.Script.append`** — two scripts with a semicolon between them are a script;
* **`parseText_append_semicolon`** — two texts with a semicolon between them have the statements of the
  first and those of the second, moved. -/

namespace SqlStore

/-! ## Moving -/

/-- The same expression with its tokens at other places. -/
def Expression.moved (f : Location → Location) : Expression → Expression
  | .literal t => .literal (t.moved f)
  | .binary left operator right => .binary (left.moved f) (operator.moved f) (right.moved f)

/-- The same column definition with its tokens at other places. -/
def ColumnDefinition.moved (f : Location → Location) (d : ColumnDefinition) : ColumnDefinition where
  name := d.name.moved f
  type := d.type.moved f

/-- The same statement with its tokens at other places. -/
def Statement.moved (f : Location → Location) : Statement → Statement
  | .createTable name columns =>
    .createTable (name.moved f) (columns.map (List.map (ColumnDefinition.moved f)))
  | .insert table values => .insert (table.moved f) (values.map (List.map (Expression.moved f)))
  | .select items table => .select (items.map (Expression.moved f)) (table.moved f)

/-! ## Scripts -/

namespace Grammar

variable {f : Location → Location} {ts : List Token}

/-- The words of a chain may stand elsewhere. -/
theorem Chain.moved {e : Expression} (h : Chain ts e) : Chain (ts.map (Token.moved f)) (e.moved f) := by
  induction h with
  | literal ht => exact .literal ht
  | join hleft hoperator ht ih =>
    rw [List.map_append]
    exact .join ih hoperator ht

/-- The words of a column definition may stand elsewhere. -/
theorem Column.moved {d : ColumnDefinition} (h : Column ts d) :
    Column (ts.map (Token.moved f)) (d.moved f) := by
  cases h with
  | mk hname htype => exact .mk hname htype

/-- The words of a list with commas may stand elsewhere if those of its items may. -/
theorem CommaList.moved {α : Type} {Item : List Token → α → Prop} {xs : List α} {g : α → α}
    (h : CommaList Item ts xs)
    (hitem : ∀ {ts x}, Item ts x → Item (ts.map (Token.moved f)) (g x)) :
    CommaList Item (ts.map (Token.moved f)) (xs.map g) := by
  induction h with
  | one hx => exact .one (hitem hx)
  | cons hx hcomma hxs ih =>
    rw [List.map_append]
    exact .cons (hitem hx) hcomma ih

/-- The words of a statement may stand elsewhere. -/
theorem Clause.moved {statement : Statement} (h : Clause ts statement) :
    Clause (ts.map (Token.moved f)) (statement.moved f) := by
  cases h with
  | createTable hcreate htable hname => exact .createTable hcreate htable hname
  | createTableWith hcreate htable hname hopen hcolumns hclose =>
    simp only [List.map_cons, List.map_append, List.map_nil]
    exact .createTableWith hcreate htable hname hopen (hcolumns.moved Column.moved) hclose
  | insert hinsert hinto hname => exact .insert hinsert hinto hname
  | insertValues hinsert hinto hname hvalues hopen hexpressions hclose =>
    simp only [List.map_cons, List.map_append, List.map_nil]
    exact .insertValues hinsert hinto hname hvalues hopen (hexpressions.moved Chain.moved) hclose
  | select hselect hitems hfrom hname =>
    simp only [List.map_cons, List.map_append, List.map_nil]
    exact .select hselect (hitems.moved Chain.moved) hfrom hname

/-- The words of a script may stand elsewhere. -/
theorem Script.moved {found : List Statement} (h : Script ts found) :
    Script (ts.map (Token.moved f)) (found.map (Statement.moved f)) := by
  induction h with
  | nil => exact .nil
  | semicolon hsemicolon hrest ih => exact .semicolon hsemicolon ih
  | last hstatement => exact .last hstatement.moved
  | cons hstatement hsemicolon hrest ih =>
    rw [List.map_append]
    exact .cons hstatement.moved hsemicolon ih

/-- Two scripts with a semicolon between them are a script of the statements of both. -/
theorem Script.append {ts' : List Token} {found found' : List Statement} (h : Script ts found)
    {semicolon : Token} (hsemicolon : semicolon.isSymbol .semicolon = true) (h' : Script ts' found') :
    Script (ts ++ semicolon :: ts') (found ++ found') := by
  induction h with
  | nil => exact .semicolon hsemicolon h'
  | semicolon hfirst hrest ih => exact .semicolon hfirst ih
  | last hstatement => exact .cons hstatement hsemicolon h'
  | cons hstatement hfirst hrest ih =>
    rw [List.append_assoc]
    exact .cons hstatement hfirst ih

end Grammar

/-! ## Texts -/

open Grammar

/-- Two texts with a semicolon between them have the statements of the first and behind them those of the
second, moved to where it stands. -/
theorem parseText_append_semicolon {a b : String} {found found' : List Statement}
    (ha : parseText a = .ok found) (hb : parseText b = .ok found') :
    ∃ base : Location,
      parseText (a ++ ";" ++ b) = .ok (found ++ found'.map (Statement.moved base.behind)) := by
  obtain ⟨ts, hts, hscript⟩ := parseText_eq_ok_iff.1 ha
  obtain ⟨ts', hts', hscript'⟩ := parseText_eq_ok_iff.1 hb
  obtain ⟨semicolon, base, hsemicolon, hboth⟩ := tokenize_append_semicolon hts hts'
  exact ⟨base, parseText_eq_ok_iff.2 ⟨_, hboth, hscript.append hsemicolon hscript'.moved⟩⟩

end SqlStore
