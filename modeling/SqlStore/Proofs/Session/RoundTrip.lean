import SqlStore.Proofs.Session.Written

/-! # A table written as texts is read back

* **`Table.CanHold`** — rows of values that fit the columns and can be written;
* **`Table.firstNamed`** — for each column, what a list has for the first column of that name. By
  `map_some_firstNamed` no column is left out;
* **`Database.Runs`** — a text has a result and leaves a database. `runs_createText`, `runs_insertText` and
  `runs_selectText` say so of the texts that a table is written as;
* **`Session.outcomes_written`** — a session without tables that is given the texts of a table and its rows
  succeeds with each, and the selection gives back the columns and the values of the rows. -/

namespace SqlStore

/-! ## Columns by name -/

/-- Whether a value can be stored in full. -/
def Value.Fits : Value → Prop
  | .int _ => True
  | .text s => Text.Fits s

namespace Table

/-- Whether a table can hold a row: it has a value for each column, of the column's type, that can be
stored in full, and no negative integer. -/
def CanHold (t : Table) (row : List Value) : Prop :=
  List.Forall₂ (fun c v => v.type = c.type ∧ v.Unsigned ∧ v.Fits) t.columns row

/-- A row that a table can hold has no negative integers. -/
theorem CanHold.unsigned {t : Table} {row : List Value} (h : t.CanHold row) :
    ∀ v ∈ row, v.Unsigned := by
  intro v hv
  obtain ⟨i, hi, rfl⟩ := List.getElem_of_mem hv
  exact (h.get (h.length_eq ▸ hi) hi).2.1

/-- For each column, the member of a list that stands where the first column of its name does. -/
def firstNamed {α : Type} (t : Table) (xs : List α) : List α :=
  t.columns.filterMap fun c => ((t.columns.zip xs).find? (·.1.name = c.name)).map (·.2)

/-- What stands where the first column of a name does, by its position. -/
theorem find?_zip {α : Type} (name : String) (start : Nat) {columns : List Column} {xs : List α}
    (h : xs.length = columns.length) :
    ((columns.zip xs).find? (·.1.name = name)).map (·.2)
      = (Column.findFrom name start columns).bind fun c => xs[c.1 - start]? := by
  -- columns and members are gone through together
  induction columns generalizing xs start with
  | nil => rfl
  | cons c columns ih =>
    cases xs with
    | nil => cases h
    | cons x xs =>
      rw [List.zip_cons_cons, Column.findFrom]
      by_cases hname : c.name = name
      · simp [hname]
      · rw [List.find?_cons_of_neg (by simpa using hname), if_neg hname,
          ih (start + 1) (Nat.succ.inj h)]
        cases hfound : Column.findFrom name (start + 1) columns with
        | none => rfl
        | some found =>
          have hle := (Column.getElem?_of_findFrom hfound).1
          have hsub : found.1 - start = (found.1 - (start + 1)) + 1 := by omega
          simp only [Option.bind_some, hsub, List.getElem?_cons_succ]

/-- No column is left out: each has a first column of its name. -/
theorem map_some_firstNamed {α : Type} {t : Table} {xs : List α} (h : xs.length = t.columns.length) :
    (t.firstNamed xs).map some
      = t.columns.map fun c => ((t.columns.zip xs).find? (·.1.name = c.name)).map (·.2) := by
  have hfst : (t.columns.zip xs).map Prod.fst = t.columns := List.map_fst_zip (Nat.le_of_eq h.symm)
  have hsome : ∀ c ∈ t.columns,
      (((t.columns.zip xs).find? (·.1.name = c.name)).map (·.2)).isSome = true := by
    intro c hc
    rw [← hfst] at hc
    obtain ⟨p, hp, rfl⟩ := List.mem_map.1 hc
    rw [Option.isSome_map, List.find?_isSome]
    exact ⟨p, hp, by simp⟩
  rw [firstNamed, List.map_filterMap, ← List.filterMap_eq_map']
  refine List.filterMap_congr fun c hc => ?_
  obtain ⟨x, hx⟩ := Option.isSome_iff_exists.1 (hsome c hc)
  rw [hx, Option.map_some]

/-- Without columns of the same name, every column is the first of its name. -/
theorem firstNamed_of_nodup {α : Type} {t : Table} {xs : List α} (h : xs.length = t.columns.length)
    (hnodup : (t.columns.map Column.name).Nodup) : t.firstNamed xs = xs := by
  have hfst : (t.columns.zip xs).map Prod.fst = t.columns := List.map_fst_zip (Nat.le_of_eq h.symm)
  have hsnd : (t.columns.zip xs).map Prod.snd = xs := List.map_snd_zip (Nat.le_of_eq h)
  have hnames : ((t.columns.zip xs).map fun p => p.1.name).Nodup := by
    rwa [← hfst, List.map_map] at hnodup
  -- each pair is the first with its name
  have hfind : ∀ p ∈ t.columns.zip xs,
      ((t.columns.zip xs).find? (·.1.name = p.1.name)).map (·.2) = some p.2 := by
    intro p hp
    cases hfound : (t.columns.zip xs).find? (·.1.name = p.1.name) with
    | none => exact absurd (List.find?_eq_none.1 hfound p hp) (by simp)
    | some q =>
      have hname : q.1.name = p.1.name := by simpa using List.find?_some hfound
      have hsame := List.inj_on_of_nodup_map hnames (List.mem_of_find?_eq_some hfound) hp hname
      rw [hsame, Option.map_some]
  refine List.map_injective_iff.2 (Option.some_injective α) ?_
  calc (t.firstNamed xs).map some
      = ((t.columns.zip xs).map Prod.fst).map fun c =>
          ((t.columns.zip xs).find? (·.1.name = c.name)).map (·.2) := by
        rw [hfst, map_some_firstNamed h]
    _ = (t.columns.zip xs).map fun p =>
          ((t.columns.zip xs).find? (·.1.name = p.1.name)).map (·.2) := List.map_map
    _ = (t.columns.zip xs).map fun p => some p.2 := List.map_congr_left hfind
    _ = ((t.columns.zip xs).map Prod.snd).map some := List.map_map.symm
    _ = xs.map some := by rw [hsnd]

end Table

/-! ## Texts of a table -/

namespace Database

/-- Whether a text is one statement that can be stored, that has this result and leaves this database,
in which the rows can be counted. -/
def Runs (policy : DuplicatePolicy) (db : Database) (text : String) (result : ResultSet)
    (after : Database) : Prop :=
  ∃ statement, parseText text = .ok [statement] ∧ statement.Fits ∧
    db.execute policy statement = (.ok result, after) ∧ after.CanCount statement.tableName

/-- The relation of a table with rows of values. -/
def relationOf (t : Table) (rows : List (List Value)) : Relation :=
  ⟨t.columns, rows.map (·.map some)⟩

variable (policy : DuplicatePolicy) {db : Database} {t : Table}

/-- A definition of the table's columns is accepted and is that of the columns. -/
theorem accepts_definitions {columns : List Column} {definitions : List ColumnDefinition}
    (h : List.Forall₂ ColumnDefinition.Defines columns definitions) :
    definitions.findSome? ColumnDefinition.fault? = none ∧
      definitions.map ColumnDefinition.column = columns := by
  induction h with
  | nil => exact ⟨rfl, rfl⟩
  | @cons c d columns definitions hfirst hrest ih =>
    obtain ⟨hname, htype⟩ := hfirst
    have hfault : d.fault? = none := by
      rw [ColumnDefinition.fault?, htype, if_pos]
      cases c.type
      · exact .inl rfl
      · exact .inr rfl
    have hcolumn : d.column = c := by
      rw [ColumnDefinition.column, hname, htype]
      obtain ⟨name, type⟩ := c
      cases type <;> rfl
    rw [List.findSome?_cons, hfault, List.map_cons, hcolumn]
    exact ⟨ih.1, congrArg (c :: ·) ih.2⟩

/-- The text that defines a table creates it. -/
theorem runs_createText (ht : t.Fits) (hne : t.columns ≠ []) :
    empty.Runs policy t.createText (.created t.name)
      (Function.update empty t.name (some (relationOf t []))) := by
  obtain ⟨statement, hparse, hcreated⟩ := Table.parseText_createText hne
  refine ⟨statement, hparse, ?_⟩
  match statement, hcreated with
  | .createTable name (some definitions), ⟨hname, hdefinitions⟩ =>
    obtain ⟨hfault, hcolumns⟩ := accepts_definitions hdefinitions
    refine ⟨⟨hname ▸ ht.1, ?_, ?_⟩, ?_, ?_⟩
    · rw [Option.getD_some, ← List.length_map ColumnDefinition.column, hcolumns]
      exact ht.2.1
    · intro d hd
      have hmem : d.column ∈ t.columns := hcolumns ▸ List.mem_map_of_mem hd
      exact ht.2.2 d.column hmem
    · rw [execute, Option.getD_some, create, hfault, hname]
      simp [empty, relationOf, hcolumns]
    · intro r hr
      rw [Option.mem_def, Statement.tableName, hname, Function.update_self] at hr
      obtain rfl := Option.some.inj hr
      exact (by decide : 0 < 2 ^ 64)

/-- Literals of the columns' types are accepted, and fill the row of their values. -/
theorem accepts_literals {columns : List Column} {row : List Value}
    (hrow : List.Forall₂ (fun c v => v.type = c.type ∧ v.Unsigned ∧ v.Fits) columns row)
    {values : List Expression} (h : List.Forall₂ Expression.Denotes row values) :
    ((columns.zip values).findSome? fun (c, value) => value.slotFault? c) = none ∧
      values.map Expression.slot = row.map some ∧ ∀ value ∈ values, ExpressionFits value := by
  induction hrow generalizing values with
  | nil =>
    cases h
    exact ⟨rfl, rfl, List.forall_mem_nil _⟩
  | @cons c v columns row hfirst hrest ih =>
    obtain ⟨htype, -, hfits⟩ := hfirst
    cases h with
    | @cons _ value _ values hvalue hvalues =>
      obtain ⟨hnone, hslots, hall⟩ := ih hvalues
      cases value with
      | binary left operator right => exact hvalue.elim
      | literal token =>
        obtain ⟨hliteral, hdenotes⟩ := hvalue
        have hfault : Expression.slotFault? c (.literal token) = none := by
          simp only [Expression.slotFault?, hdenotes, if_pos htype]
        have hslot : Expression.slot (.literal token) = some v := hdenotes
        refine ⟨?_, ?_, List.forall_mem_cons.2 ⟨?_, hall⟩⟩
        · rw [List.zip_cons_cons, List.findSome?_cons]
          simp only [hfault, hnone]
        · rw [List.map_cons, List.map_cons, hslot, hslots]
        · refine hliteral.fits fun hkind => ?_
          rw [Token.value?, hkind] at hdenotes
          obtain rfl := Option.some.inj hdenotes
          exact hfits

/-- The text that inserts a row adds it to the table. -/
theorem runs_insertText (ht : t.Fits) (hne : t.columns ≠ []) {rows : List (List Value)}
    (hdb : db t.name = some (relationOf t rows)) {row : List Value} (hrow : t.CanHold row)
    (hcount : rows.length + 1 < 2 ^ 64) :
    db.Runs policy (t.insertText row) (.inserted 1)
      (Function.update db t.name (some (relationOf t (rows ++ [row])))) := by
  have hlength : t.columns.length = row.length := hrow.length_eq
  have hrowne : row ≠ [] := by
    rintro rfl
    exact hne (List.eq_nil_of_length_eq_zero hlength)
  obtain ⟨statement, hparse, htakes⟩ := Table.parseText_insertText hrowne hrow.unsigned
  refine ⟨statement, hparse, ?_⟩
  match statement, htakes with
  | .insert table (some values), ⟨hname, hvalues⟩ =>
    obtain ⟨hfault, hslots, hfits⟩ := accepts_literals hrow hvalues
    have hlen : values.length = t.columns.length := hvalues.length_eq.symm.trans hlength.symm
    refine ⟨⟨hname ▸ ht.1, hfits⟩, ?_, ?_⟩
    · simp only [execute, hname, insert, hdb, relationOf, if_pos hlen, hfault, hslots,
        List.map_append, List.map_singleton]
    · intro r hr
      rw [Option.mem_def, Statement.tableName, hname, Function.update_self] at hr
      obtain rfl := Option.some.inj hr
      simpa [relationOf] using hcount

/-- Names of columns can be selected, and select the columns that are found by these names. -/
theorem accepts_names {r : Relation} {columns : List Column} {items : List Expression}
    (h : List.Forall₂ Expression.Names columns items)
    (hfind : ∀ c ∈ columns, (r.find? c.name).isSome = true) :
    items.findSome? r.itemFault? = none ∧
      items.filterMap r.item? = columns.filterMap fun c => r.find? c.name := by
  induction h with
  | nil => exact ⟨rfl, rfl⟩
  | @cons c item columns items hfirst hrest ih =>
    obtain ⟨hnone, hitems⟩ := ih fun d hd => hfind d (List.mem_cons_of_mem c hd)
    have hsome := hfind c List.mem_cons_self
    cases item with
    | binary left operator right => exact hfirst.elim
    | literal token =>
      obtain ⟨hkind, hvalue⟩ := hfirst
      have hfault : r.itemFault? (.literal token) = none := by
        rw [Relation.itemFault?, if_pos ⟨hkind, hvalue ▸ hsome⟩]
      have hitem : r.item? (.literal token) = r.find? c.name := by
        rw [Relation.item?, hvalue]
      refine ⟨?_, ?_⟩
      · rw [List.findSome?_cons, hfault]
        exact hnone
      · rw [List.filterMap_cons, List.filterMap_cons, hitem, hitems]

end Database

namespace Relation

variable {r : Relation}

/-- A column of a relation is found by its name. -/
theorem find?_isSome {c : Column} (h : c ∈ r.columns) : (r.find? c.name).isSome = true := by
  rw [find?, List.find?_isSome]
  obtain ⟨i, hi, rfl⟩ := List.getElem_of_mem h
  exact ⟨(i, r.columns[i]), List.mem_mapIdx.2 ⟨i, hi, rfl⟩, by simp⟩

/-- What stands where the column of a name is found. -/
theorem find?_bind {α : Type} (name : String) {xs : List α} (h : xs.length = r.columns.length) :
    (r.find? name).bind (fun c => xs[c.1]?)
      = ((r.columns.zip xs).find? (·.1.name = name)).map (·.2) := by
  rw [Table.find?_zip name 0 h, ← r.findColumn?_eq "", Table.findColumn?]
  rfl

/-- A value in a row without empty slots. -/
theorem cell?_map_some (row : List Value) : cell? (row.map some) = fun c => row[c.1]? := by
  funext c
  rw [cell?, List.getElem?_map]
  cases row[c.1]? <;> rfl

/-- The values of a row in the selected columns. -/
theorem filterMap_cell? {columns : List Column} {row : List Value}
    (hlen : row.length = r.columns.length) :
    (columns.filterMap fun c => r.find? c.name).filterMap (cell? (row.map some))
      = columns.filterMap fun c => ((r.columns.zip row).find? (·.1.name = c.name)).map (·.2) := by
  rw [List.filterMap_filterMap, cell?_map_some]
  exact List.filterMap_congr fun c _ => find?_bind c.name hlen

/-- No slot of a row of values is empty. -/
theorem findSome?_cellFault? {columns : List Column} {row : List Value}
    (hlen : row.length = r.columns.length) (table : String) :
    (columns.filterMap fun c => r.find? c.name).findSome? (cellFault? table (row.map some)) = none := by
  rw [List.findSome?_eq_none_iff]
  intro found hfound
  obtain ⟨c, -, hc⟩ := List.mem_filterMap.1 hfound
  obtain ⟨hposition, -⟩ := List.getElem?_eq_some_iff.1 (getElem?_of_find? hc)
  have hlt : found.1 < row.length := hlen ▸ hposition
  have hcell : cell? (row.map some) found = some row[found.1] := by
    simp only [cell?_map_some, List.getElem?_eq_getElem hlt]
  rw [cellFault?, hcell, Option.isSome_some, if_pos rfl]

/-- The selected columns are those found by the names. -/
theorem map_snd_find? (columns : List Column) :
    (columns.filterMap fun c => r.find? c.name).map (·.2)
      = columns.filterMap fun c =>
          ((r.columns.zip r.columns).find? (·.1.name = c.name)).map (·.2) := by
  rw [List.map_filterMap]
  refine List.filterMap_congr fun c _ => ?_
  rw [← find?_bind c.name rfl]
  cases hfound : r.find? c.name with
  | none => rfl
  | some found => exact (getElem?_of_find? hfound).symm

end Relation

namespace Database

variable (policy : DuplicatePolicy) {db : Database} {t : Table}

/-- The text that selects all columns reads the rows. -/
theorem runs_selectText (ht : t.Fits) (hne : t.columns ≠ []) {rows : List (List Value)}
    (hdb : db t.name = some (relationOf t rows)) (hrows : ∀ row ∈ rows, t.CanHold row)
    (hcount : rows.length < 2 ^ 64) :
    db.Runs policy t.selectText (.selected (t.firstNamed t.columns) (rows.map t.firstNamed)) db := by
  obtain ⟨statement, hparse, hselected⟩ := Table.parseText_selectText hne
  refine ⟨statement, hparse, ?_⟩
  match statement, hselected with
  | .select items table, ⟨hname, hitems⟩ =>
    obtain ⟨hnone, hfound⟩ := accepts_names hitems fun c hc =>
      Relation.find?_isSome (r := relationOf t rows) hc
    have hlen : ∀ row ∈ rows, row.length = (relationOf t rows).columns.length :=
      fun row hrow => (hrows row hrow).length_eq.symm
    have hcells : (relationOf t rows).rows.findSome? (fun row =>
        (t.columns.filterMap fun c => (relationOf t rows).find? c.name).findSome?
          (Relation.cellFault? t.name row)) = none := by
      rw [relationOf, List.findSome?_map, List.findSome?_eq_none_iff]
      exact fun row hrow => Relation.findSome?_cellFault? (hlen row hrow) t.name
    have hvalues : ((relationOf t rows).rows.map fun row =>
        (t.columns.filterMap fun c => (relationOf t rows).find? c.name).filterMap
          (Relation.cell? row)) = rows.map t.firstNamed := by
      rw [relationOf, List.map_map]
      exact List.map_congr_left fun row hrow => Relation.filterMap_cell? (hlen row hrow)
    have hcolumns := Relation.map_snd_find? (r := relationOf t rows) t.columns
    have hfits : Text.Fits table.value := hname ▸ ht.1
    refine ⟨hfits, ?_, ?_⟩
    · simp only [execute, select, hname, hdb, hnone, hfound, hcells, hvalues, hcolumns]
      rfl
    · intro r hr
      rw [Option.mem_def, Statement.tableName, hname, hdb] at hr
      obtain rfl := Option.some.inj hr
      simpa [relationOf] using hcount

end Database

/-! ## Sessions -/

namespace Session

variable {s : Session} {db : Database}

/-- A text that runs on the database has its result in a session that stores it. -/
theorem executeText_runs (h : s.store.Stores db) {text : String} {result : ResultSet}
    {after : Database} (hruns : db.Runs s.policy text result after) :
    (s.executeText text).answer = .ok [result] ∧ (s.executeText text).store.Stores after := by
  obtain ⟨statement, hparse, hfits, hexecute, hcount⟩ := hruns
  have hall : ∀ statements, parseText text = .ok statements →
      ∀ statement ∈ statements, statement.Fits := by
    intro statements hstatements
    obtain rfl := Except.ok.inj (hparse.symm.trans hstatements)
    exact List.forall_mem_singleton.2 hfits
  have hcounts : ∀ statements, parseText text = .ok statements →
      db.CanCountAll s.policy statements := by
    intro statements hstatements
    obtain rfl := Except.ok.inj (hparse.symm.trans hstatements)
    exact ⟨by rwa [hexecute], fun _ => trivial⟩
  have hrefines := executeText_refines h hall hcounts
  have hresult : db.executeText s.policy text = (.ok [result], after) := by
    simp only [Database.executeText, hparse, Database.executeAll, hexecute]
    rfl
  rw [hresult] at hrefines
  exact hrefines

/-- Rows that are inserted into a table are read back behind those that it has. -/
theorem outcomes_inserted {t : Table} (ht : t.Fits) (hne : t.columns ≠ [])
    {earlier rows : List (List Value)} (h : s.store.Stores db)
    (hdb : db t.name = some (Database.relationOf t earlier))
    (hrows : ∀ row ∈ earlier ++ rows, t.CanHold row) (hcount : (earlier ++ rows).length < 2 ^ 64) :
    (s.outcomes (rows.map t.insertText ++ [t.selectText])).map (·.answer)
      = rows.map (fun _ => .ok [.inserted 1])
        ++ [.ok [.selected (t.firstNamed t.columns) ((earlier ++ rows).map t.firstNamed)]] := by
  -- induction on the rows; one that has been inserted is one of the earlier
  induction rows generalizing s db earlier with
  | nil =>
    rw [List.append_nil] at hrows hcount ⊢
    have hselected := Database.runs_selectText s.policy ht hne hdb hrows hcount
    simp only [List.map_nil, List.nil_append, outcomes, List.map_cons]
    rw [(executeText_runs h hselected).1]
  | cons row rows ih =>
    have happend : earlier ++ row :: rows = earlier ++ [row] ++ rows := List.append_cons ..
    rw [happend] at hrows hcount ⊢
    have hroom : earlier.length + 1 < 2 ^ 64 := by
      simp only [List.length_append, List.length_singleton] at hcount
      omega
    have hinserted := Database.runs_insertText s.policy ht hne hdb
      (hrows row (by simp)) hroom
    obtain ⟨hanswer, hstores⟩ := executeText_runs h hinserted
    have hothers := ih (s := s.after (s.executeText (t.insertText row))) hstores
      (Function.update_self ..) hrows hcount
    simp only [List.map_cons, List.cons_append, outcomes, hanswer, hothers]

/-- A table and rows that it can hold, written as texts and given to a session without tables: the table
is created, every row is inserted, and the selection of all columns gives for each of them the first
column of its name and its value in every row. Without columns of the same name these are the columns and
the rows. -/
theorem outcomes_written (policy : DuplicatePolicy) (t : Table) (rows : List (List Value))
    (ht : t.Fits) (hne : t.columns ≠ []) (hrows : ∀ row ∈ rows, t.CanHold row)
    (hcount : rows.length < 2 ^ 64) :
    (({ policy } : Session).outcomes
        (t.createText :: (rows.map t.insertText ++ [t.selectText]))).map (·.answer)
      = .ok [.created t.name] :: (rows.map (fun _ => .ok [.inserted 1])
          ++ [.ok [.selected (t.firstNamed t.columns) (rows.map t.firstNamed)]]) ∧
      ((t.columns.map Column.name).Nodup →
        t.firstNamed t.columns = t.columns ∧ rows.map t.firstNamed = rows) := by
  refine ⟨?_, fun hnodup => ⟨Table.firstNamed_of_nodup rfl hnodup, ?_⟩⟩
  · have hcreated := Database.runs_createText policy ht hne
    obtain ⟨hanswer, hstores⟩ := executeText_runs (s := { policy }) .empty hcreated
    have hrelation : Function.update Database.empty t.name (some (Database.relationOf t [])) t.name
        = some (Database.relationOf t []) := Function.update_self ..
    have hothers := outcomes_inserted (s := ({ policy } : Session).after _) ht hne hstores hrelation
      hrows hcount
    simp only [outcomes, List.map_cons, hanswer, hothers, List.nil_append]
  · calc rows.map t.firstNamed = rows.map id := List.map_congr_left fun row hrow =>
          Table.firstNamed_of_nodup (hrows row hrow).length_eq.symm hnodup
      _ = rows := List.map_id rows

/-- Quotes in names and texts are doubled, a reserved word may be a name, and a second column of a name is
read as the first. -/
theorem outcomes_written_sameName :
    (({ policy := .refuse } : Session).outcomes
        ["CREATE TABLE \"a\"\"b\" (\"select\" int, \"select\" text)",
          "INSERT INTO \"a\"\"b\" VALUES (2147483647, 'it''s')",
          "SELECT \"select\", \"select\" FROM \"a\"\"b\""]).map (·.answer)
      = [.ok [.created "a\"b"], .ok [.inserted 1],
          .ok [.selected [⟨"select", .int⟩, ⟨"select", .int⟩]
            [[.int 2147483647, .int 2147483647]]]] := by
  have hrows : ∀ row ∈ [[Value.int 2147483647, .text "it's"]],
      Table.CanHold ⟨"a\"b", [⟨"select", .int⟩, ⟨"select", .text⟩]⟩ row := by
    intro row hrow
    obtain rfl := List.mem_singleton.1 hrow
    have hint : Value.Unsigned (.int 2147483647) := by
      show 0 ≤ (2147483647 : Int32).toInt
      decide
    have htext : Value.Fits (.text "it's") := by
      show Text.Fits "it's"
      decide
    exact .cons ⟨rfl, hint, trivial⟩ (.cons ⟨rfl, trivial, htext⟩ .nil)
  exact (outcomes_written .refuse _ _ (by decide) (by decide) hrows (by decide)).1

end Session

end SqlStore
