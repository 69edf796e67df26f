import SqlStore.Proofs.Session.Checks
import SqlStore.Proofs.Table.Catalog

/-! # Sessions answer as the database without bytes does

* **`Database.StoredIn db c`** — the catalog `c` has the relations of `db`, their rows as bytes of
  values of the columns' types;
* **`TableStore.Stores s db`** — a store represents such a catalog. `Stores.execute` says that every
  statement keeps this and has the answer of the database;
* **`Session.answers_fresh_eq`** — from the empty store, a session answers every list of statements
  for which there is room as the database does. -/

namespace SqlStore

/-! ## Stored databases -/

/-- A catalog has the relations of a database: their columns are its definitions, and their rows are
stored as bytes. Every row has values of the columns' types. -/
structure Database.StoredIn (db : Database) (c : Catalog) : Prop where
  lookup : ∀ name, c.definitions.lookup name = (db name).map fun r => ⟨name, r.columns⟩
  rows : ∀ {name r}, db name = some r → c.rows name = r.rows.map Relation.stored
  typed : ∀ {name r}, db name = some r → ∀ row ∈ r.rows, Relation.RowOf r.columns row

namespace Database.StoredIn

variable {db : Database} {c : Catalog}

/-- The empty catalog has the relations of the empty database. -/
theorem empty : Database.empty.StoredIn .empty where
  lookup _ := by simp [Catalog.empty, Database.empty]
  rows h := by cases h
  typed h := by cases h

/-- Creating a table sets a relation without rows. -/
theorem create (h : db.StoredIn c) (name : String) (columns : List Column) :
    Database.StoredIn (Function.update db name (some ⟨columns, []⟩))
      (c.create ⟨name, columns⟩) where
  lookup other := by
    by_cases heq : other = name
    · subst heq
      rw [Function.update_self]
      exact c.lookup_create_self ⟨other, columns⟩
    · rw [Function.update_of_ne heq, ← h.lookup]
      exact c.lookup_create_of_ne ⟨name, columns⟩ heq
  rows {other r} hr := by
    by_cases heq : other = name
    · subst heq
      rw [Function.update_self] at hr
      obtain rfl := Option.some.inj hr
      exact c.rows_create_self ⟨other, columns⟩
    · rw [Function.update_of_ne heq] at hr
      rw [← h.rows hr]
      exact c.rows_create_of_ne ⟨name, columns⟩ heq
  typed {other r} hr row hrow := by
    by_cases heq : other = name
    · subst heq
      rw [Function.update_self] at hr
      obtain rfl := Option.some.inj hr
      cases hrow
    · rw [Function.update_of_ne heq] at hr
      exact h.typed hr row hrow

/-- Adding a stored row adds it to the relation. -/
theorem append (h : db.StoredIn c) {name : String} {r : Relation} (hr : db name = some r)
    {row : List (Option Value)} (hrow : Relation.RowOf r.columns row) :
    Database.StoredIn (Function.update db name (some { r with rows := r.rows ++ [row] }))
      (c.append name (Relation.stored row)) where
  lookup other := by
    by_cases heq : other = name
    · subst heq
      rw [Function.update_self]
      show c.definitions.lookup other = _
      rw [h.lookup, hr]
      rfl
    · rw [Function.update_of_ne heq]
      exact h.lookup other
  rows {other r'} hr' := by
    by_cases heq : other = name
    · subst heq
      rw [Function.update_self] at hr'
      obtain rfl := Option.some.inj hr'
      rw [c.rows_append_self, h.rows hr, List.map_append, List.map_singleton]
    · rw [Function.update_of_ne heq] at hr'
      rw [c.rows_append_of_ne _ heq, h.rows hr']
  typed {other r'} hr' found hfound := by
    by_cases heq : other = name
    · subst heq
      rw [Function.update_self] at hr'
      obtain rfl := Option.some.inj hr'
      rcases List.mem_append.1 hfound with hold | hnew
      · exact h.typed hr found hold
      · rwa [List.mem_singleton.1 hnew]
    · rw [Function.update_of_ne heq] at hr'
      exact h.typed hr' found hfound

end Database.StoredIn

/-- A table store stores a database: it represents a catalog that has its relations. -/
def TableStore.Stores (s : TableStore) (db : Database) : Prop :=
  ∃ c, s.Represents c ∧ db.StoredIn c

/-! ## Statements -/

namespace TableStore.Stores

variable {s : TableStore} {db : Database}

/-- The empty store stores the empty database. -/
theorem empty : TableStore.empty.Stores .empty :=
  ⟨.empty, .empty, .empty⟩

/-- A table that is looked up has the columns of the relation. -/
theorem getTable? (h : s.Stores db) {name : String} (hname : Text.Fits name) :
    s.getTable? name = .ok ((db name).map fun r => ⟨name, r.columns⟩) := by
  obtain ⟨c, hs, hc⟩ := h
  rw [hs.getTable? hname, hc.lookup]

/-- A table that is needed has the columns of the relation. -/
theorem getTable_some (h : s.Stores db) {name : String} (hname : Text.Fits name) {r : Relation}
    (hr : db name = some r) : s.getTable name = .ok ⟨name, r.columns⟩ := by
  have hget := h.getTable? hname
  rw [hr] at hget
  simp only [getTable, hget]
  rfl

/-- A table that is needed is missing if there is no relation. -/
theorem getTable_none (h : s.Stores db) {name : String} (hname : Text.Fits name)
    (hr : db name = none) : s.getTable name = .error (.tableNotFound name) := by
  have hget := h.getTable? hname
  rw [hr] at hget
  simp only [getTable, hget]
  rfl

/-- The rows that are read are those of the relation, as they are stored. -/
theorem rows (h : s.Stores db) {name : String} (hname : Text.Fits name) {r : Relation}
    (hr : db name = some r) : s.rows name = .ok (r.rows.map Relation.stored) := by
  obtain ⟨c, hs, hc⟩ := h
  rw [hs.rows hname, hc.rows hr]

/-- The rows of a relation have values of its columns' types. -/
theorem typed (h : s.Stores db) {name : String} {r : Relation} (hr : db name = some r) :
    ∀ row ∈ r.rows, Relation.RowOf r.columns row := by
  obtain ⟨c, -, hc⟩ := h
  exact hc.typed hr

/-- Defining a table sets a relation without rows. -/
theorem create (h : s.Stores db) {name : String} {columns : List Column}
    (ht : Table.Fits ⟨name, columns⟩) :
    (s.create ⟨name, columns⟩).Stores (Function.update db name (some ⟨columns, []⟩)) := by
  obtain ⟨c, hs, hc⟩ := h
  exact ⟨_, hs.create ht, hc.create name columns⟩

/-- Adding a row that fits cannot fail, and it adds the row to the relation. -/
theorem append (h : s.Stores db) {name : String} (hname : Text.Fits name) {r : Relation}
    (hr : db name = some r) {row : List (Option Value)} (hrow : Relation.RowOf r.columns row)
    (hfits : Row.Fits (Relation.stored row)) (hroom : r.rows.length + 1 < 2 ^ 64) :
    ∃ after, s.append name (Relation.stored row) = .ok after ∧
      after.Stores (Function.update db name (some { r with rows := r.rows ++ [row] })) := by
  obtain ⟨c, hs, hc⟩ := h
  -- the catalog has as many rows as the relation
  have hcount : (c.rows name).length + 1 < 2 ^ 64 := by
    rwa [hc.rows hr, List.length_map]
  obtain ⟨after, happend, hafter⟩ := hs.append hname hfits hcount
  exact ⟨after, happend, _, hafter, hc.append hr hrow⟩

/-- The number of columns of a relation is written in full. -/
theorem length_columns (h : s.Stores db) {name : String} {r : Relation} (hr : db name = some r) :
    r.columns.length < 2 ^ 64 := by
  obtain ⟨c, hs, hc⟩ := h
  have hlookup := hc.lookup name
  rw [hr] at hlookup
  exact (hs.fits.table hlookup).2.1

/-- Creating a table answers as the database does. -/
theorem createTable (h : s.Stores db) (policy : DuplicatePolicy) {name : String}
    (hname : Text.Fits name) {definitions : List ColumnDefinition}
    (hlen : definitions.length < 2 ^ 64) (hcolumns : ∀ d ∈ definitions, Text.Fits d.name.value) :
    (SqlStore.createTable policy s name definitions).answer = (db.create policy name definitions).1 ∧
      (SqlStore.createTable policy s name definitions).store.Stores
        (db.create policy name definitions).2 := by
  have hchecks := DecidedBy.mapM fun d (_ : d ∈ definitions) => d.toColumn_decidedBy
  cases hfault : definitions.findSome? ColumnDefinition.fault? with
  | some e =>
    -- a type that is refused comes before the name
    have herror := hchecks.of_fault hfault
    simp only [SqlStore.createTable, herror, Database.create, hfault]
    exact ⟨rfl, h⟩
  | none =>
    have hok := hchecks.eq_ok hfault rfl
    rw [List.filterMap_eq_map'] at hok
    have hfits : Table.Fits ⟨name, definitions.map ColumnDefinition.column⟩ := by
      refine ⟨hname, by rwa [List.length_map], ?_⟩
      intro c hc
      obtain ⟨d, hd, rfl⟩ := List.mem_map.1 hc
      exact hcolumns d hd
    have hcreated := h.create hfits
    have hget := h.getTable? hname
    cases hr : db name with
    | none =>
      rw [hr] at hget
      simp only [SqlStore.createTable, hok, hget, Option.map_none, Database.create, hfault, hr]
      simpa using ⟨rfl, hcreated⟩
    | some r =>
      -- only here the policy decides
      rw [hr] at hget
      cases policy with
      | refuse =>
        simp only [SqlStore.createTable, hok, hget, Option.map_some, Database.create, hfault, hr]
        exact ⟨rfl, h⟩
      | replace =>
        simp only [SqlStore.createTable, hok, hget, Option.map_some, Database.create, hfault, hr]
        exact ⟨rfl, hcreated⟩

/-- Values that no column refuses are added as a row. -/
theorem insertRow_ok (h : s.Stores db) {name : String} (hname : Text.Fits name) {r : Relation}
    (hr : db name = some r) {values : List Expression}
    (hvalues : ∀ value ∈ values, Database.ExpressionFits value)
    (hlen : values.length = r.columns.length)
    (hnone : ((r.columns.zip values).findSome? fun (c, value) => value.slotFault? c) = none)
    (hroom : r.rows.length + 1 < 2 ^ 64) :
    (SqlStore.insertRow s name (some values)).answer = .ok (.inserted 1) ∧
      (SqlStore.insertRow s name (some values)).store.Stores (Function.update db name
        (some { r with rows := r.rows ++ [values.map Expression.slot] })) := by
  have hfill := (fillRow_decidedBy ⟨name, r.columns⟩ hvalues hlen).eq_ok hnone rfl
  have hfits : Row.Fits (Relation.stored (values.map Expression.slot)) :=
    Relation.stored_fits (hlen ▸ h.length_columns hr) hvalues
  obtain ⟨after, happend, hafter⟩ := h.append hname hr (Relation.rowOf_slots hlen hnone) hfits hroom
  have hrun : SqlStore.insertRow s name (some values) = {
      answer := .ok (.inserted 1), store := after, log := fillNotes ⟨name, r.columns⟩ values } := by
    simp only [SqlStore.insertRow, h.getTable_some hname hr, hfill, bind, Except.bind, happend]
  rw [hrun]
  exact ⟨rfl, hafter⟩

/-- Inserting a row answers as the database does. -/
theorem insertRow (h : s.Stores db) {name : String} (hname : Text.Fits name)
    {values : Option (List Expression)}
    (hvalues : ∀ value ∈ values.getD [], Database.ExpressionFits value)
    (hcount : (db.insert name values).2.CanCount name) :
    (SqlStore.insertRow s name values).answer = (db.insert name values).1 ∧
      (SqlStore.insertRow s name values).store.Stores (db.insert name values).2 := by
  cases hr : db name with
  | none =>
    simp only [SqlStore.insertRow, h.getTable_none hname hr, Database.insert, hr]
    exact ⟨rfl, h⟩
  | some r =>
    have hget := h.getTable_some hname hr
    cases values with
    | none =>
      simp only [SqlStore.insertRow, hget, Database.insert, hr]
      exact ⟨rfl, h⟩
    | some values =>
      -- the number of values is checked first, and then each of them
      by_cases hlen : values.length = r.columns.length
      · cases hfault : (r.columns.zip values).findSome? fun (c, value) => value.slotFault? c with
        | some e =>
          have hfill : fillRow ⟨name, r.columns⟩ values = .error e :=
            (fillRow_decidedBy ⟨name, r.columns⟩ hvalues hlen).of_fault hfault
          simp only [SqlStore.insertRow, hget, hfill, Database.insert, hr, if_pos hlen, hfault]
          exact ⟨rfl, h⟩
        | none =>
          have hinsert : db.insert name (some values) = (.ok (.inserted 1), Function.update db name
              (some { r with rows := r.rows ++ [values.map Expression.slot] })) := by
            simp only [Database.insert, hr, if_pos hlen, hfault]
          rw [hinsert] at hcount ⊢
          have hroom := hcount _ (Function.update_self ..)
          rw [List.length_append, List.length_singleton] at hroom
          exact h.insertRow_ok hname hr hvalues hlen hfault hroom
      · simp only [SqlStore.insertRow, hget, fillRow, if_neg hlen, Database.insert, hr]
        exact ⟨rfl, h⟩

/-- Selecting columns answers as the database does. -/
theorem selectColumns (h : s.Stores db) {name : String} (hname : Text.Fits name)
    (items : List Expression) :
    (SqlStore.selectColumns s name items).answer = db.select name items := by
  cases hr : db name with
  | none =>
    simp only [SqlStore.selectColumns, h.getTable_none hname hr, Database.select, hr,
      Outcome.unchanged]
  | some r =>
    simp only [SqlStore.selectColumns, h.getTable_some hname hr, Database.select, hr,
      Outcome.unchanged, readColumns]
    -- the columns are settled first, whatever the rows are
    have hitems := r.projection_decidedBy name items
    cases hfault : items.findSome? r.itemFault? with
    | some e =>
      rw [hitems.of_fault hfault]
      rfl
    | none =>
      have hselected : ∀ c ∈ items.filterMap r.item?, r.columns[c.1]? = some c.2 :=
        fun c hc => Relation.getElem?_of_mem_items hc
      have hrows := Relation.projectRows_decidedBy ⟨name, r.columns⟩ hselected (h.typed hr)
      simp only [hitems.eq_ok hfault rfl, bind, Except.bind, h.rows hname hr]
      cases hcell : r.rows.findSome? fun row =>
          (items.filterMap r.item?).findSome? (Relation.cellFault? name row) with
      | some e => rw [hrows.of_fault hcell]
      | none =>
        rw [hrows.eq_ok hcell rfl]
        rfl

/-- Selecting columns changes nothing. -/
theorem selectColumns_store (s : TableStore) (name : String) (items : List Expression) :
    (SqlStore.selectColumns s name items).store = s := by
  unfold SqlStore.selectColumns
  cases s.getTable name with
  | error e => rfl
  | ok t => rfl

/-- Every statement answers as the database does. -/
theorem execute (h : s.Stores db) (policy : DuplicatePolicy) {statement : Statement}
    (hroom : db.HasRoom statement) :
    (SqlStore.execute policy s statement).answer = (db.execute policy statement).1 ∧
      (SqlStore.execute policy s statement).store.Stores (db.execute policy statement).2 := by
  cases statement with
  | createTable name columns =>
    obtain ⟨hname, hlen, hcolumns⟩ := hroom
    exact h.createTable policy hname hlen hcolumns
  | insert table values =>
    obtain ⟨hname, hvalues, hcount⟩ := hroom
    exact h.insertRow hname hvalues hcount
  | select items table =>
    refine ⟨h.selectColumns hroom items, ?_⟩
    rw [SqlStore.execute, selectColumns_store]
    exact h

end TableStore.Stores

/-! ## Lists of statements -/

namespace Session

/-- The answers to statements that are carried out one after the other, whether they fail or not. -/
def answers (s : Session) : List Statement → List (Except Error ResultSet)
  | [] => []
  | statement :: rest => (s.execute statement).answer :: (s.after (s.execute statement)).answers rest

/-- A session answers every list of statements as the database that it stores does. -/
theorem answers_eq {s : Session} {db : Database} (h : s.store.Stores db)
    {statements : List Statement} (hroom : db.RoomFor s.policy statements) :
    s.answers statements = db.answers s.policy statements := by
  -- induction on the statements; `Stores` is kept by every one of them
  induction statements generalizing s db with
  | nil => rfl
  | cons statement rest ih =>
    obtain ⟨hstatement, hrest⟩ := hroom
    obtain ⟨hanswer, hafter⟩ := h.execute s.policy hstatement
    rw [answers, Database.answers]
    congr 1
    exact ih (s := s.after (s.execute statement)) hafter hrest

/-- From the empty store and with either policy, a session answers every list of statements for which
there is room as the database without bytes does, errors included. -/
theorem answers_fresh_eq (policy : DuplicatePolicy) (statements : List Statement)
    (hroom : Database.empty.RoomFor policy statements) :
    ({ policy } : Session).answers statements = Database.empty.answers policy statements :=
  answers_eq .empty hroom

/-- A row with a slot left empty is counted as inserted and cannot be read in that column, and where
names are refused the table stays. -/
theorem answers_fresh_emptySlot :
    ({ policy := .refuse } : Session).answers
        [.createTable ⟨.identifier, "t", {}⟩ (some [⟨⟨.identifier, "a", {}⟩, ⟨.keyword, "int", {}⟩⟩]),
          .insert ⟨.identifier, "t", {}⟩ (some [.literal ⟨.numeric, "7", {}⟩]),
          .select [.literal ⟨.identifier, "a", {}⟩] ⟨.identifier, "t", {}⟩,
          .insert ⟨.identifier, "t", {}⟩ (some [.binary (.literal ⟨.numeric, "1", {}⟩)
            ⟨.symbol, "=", {}⟩ (.literal ⟨.numeric, "1", {}⟩)]),
          .select [.literal ⟨.identifier, "a", {}⟩] ⟨.identifier, "t", {}⟩,
          .createTable ⟨.identifier, "t", {}⟩ none]
      = [.ok (.created "t"), .ok (.inserted 1), .ok (.selected [⟨"a", .int⟩] [[.int 7]]),
          .ok (.inserted 1), .error (.missingCell "t" "a"), .error (.tableExists "t")] := by
  rw [answers_fresh_eq _ _ (by decide)]
  rfl

end Session

end SqlStore
