import SqlStore.Proofs.Results
import SqlStore.Proofs.Table.Catalog
import SqlStore.Session.Execution

/-! # Statements work on one table each

What is kept under a name is all that a statement about this name reads and all that it writes:

* **`Slot`** — a definition, if there is one, and rows; **`Slots`** are what is kept under each name, and
  **`Catalog.slot`** those of a catalog;
* **`Slot.execute`** — a statement that works on the slot of its table;
* **`Statement.Sized`** — statements whose names, strings and lists of columns are written in full;
* **`TableStore.Keeps s slots`** — a store keeps these slots. `Keeps.execute` says that a statement answers
  as on its own slot and changes no other, and `Keeps.entries_eq` that the slots are all there is in the
  store. -/

namespace SqlStore

/-! ## Slots -/

/-- What is kept under a name: the definition of a table, if there is one, and rows. -/
structure Slot where
  table? : Option Table
  rows : List Row
  deriving DecidableEq, Repr

namespace Slot

/-- The slot of a name that was never used. -/
def empty : Slot := ⟨none, []⟩

/-- Creates a table without rows. The types are checked before the name is. -/
def createTable (policy : DuplicatePolicy) (slot : Slot) (name : String)
    (definitions : List ColumnDefinition) : Except Error ResultSet × Slot :=
  match definitions.mapM ColumnDefinition.toColumn with
  | .error e => (.error e, slot)
  | .ok columns =>
    if policy = .refuse ∧ slot.table?.isSome then (.error (.tableExists name), slot)
    else (.ok (.created name), ⟨some ⟨name, columns⟩, []⟩)

/-- Adds a row behind the others. -/
def insertRow (slot : Slot) (name : String) (values : Option (List Expression)) :
    Except Error ResultSet × Slot :=
  match slot.table?, values with
  | none, _ => (.error (.tableNotFound name), slot)
  | some _, none => (.ok (.inserted 0), slot)
  | some t, some values =>
    match fillRow t values with
    | .error e => (.error e, slot)
    | .ok row => (.ok (.inserted 1), ⟨some t, slot.rows ++ [row]⟩)

/-- Reads columns of every row. The names are checked before any row is read. -/
def selectColumns (slot : Slot) (name : String) (items : List Expression) : Except Error ResultSet :=
  match slot.table? with
  | none => .error (.tableNotFound name)
  | some t => do
    let selected ← projection t items
    return .selected (selected.map (·.2)) (← slot.rows.mapM (projectRow t selected))

/-- The answer to a statement about the name of the slot, and the slot after it. -/
def execute (policy : DuplicatePolicy) (slot : Slot) : Statement → Except Error ResultSet × Slot
  | .createTable name columns => slot.createTable policy name.value (columns.getD [])
  | .insert table values => slot.insertRow table.value values
  | .select items table => (slot.selectColumns table.value items, slot)

end Slot

/-- What is kept under each name. -/
abbrev Slots := String → Slot

/-! ## The slots of a catalog -/

namespace Catalog

/-- What a catalog keeps under a name. -/
def slot (c : Catalog) : Slots := fun name => ⟨c.definitions.lookup name, c.rows name⟩

/-- The empty catalog has empty slots. -/
theorem slot_empty : Catalog.empty.slot = fun _ => Slot.empty := by
  funext name
  simp [slot, Catalog.empty, Slot.empty]

/-- Creating a table sets its slot. -/
theorem slot_create (c : Catalog) (t : Table) :
    (c.create t).slot = Function.update c.slot t.name ⟨some t, []⟩ := by
  funext name
  by_cases heq : name = t.name
  · subst heq
    rw [Function.update_self, slot, c.lookup_create_self, c.rows_create_self]
  · rw [Function.update_of_ne heq, slot, c.lookup_create_of_ne t heq, c.rows_create_of_ne t heq, slot]

/-- Adding a row sets the slot of its name. -/
theorem slot_append (c : Catalog) (name : String) (row : Row) :
    (c.append name row).slot
      = Function.update c.slot name ⟨(c.slot name).table?, (c.slot name).rows ++ [row]⟩ := by
  funext other
  by_cases heq : other = name
  · subst heq
    rw [Function.update_self, slot, c.rows_append_self]
    rfl
  · rw [Function.update_of_ne heq, slot, c.rows_append_of_ne row heq]
    rfl

/-- The slots determine the records. -/
theorem record?_congr {c c' : Catalog} (h : c.slot = c'.slot) : c.record? = c'.record? := by
  have htable : ∀ name, c.definitions.lookup name = c'.definitions.lookup name :=
    fun name => congrArg Slot.table? (congrFun h name)
  have hrows : ∀ name, c.rows name = c'.rows name :=
    fun name => congrArg Slot.rows (congrFun h name)
  funext key
  cases key with
  | table name => rw [record?, record?, htable]
  | row name number => rw [record?, record?, hrows]
  | nextRow name => rw [record?, record?, hrows]

end Catalog

/-! ## Sizes -/

/-- Whether the text of an inserted string is written in full. -/
def Expression.Sized : Expression → Prop
  | .binary _ _ _ => True
  | .literal t => t.kind = .string → Text.Fits t.value

/-- Whether the names, the strings and the list of columns of a statement are written in full. Numerals
need not be readable. -/
def Statement.Sized : Statement → Prop
  | .createTable name columns =>
    Text.Fits name.value ∧ (columns.getD []).length < 2 ^ 64 ∧
      ∀ d ∈ columns.getD [], Text.Fits d.name.value
  | .insert table values => Text.Fits table.value ∧ ∀ value ∈ values.getD [], value.Sized
  | .select _ table => Text.Fits table.value

instance : DecidablePred Expression.Sized
  | .binary _ _ _ => .isTrue trivial
  | .literal t => inferInstanceAs (Decidable (t.kind = .string → Text.Fits t.value))

instance : DecidablePred Statement.Sized
  | .createTable name columns =>
    inferInstanceAs (Decidable (Text.Fits name.value ∧ (columns.getD []).length < 2 ^ 64 ∧
      ∀ d ∈ columns.getD [], Text.Fits d.name.value))
  | .insert table values =>
    inferInstanceAs (Decidable (Text.Fits table.value ∧ ∀ value ∈ values.getD [], value.Sized))
  | .select _ table => inferInstanceAs (Decidable (Text.Fits table.value))

/-! ## Tables and rows written in full -/

/-- A table is written in full if its name and the definitions of its columns are. -/
theorem Table.fits_of_toColumn {name : String} {definitions : List ColumnDefinition}
    {columns : List Column} (hname : Text.Fits name) (hlen : definitions.length < 2 ^ 64)
    (hdefinitions : ∀ d ∈ definitions, Text.Fits d.name.value)
    (h : definitions.mapM ColumnDefinition.toColumn = .ok columns) : Table.Fits ⟨name, columns⟩ := by
  obtain ⟨hlength, hcolumns⟩ := of_mapM_eq_ok h
  refine ⟨hname, hlength ▸ hlen, fun c hc => ?_⟩
  -- every column has the name of its definition
  obtain ⟨d, hd, hcolumn⟩ := hcolumns c hc
  unfold ColumnDefinition.toColumn at hcolumn
  split at hcolumn
  · cases hcolumn
    exact hdefinitions d hd
  · cases hcolumn

/-- What fills a slot of a row is the value of a literal, and it has the type of the column. -/
theorem exists_of_slotFor {column : Column} {value : Expression} {bytes : Bytes}
    (h : slotFor column value = .ok (some bytes)) : ∃ t v, value = .literal t ∧
      Value.ofLiteral t = .ok (some v) ∧ v.type = column.type ∧ v.toBytes = bytes := by
  cases value with
  | binary left operator right => simp [slotFor] at h
  | literal t =>
    simp only [slotFor] at h
    split at h
    · cases h
    · cases h
    · next v hv =>
      split at h
      · next htype => exact ⟨t, v, rfl, hv, htype, Option.some.inj (Except.ok.inj h)⟩
      · cases h

/-- What fills a slot of a row is written in full. -/
theorem Expression.Sized.slotFor {column : Column} {value : Expression} {slot : Option Bytes}
    (hvalue : value.Sized) (h : SqlStore.slotFor column value = .ok slot) :
    ∀ bytes ∈ slot, bytes.length < 2 ^ 64 := by
  rintro bytes rfl
  obtain ⟨t, v, rfl, hv, -, rfl⟩ := exists_of_slotFor h
  -- an integer has four bytes, and a text is that of a string
  unfold Value.ofLiteral at hv
  split at hv
  · cases hread : Numeral.read t.value with
    | error fault => simp [hread, Except.map] at hv
    | ok n =>
      rw [hread] at hv
      cases hv
      rw [Value.toBytes, length_bigEndian]
      decide
  · next hkind =>
    cases hv
    exact hvalue hkind
  · cases hv

/-- A row of values that are written in full is. -/
theorem Row.fits_of_fillRow {t : Table} {values : List Expression} {row : Row} (ht : t.Fits)
    (hvalues : ∀ value ∈ values, value.Sized) (h : fillRow t values = .ok row) : row.Fits := by
  unfold fillRow at h
  split at h
  · next hlen =>
    obtain ⟨hlength, hslots⟩ := of_mapM_eq_ok h
    constructor
    · rw [hlength, List.length_zip, hlen, Nat.min_self]
      exact ht.2.1
    · intro slot hslot
      obtain ⟨⟨column, value⟩, hpair, hfill⟩ := hslots slot hslot
      exact (hvalues value (List.of_mem_zip hpair).2).slotFor hfill
  · cases h

/-! ## Stores of slots -/

/-- A store keeps these slots and nothing else. -/
def TableStore.Keeps (s : TableStore) (slots : Slots) : Prop :=
  ∃ c, s.Represents c ∧ c.slot = slots

namespace TableStore.Keeps

variable {s : TableStore} {slots : Slots}

/-- The empty store keeps empty slots. -/
theorem empty : TableStore.empty.Keeps fun _ => .empty := ⟨.empty, .empty, Catalog.slot_empty⟩

/-- The slots are all there is in a store. -/
theorem entries_eq {s' : TableStore} (h : s.Keeps slots) (h' : s'.Keeps slots) :
    s.bytes.entries = s'.bytes.entries := by
  obtain ⟨c, hs, rfl⟩ := h
  obtain ⟨c', hs', hslot⟩ := h'
  have hholds := hs'.holds
  rw [Catalog.record?_congr hslot] at hholds
  exact hs.holds.eq_of_holds hholds

/-- A table that is looked up is that of its slot. -/
theorem getTable? (h : s.Keeps slots) {name : String} (hname : Text.Fits name) :
    s.getTable? name = .ok (slots name).table? := by
  obtain ⟨c, hs, rfl⟩ := h
  exact hs.getTable? hname

/-- A table that is needed is that of its slot, or missing. -/
theorem getTable (h : s.Keeps slots) {name : String} (hname : Text.Fits name) :
    s.getTable name = match (slots name).table? with
      | some t => .ok t
      | none => .error (.tableNotFound name) := by
  rw [TableStore.getTable, h.getTable? hname]
  rfl

/-- The rows that are read are those of the slot. -/
theorem rows (h : s.Keeps slots) {name : String} (hname : Text.Fits name) :
    s.rows name = .ok (slots name).rows := by
  obtain ⟨c, hs, rfl⟩ := h
  exact hs.rows hname

/-- A table stands under its own name and is written in full. -/
theorem table (h : s.Keeps slots) {name : String} {t : Table} (ht : (slots name).table? = some t) :
    t.name = name ∧ t.Fits := by
  obtain ⟨c, hs, rfl⟩ := h
  exact ⟨hs.fits.name_eq ht, hs.fits.table ht⟩

/-- Creating a table sets its slot. -/
theorem create (h : s.Keeps slots) {t : Table} (ht : t.Fits) :
    (s.create t).Keeps (Function.update slots t.name ⟨some t, []⟩) := by
  obtain ⟨c, hs, rfl⟩ := h
  exact ⟨_, hs.create ht, c.slot_create t⟩

/-- Adding a row cannot fail, and it sets the slot of its name. -/
theorem append (h : s.Keeps slots) {name : String} (hname : Text.Fits name) {row : Row}
    (hrow : row.Fits) (hroom : (slots name).rows.length + 1 < 2 ^ 64) :
    ∃ after, s.append name row = .ok after ∧ after.Keeps
      (Function.update slots name ⟨(slots name).table?, (slots name).rows ++ [row]⟩) := by
  obtain ⟨c, hs, rfl⟩ := h
  obtain ⟨after, happend, hafter⟩ := hs.append hname hrow hroom
  exact ⟨after, happend, _, hafter, c.slot_append name row⟩

/-! ### Statements -/

/-- Creating a table answers as on its slot and sets it. -/
theorem createTable (h : s.Keeps slots) (policy : DuplicatePolicy) {name : String}
    (hname : Text.Fits name) {definitions : List ColumnDefinition}
    (hlen : definitions.length < 2 ^ 64)
    (hdefinitions : ∀ d ∈ definitions, Text.Fits d.name.value) :
    (SqlStore.createTable policy s name definitions).answer
        = ((slots name).createTable policy name definitions).1 ∧
      (SqlStore.createTable policy s name definitions).store.Keeps
        (Function.update slots name ((slots name).createTable policy name definitions).2) := by
  have hkept : s.Keeps (Function.update slots name (slots name)) := by
    rwa [Function.update_eq_self]
  unfold SqlStore.createTable Slot.createTable
  rw [h.getTable? hname]
  cases hcolumns : definitions.mapM ColumnDefinition.toColumn with
  | error e => exact ⟨rfl, hkept⟩
  | ok columns =>
    have hcreated := h.create (Table.fits_of_toColumn hname hlen hdefinitions hcolumns)
    -- only a name that is taken is left to the policy
    cases (slots name).table? with
    | none => simpa using ⟨rfl, hcreated⟩
    | some t =>
      cases policy with
      | replace => exact ⟨rfl, hcreated⟩
      | refuse => exact ⟨rfl, hkept⟩

/-- Inserting a row answers as on the slot of its table and sets it. -/
theorem insertRow (h : s.Keeps slots) {name : String} (hname : Text.Fits name)
    {values : Option (List Expression)} (hvalues : ∀ value ∈ values.getD [], value.Sized)
    (hcount : ((slots name).insertRow name values).2.rows.length < 2 ^ 64) :
    (SqlStore.insertRow s name values).answer = ((slots name).insertRow name values).1 ∧
      (SqlStore.insertRow s name values).store.Keeps
        (Function.update slots name ((slots name).insertRow name values).2) := by
  have hkept : s.Keeps (Function.update slots name (slots name)) := by
    rwa [Function.update_eq_self]
  unfold SqlStore.insertRow
  unfold Slot.insertRow at hcount ⊢
  rw [h.getTable hname]
  cases ht : (slots name).table? with
  | none => exact ⟨rfl, hkept⟩
  | some t =>
    obtain ⟨rfl, hfits⟩ := h.table ht
    cases values with
    | none => exact ⟨rfl, hkept⟩
    | some values =>
      simp only [ht] at hcount
      simp only [bind, Except.bind]
      cases hfill : fillRow t values with
      | error e => exact ⟨rfl, hkept⟩
      | ok row =>
        simp only [hfill, List.length_append, List.length_singleton] at hcount
        have hrow : row.Fits := Row.fits_of_fillRow hfits hvalues hfill
        obtain ⟨after, happend, hafter⟩ := h.append hname hrow hcount
        rw [ht] at hafter
        simp only [happend]
        exact ⟨trivial, hafter⟩

/-- Selecting columns answers as on the slot of its table. -/
theorem selectColumns (h : s.Keeps slots) {name : String} (hname : Text.Fits name)
    (items : List Expression) :
    (SqlStore.selectColumns s name items).answer = (slots name).selectColumns name items ∧
      (SqlStore.selectColumns s name items).store = s := by
  unfold SqlStore.selectColumns Slot.selectColumns
  rw [h.getTable hname]
  cases ht : (slots name).table? with
  | none => exact ⟨rfl, rfl⟩
  | some t =>
    obtain ⟨rfl, -⟩ := h.table ht
    refine ⟨?_, rfl⟩
    simp only [Outcome.unchanged, readColumns, h.rows hname]
    rfl

/-- A statement answers as on the slot of its table and changes no other. -/
theorem execute (h : s.Keeps slots) (policy : DuplicatePolicy) {statement : Statement}
    (hsized : statement.Sized)
    (hcount : ((slots statement.tableName).execute policy statement).2.rows.length < 2 ^ 64) :
    (SqlStore.execute policy s statement).answer
        = ((slots statement.tableName).execute policy statement).1 ∧
      (SqlStore.execute policy s statement).store.Keeps (Function.update slots statement.tableName
        ((slots statement.tableName).execute policy statement).2) := by
  cases statement with
  | createTable name columns =>
    obtain ⟨hname, hlen, hcolumns⟩ := hsized
    exact h.createTable policy hname hlen hcolumns
  | insert table values => exact h.insertRow hsized.1 hsized.2 hcount
  | select items table =>
    obtain ⟨hanswer, hstore⟩ := h.selectColumns hsized items
    refine ⟨hanswer, ?_⟩
    rw [SqlStore.execute, hstore]
    simpa only [Slot.execute, Function.update_eq_self] using h

end TableStore.Keeps

end SqlStore
