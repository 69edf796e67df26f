import SqlStore.Proofs.Table.Contents
import SqlStore.Proofs.Text.Utf8
import Mathlib.Data.Finmap
import Mathlib.Data.Finset.Sort

/-! # Tables and rows without bytes

* **`Catalog`** — a map from names to table definitions and a map from names to lists of rows, with
  **`create`**, **`append`** and **`tables`**, the definitions in the order of their names;
* **`Catalog.record?`** — the bytes that a table store keeps under each key;
* **`TableStore.Represents s c`** — the store holds the records of the catalog and no others;
* **`Represents.create`**, **`Represents.append`** — writing to the store writes to the catalog;
* **`Represents.getTable?`**, **`Represents.rows`**, **`Represents.tables`** — what is read from the
  store is what the catalog holds, so nothing that is read is damaged. -/

namespace SqlStore

/-! ## The catalog -/

/-- The order of texts by their bytes. -/
def ByteOrder (a b : String) : Prop := Utf8.encode a ≤ Utf8.encode b

instance : DecidableRel ByteOrder := fun a b =>
  inferInstanceAs (Decidable (Utf8.encode a ≤ Utf8.encode b))

instance : IsTrans String ByteOrder := ⟨fun _ _ _ => List.le_trans⟩

instance : Std.Antisymm ByteOrder := ⟨fun a b hab hba => by
  have hbytes : Utf8.encode a = Utf8.encode b := List.le_antisymm hab hba
  exact Utf8.encode_injective hbytes⟩

instance : Std.Total ByteOrder := ⟨fun _ _ => List.le_total _ _⟩

/-- The tables that have been defined, and the rows added under each name. -/
structure Catalog where
  definitions : Finmap fun _ : String => Table
  rows : String → List Row

namespace Catalog

/-- The catalog without tables and rows. -/
def empty : Catalog := ⟨∅, fun _ => []⟩

/-- Sets the definition of a table and leaves it without rows. -/
def create (c : Catalog) (t : Table) : Catalog where
  definitions := c.definitions.insert t.name t
  rows := Function.update c.rows t.name []

/-- Adds a row after the rows under a name, whether or not a table is called so. -/
def append (c : Catalog) (name : String) (row : Row) : Catalog where
  definitions := c.definitions
  rows := Function.update c.rows name (c.rows name ++ [row])

/-- All definitions in ascending byte order of their names. -/
def tables (c : Catalog) : List Table :=
  (c.definitions.keys.sort ByteOrder).filterMap fun name => c.definitions.lookup name

/-! ### Reading after writing -/

/-- A created table is found. -/
theorem lookup_create_self (c : Catalog) (t : Table) :
    (c.create t).definitions.lookup t.name = some t :=
  Finmap.lookup_insert _

/-- Creating a table keeps the other definitions. -/
theorem lookup_create_of_ne (c : Catalog) (t : Table) {name : String} (h : name ≠ t.name) :
    (c.create t).definitions.lookup name = c.definitions.lookup name :=
  Finmap.lookup_insert_of_ne _ h

/-- A created table has no rows. -/
theorem rows_create_self (c : Catalog) (t : Table) : (c.create t).rows t.name = [] :=
  Function.update_self ..

/-- Creating a table keeps the rows under other names. -/
theorem rows_create_of_ne (c : Catalog) (t : Table) {name : String} (h : name ≠ t.name) :
    (c.create t).rows name = c.rows name :=
  Function.update_of_ne h ..

/-- An added row stands last. -/
theorem rows_append_self (c : Catalog) (name : String) (row : Row) :
    (c.append name row).rows name = c.rows name ++ [row] :=
  Function.update_self ..

/-- Adding a row keeps the rows under other names. -/
theorem rows_append_of_ne (c : Catalog) {name other : String} (row : Row) (h : other ≠ name) :
    (c.append name row).rows other = c.rows other :=
  Function.update_of_ne h ..

/-! ### Lengths -/

/-- Every definition stands under its own name, and all lengths and counts are written in full. -/
structure Fits (c : Catalog) : Prop where
  name_eq : ∀ {name t}, c.definitions.lookup name = some t → t.name = name
  table : ∀ {name t}, c.definitions.lookup name = some t → t.Fits
  name : ∀ {name}, c.rows name ≠ [] → Text.Fits name
  count : ∀ name, (c.rows name).length < 2 ^ 64
  row : ∀ {name row}, row ∈ c.rows name → Row.Fits row

/-- What is kept under a key. A counter is kept only for names with rows. -/
def record? (c : Catalog) : Key → Option Bytes
  | .table name => (c.definitions.lookup name).map Table.format.write
  | .row name number => ((c.rows name).map Row.format.write)[number]?
  | .nextRow name =>
    if c.rows name = [] then none else some (rowCounter.write (c.rows name).length)

/-- The empty catalog has no records. -/
theorem record?_empty : empty.record? = fun _ => none := by
  funext key
  cases key <;> simp [record?, empty]

/-- Creating a table takes the records of its rows and its counter away and sets its definition. -/
theorem record?_create (c : Catalog) (t : Table) :
    (c.create t).record? = Function.update (Function.update
      (fun key : Key => if key.IsRowOf t.name then none else c.record? key) (Key.nextRow t.name) none)
      (Key.table t.name) (some (Table.format.write t)) := by
  funext key
  cases key with
  | table name =>
    by_cases heq : name = t.name
    · subst heq
      simp [record?, lookup_create_self]
    · simp [record?, lookup_create_of_ne c t heq, heq, Key.IsRowOf]
  | row name number =>
    by_cases heq : name = t.name
    · subst heq
      simp [record?, rows_create_self, Key.IsRowOf]
    · simp [record?, rows_create_of_ne c t heq, heq, Key.IsRowOf]
  | nextRow name =>
    by_cases heq : name = t.name
    · subst heq
      simp [record?, rows_create_self]
    · simp [record?, rows_create_of_ne c t heq, heq, Key.IsRowOf]

/-- Adding a row sets the counter and the record of the row. -/
theorem record?_append (c : Catalog) (name : String) (row : Row) :
    (c.append name row).record? = Function.update (Function.update c.record? (Key.nextRow name)
      (some (rowCounter.write ((c.rows name).length + 1))))
      (Key.row name (c.rows name).length) (some (Row.format.write row)) := by
  funext key
  cases key with
  | table other => simp [record?, append]
  | row other number =>
    by_cases heq : other = name
    · subst heq
      by_cases hlast : number = (c.rows other).length
      · subst hlast
        simp [record?, rows_append_self]
      · -- below the new row nothing changes, and beyond it there is nothing
        rw [Function.update_of_ne (by simpa using hlast), Function.update_of_ne (by simp)]
        simp only [record?, rows_append_self, List.getElem?_map]
        rcases Nat.lt_or_gt_of_ne hlast with hlt | hgt
        · rw [List.getElem?_append_left hlt]
        · rw [List.getElem?_eq_none (by simp; omega), List.getElem?_eq_none (by omega)]
    · rw [Function.update_of_ne (by simp [heq]), Function.update_of_ne (by simp)]
      simp [record?, rows_append_of_ne c row heq]
  | nextRow other =>
    rw [Function.update_of_ne (by simp)]
    by_cases heq : other = name
    · subst heq
      simp [record?, rows_append_self]
    · rw [Function.update_of_ne (by simpa using heq)]
      simp [record?, rows_append_of_ne c row heq]

/-- Creating a table that fits keeps the lengths written in full. -/
theorem Fits.create {c : Catalog} (h : c.Fits) {t : Table} (ht : t.Fits) : (c.create t).Fits where
  name_eq {name found} hfound := by
    by_cases heq : name = t.name
    · subst heq
      rw [lookup_create_self] at hfound
      exact Option.some.inj hfound ▸ rfl
    · rw [lookup_create_of_ne c t heq] at hfound
      exact h.name_eq hfound
  table {name found} hfound := by
    by_cases heq : name = t.name
    · subst heq
      rw [lookup_create_self] at hfound
      exact Option.some.inj hfound ▸ ht
    · rw [lookup_create_of_ne c t heq] at hfound
      exact h.table hfound
  name {name} hne := by
    by_cases heq : name = t.name
    · exact heq ▸ ht.1
    · rw [rows_create_of_ne c t heq] at hne
      exact h.name hne
  count name := by
    by_cases heq : name = t.name
    · subst heq
      simp [rows_create_self]
    · rw [rows_create_of_ne c t heq]
      exact h.count name
  row {name row} hrow := by
    by_cases heq : name = t.name
    · subst heq
      simp [rows_create_self] at hrow
    · rw [rows_create_of_ne c t heq] at hrow
      exact h.row hrow

/-- Adding a row that fits under a name that fits keeps the lengths written in full, as long as
the rows can be counted. -/
theorem Fits.append {c : Catalog} (h : c.Fits) {name : String} (hname : Text.Fits name) {row : Row}
    (hrow : row.Fits) (hroom : (c.rows name).length + 1 < 2 ^ 64) : (c.append name row).Fits where
  name_eq hfound := h.name_eq hfound
  table hfound := h.table hfound
  name {other} hne := by
    by_cases heq : other = name
    · exact heq ▸ hname
    · rw [rows_append_of_ne c row heq] at hne
      exact h.name hne
  count other := by
    by_cases heq : other = name
    · subst heq
      rw [rows_append_self, List.length_append, List.length_singleton]
      exact hroom
    · rw [rows_append_of_ne c row heq]
      exact h.count other
  row {other found} hfound := by
    by_cases heq : other = name
    · subst heq
      rw [rows_append_self, List.mem_append, List.mem_singleton] at hfound
      rcases hfound with hfound | rfl
      · exact h.row hfound
      · exact hrow
    · rw [rows_append_of_ne c row heq] at hfound
      exact h.row hfound

/-! ### The list of tables -/

/-- The tables listed are those that are defined. -/
theorem Fits.mem_tables {c : Catalog} (h : c.Fits) (t : Table) :
    t ∈ c.tables ↔ c.definitions.lookup t.name = some t := by
  rw [tables, List.mem_filterMap]
  constructor
  · rintro ⟨name, -, ht⟩
    rwa [h.name_eq ht]
  · intro ht
    refine ⟨t.name, ?_, ht⟩
    rw [Finset.mem_sort, Finmap.mem_keys, Finmap.mem_iff]
    exact ⟨t, ht⟩

/-- The tables are listed in the order of their names, no name twice. -/
theorem Fits.pairwise_tables {c : Catalog} (h : c.Fits) :
    c.tables.Pairwise fun a b => ByteOrder a.name b.name ∧ a.name ≠ b.name := by
  have hsorted : (c.definitions.keys.sort ByteOrder).Pairwise fun a b => ByteOrder a b ∧ a ≠ b :=
    (Finset.pairwise_sort _ _).and (Finset.sort_nodup _ _)
  rw [tables, List.pairwise_filterMap]
  apply hsorted.imp
  intro name other hnames a ha b hb
  rwa [h.name_eq ha, h.name_eq hb]

/-- A list of all tables, none twice, is the list of tables once it is sorted by name. -/
theorem Fits.mergeSort_eq_tables {c : Catalog} (h : c.Fits) {found : List Table}
    (hnodup : found.Nodup) (hmem : ∀ t, t ∈ found ↔ c.definitions.lookup t.name = some t) :
    (found.mergeSort fun a b => decide (Utf8.encode a.name ≤ Utf8.encode b.name)) = c.tables := by
  have htables : c.tables.Nodup := by
    apply h.pairwise_tables.imp
    rintro a b ⟨-, hne⟩ rfl
    exact hne rfl
  -- sorting keeps the members, and both lists have the defined tables
  have hperm : (found.mergeSort fun a b => decide (Utf8.encode a.name ≤ Utf8.encode b.name)).Perm
      c.tables := by
    refine (List.mergeSort_perm _ _).trans ((List.perm_ext_iff_of_nodup hnodup htables).2 fun t => ?_)
    rw [hmem, h.mem_tables]
  have hsorted : (found.mergeSort fun a b => decide (Utf8.encode a.name ≤ Utf8.encode b.name)).Pairwise
      fun a b => ByteOrder a.name b.name := by
    apply (List.pairwise_mergeSort ?_ ?_ found).imp
    · intro a b hab
      exact of_decide_eq_true hab
    · intro a b d hab hbd
      exact decide_eq_true (List.le_trans (of_decide_eq_true hab) (of_decide_eq_true hbd))
    · intro a b
      simpa using List.le_total (Utf8.encode a.name) (Utf8.encode b.name)
  refine hperm.eq_of_pairwise (fun a b ha hb hab hba => ?_) hsorted (h.pairwise_tables.imp And.left)
  -- tables of one name are one definition
  have hname : a.name = b.name := Std.Antisymm.antisymm (r := ByteOrder) _ _ hab hba
  have hb' := (h.mem_tables b).1 hb
  have ha' := (h.mem_tables a).1 (hperm.subset ha)
  rw [hname, hb'] at ha'
  exact (Option.some.inj ha').symm

end Catalog

/-! ## Stores and catalogs -/

/-- The key and the record of a definition. -/
def Table.entry (t : Table) : Bytes × Bytes :=
  ((Key.table t.name).toBytes, Table.format.write t)

/-- A table store represents a catalog: it holds the catalog's records and nothing else. -/
structure TableStore.Represents (s : TableStore) (c : Catalog) : Prop where
  fits : c.Fits
  holds : s.bytes.Holds c.record?

namespace TableStore.Represents

variable {s : TableStore} {c : Catalog}

/-- The store without tables represents the empty catalog. -/
theorem empty : TableStore.empty.Represents .empty where
  fits := {
    name_eq := fun h => by simp [Catalog.empty] at h
    table := fun h => by simp [Catalog.empty] at h
    name := fun h => absurd rfl h
    count := fun _ => by simp [Catalog.empty]
    row := fun h => by simp [Catalog.empty] at h }
  holds := by
    rw [Catalog.record?_empty]
    exact ByteStore.Holds.empty

/-! ### Reading -/

/-- Records that were written are read back one by one. -/
theorem mapM_readRecord {α : Type} {f : Format α} {fits : α → Prop} (hf : f.ReadsBack fits)
    {xs : List α} (hxs : ∀ x ∈ xs, fits x) {entries : List (Bytes × Bytes)}
    (hentries : entries.map Prod.snd = xs.map f.write) :
    entries.mapM (fun (_, record) => readRecord f record) = .ok xs := by
  -- the values go along with the entries
  induction entries generalizing xs with
  | nil =>
    obtain rfl : xs = [] := List.map_eq_nil_iff.1 hentries.symm
    rfl
  | cons entry entries ih =>
    obtain ⟨bytes, record⟩ := entry
    cases xs with
    | nil => cases hentries
    | cons x xs =>
      obtain ⟨hrecord, hrest⟩ := List.cons.inj hentries
      have hfirst : readRecord f record = .ok x := by
        rw [show record = f.write x from hrecord, readRecord, hf.readFront (hxs x List.mem_cons_self)]
        rfl
      have hothers := ih (fun y hy => hxs y (List.mem_cons_of_mem x hy)) hrest
      simp only [List.mapM_cons, hfirst, hothers]
      rfl

/-- A table that is read is the one the catalog holds. -/
theorem getTable? (h : s.Represents c) {name : String} (hname : Text.Fits name) :
    s.getTable? name = .ok (c.definitions.lookup name) := by
  rw [TableStore.getTable?, h.holds.get?_toBytes (.table name) hname, Catalog.record?]
  cases hfound : c.definitions.lookup name with
  | none => rfl
  | some t =>
    have hread : readRecord Table.format (Table.format.write t) = .ok t := by
      rw [readRecord, Table.readsBack.readFront (h.fits.table hfound)]
      rfl
    simp only [Option.map_some, hread]
    rfl

/-- The rows that are read are those the catalog holds, in their order. -/
theorem rows (h : s.Represents c) {name : String} (hname : Text.Fits name) :
    s.rows name = .ok (c.rows name) := by
  have hlen : ((c.rows name).map Row.format.write).length < 2 ^ 64 := by
    rw [List.length_map]
    exact h.fits.count name
  -- the records under the numbers are the rows in their order
  rw [TableStore.rows, h.holds.scanRows hname hlen fun _ => rfl]
  apply mapM_readRecord Row.readsBack fun row hrow => h.fits.row hrow
  apply List.ext_getElem?
  intro number
  simp [Function.comp_def]

/-- The number of the next row is the number of rows. -/
theorem nextRow (h : s.Represents c) {name : String} (hname : Text.Fits name) :
    s.nextRow name = .ok (c.rows name).length := by
  rw [TableStore.nextRow, h.holds.get?_toBytes (.nextRow name) hname, Catalog.record?]
  by_cases hnil : c.rows name = []
  · simp [hnil]
  · have hread := rowCounter_readsBack.readFront (h.fits.count name)
    simp only [if_neg hnil, readRecord, hread]
    rfl

/-- Entries that are all records of some kind are read as what was written. -/
theorem exists_map_eq {α β : Type} {p : α → Prop} {g : α → β} {ys : List β}
    (h : ∀ y ∈ ys, ∃ x, p x ∧ g x = y) : ∃ xs : List α, (∀ x ∈ xs, p x) ∧ xs.map g = ys := by
  induction ys with
  | nil => exact ⟨[], by simp, rfl⟩
  | cons y ys ih =>
    obtain ⟨x, hx, rfl⟩ := h y List.mem_cons_self
    obtain ⟨xs, hxs, rfl⟩ := ih fun z hz => h z (List.mem_cons_of_mem _ hz)
    exact ⟨x :: xs, List.forall_mem_cons.2 ⟨hx, hxs⟩, rfl⟩

/-- The entries of definitions are the entries of the defined tables. -/
theorem mem_scanTables (h : s.Represents c) (e : Bytes × Bytes) :
    e ∈ s.bytes.scanPrefix Key.tables ↔
      ∃ t : Table, c.definitions.lookup t.name = some t ∧ t.entry = e := by
  obtain ⟨bytes, value⟩ := e
  rw [s.bytes.scanPrefix_eq_filter, List.mem_filter, List.isPrefixOf_iff_prefix,
    ← ByteStore.get?_eq_some_iff, h.holds.stored_iff]
  constructor
  · rintro ⟨⟨key, rfl, hrecord⟩, hbegins⟩
    obtain ⟨name, rfl⟩ := (Key.tables_prefix_iff key).1 hbegins
    obtain ⟨t, ht, rfl⟩ := Option.map_eq_some_iff.1 hrecord
    obtain rfl : t.name = name := h.fits.name_eq ht
    exact ⟨t, ht, rfl⟩
  · rintro ⟨t, ht, hentry⟩
    obtain ⟨rfl, rfl⟩ := Prod.mk.inj hentry
    have hrecord : c.record? (.table t.name) = some (Table.format.write t) := by
      rw [Catalog.record?, ht, Option.map_some]
    exact ⟨⟨.table t.name, rfl, hrecord⟩, (Key.tables_prefix_iff _).2 ⟨t.name, rfl⟩⟩

/-- The key of an entry tells the name, and the name tells the definition. -/
theorem entry_inj (h : s.Represents c) {t u : Table} (ht : c.definitions.lookup t.name = some t)
    (hu : c.definitions.lookup u.name = some u) (hentry : t.entry = u.entry) : t = u := by
  have hkey : (Key.table t.name).toBytes = (Key.table u.name).toBytes := (Prod.mk.inj hentry).1
  have hname : Key.table t.name = Key.table u.name :=
    Key.toBytes_injective (h.fits.table ht).1 (h.fits.table hu).1 hkey
  rw [Key.table.inj hname, hu] at ht
  exact (Option.some.inj ht).symm

/-- The tables that are listed are those the catalog holds, in the order of their names. -/
theorem tables (h : s.Represents c) : s.tables = .ok c.tables := by
  obtain ⟨found, hdefined, hentries⟩ := exists_map_eq fun e he => (h.mem_scanTables e).1 he
  have hread : (s.bytes.scanPrefix Key.tables).mapM (fun (_, record) => readRecord Table.format record)
      = .ok found := by
    apply mapM_readRecord Table.readsBack fun t ht => h.fits.table (hdefined t ht)
    rw [← hentries, List.map_map]
    rfl
  -- no key is scanned twice, so no table is found twice
  have hnodup : found.Nodup := by
    apply List.Nodup.of_map Table.entry
    rw [hentries, s.bytes.scanPrefix_eq_filter]
    exact s.bytes.ascending.nodup.filter _
  have hmem : ∀ t, t ∈ found ↔ c.definitions.lookup t.name = some t := by
    intro t
    refine ⟨hdefined t, fun ht => ?_⟩
    have hstored : t.entry ∈ found.map Table.entry := by
      rw [hentries]
      exact (h.mem_scanTables _).2 ⟨t, ht, rfl⟩
    obtain ⟨other, hother, hsame⟩ := List.mem_map.1 hstored
    exact h.entry_inj (hdefined other hother) ht hsame ▸ hother
  rw [TableStore.tables, hread]
  exact congrArg Except.ok (h.fits.mergeSort_eq_tables hnodup hmem)

/-! ### Writing -/

/-- Creating a table creates it in the catalog. -/
theorem create (h : s.Represents c) {t : Table} (ht : t.Fits) :
    (s.create t).Represents (c.create t) where
  fits := h.fits.create ht
  holds := by
    -- the rows go first, then the counter, and then the definition is set
    have hrows := h.holds.eraseRows ht.1
    have hcounter := hrows.erase (.nextRow t.name) ht.1
    have hset := hcounter.set (.table t.name) ht.1 (Table.format.write t)
    rw [Catalog.record?_create]
    exact hset

/-- Adding a row cannot fail, and it adds the row in the catalog. -/
theorem append (h : s.Represents c) {name : String} (hname : Text.Fits name) {row : Row}
    (hrow : row.Fits) (hroom : (c.rows name).length + 1 < 2 ^ 64) :
    ∃ after, s.append name row = .ok after ∧ after.Represents (c.append name row) := by
  have hnumber : (c.rows name).length < 2 ^ 64 := h.fits.count name
  -- the counter is set before the row is, under the number it had
  have hcounter := h.holds.set (.nextRow name) hname
    (rowCounter.write ((c.rows name).length + 1))
  have hset := hcounter.set (.row name (c.rows name).length) ⟨hname, hnumber⟩
    (Row.format.write row)
  have hfits : (c.append name row).Fits := h.fits.append hname hrow hroom
  refine ⟨_, by rw [TableStore.append, h.nextRow hname]; rfl, hfits, ?_⟩
  rw [Catalog.record?_append]
  exact hset

end TableStore.Represents

end SqlStore
