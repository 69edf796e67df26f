import SqlStore.Proofs.Session.Database
import Mathlib.Data.List.Forall2

/-! # Checks with a first fault

A statement checks the members of a list one after the other, and the first fault is its answer:

* **`DecidedBy f fault? value? x`** — whether `f` answers for `x` is decided by an optional fault, and
  `DecidedBy.mapM` lifts this to lists;
* **`ColumnDefinition.toColumn_decidedBy`**, **`fillRow_decidedBy`**,
  **`Relation.projection_decidedBy`** — the checks of the three kinds of statements;
* **`Relation.stored`** and **`Relation.RowOf`** — a row of values as bytes, and rows of the columns'
  types. `Relation.projectRows_decidedBy` says that such rows are read back as their values. -/

namespace SqlStore

/-! ## Checks with a first fault -/

section DecidedBy

variable {α β ε : Type} {f : α → Except ε β} {fault? : α → Option ε} {value? : α → Option β}

/-- A check answers with the fault if there is one, and with the value otherwise. -/
structure DecidedBy (f : α → Except ε β) (fault? : α → Option ε) (value? : α → Option β)
    (x : α) : Prop where
  of_fault : ∀ {e}, fault? x = some e → f x = .error e
  of_none : fault? x = none → ∃ y, value? x = some y ∧ f x = .ok y

/-- A check that finds a fault and answers with it. -/
theorem DecidedBy.fails {x : α} {e : ε} (hfault : fault? x = some e) (hanswer : f x = .error e) :
    DecidedBy f fault? value? x where
  of_fault hfault' := by
    rw [hanswer, ← hfault.symm.trans hfault' |> Option.some.inj]
  of_none hnone := by
    rw [hfault] at hnone
    cases hnone

/-- A check that finds no fault and answers with the value. -/
theorem DecidedBy.succeeds {x : α} {y : β} (hnone : fault? x = none) (hvalue : value? x = some y)
    (hanswer : f x = .ok y) : DecidedBy f fault? value? x where
  of_fault hfault := by
    rw [hnone] at hfault
    cases hfault
  of_none _ := ⟨y, hvalue, hanswer⟩

/-- Without a fault, a check answers with the value. -/
theorem DecidedBy.eq_ok {x : α} {y : β} (h : DecidedBy f fault? value? x) (hnone : fault? x = none)
    (hvalue : value? x = some y) : f x = .ok y := by
  obtain ⟨z, hz, hanswer⟩ := h.of_none hnone
  rwa [Option.some.inj (hvalue.symm.trans hz)]

/-- A check of all members of a list answers with the first fault, or with all the values. -/
theorem DecidedBy.mapM {xs : List α} (h : ∀ x ∈ xs, DecidedBy f fault? value? x) :
    DecidedBy (fun xs : List α => xs.mapM f) (fun xs => xs.findSome? fault?)
      (fun xs => some (xs.filterMap value?)) xs := by
  induction xs with
  | nil => exact .succeeds rfl rfl rfl
  | cons x xs ih =>
    have hfirst := h x List.mem_cons_self
    have hrest := ih fun y hy => h y (List.mem_cons_of_mem x hy)
    cases hx : fault? x with
    | some e =>
      -- the fault of the first member wins over those of the others
      have hanswer := hfirst.of_fault hx
      apply DecidedBy.fails
      · rw [List.findSome?_cons, hx]
      · simp only [List.mapM_cons, hanswer]
        rfl
    | none =>
      -- without one, the fault of the others decides
      obtain ⟨y, hy, hanswer⟩ := hfirst.of_none hx
      cases hxs : xs.findSome? fault? with
      | some e =>
        have hothers := hrest.of_fault hxs
        apply DecidedBy.fails
        · rw [List.findSome?_cons, hx, hxs]
        · simp only [List.mapM_cons, hanswer, hothers]
          rfl
      | none =>
        obtain ⟨ys, hys, hothers⟩ := hrest.of_none hxs
        apply DecidedBy.succeeds
        · rw [List.findSome?_cons, hx, hxs]
        · rw [List.filterMap_cons_some hy, Option.some.inj hys]
        · simp only [List.mapM_cons, hanswer, hothers]
          rfl

end DecidedBy

/-! ## The checks of a statement -/

/-- Column types are checked by name. -/
theorem ColumnDefinition.toColumn_decidedBy (d : ColumnDefinition) :
    DecidedBy toColumn fault? (fun d => some d.column) d := by
  -- case on the name of the type
  by_cases hint : d.type.value = "int"
  · apply DecidedBy.succeeds (y := d.column)
    · simp [fault?, hint]
    · rfl
    · have htype : ColumnType.ofName? d.type.value = some .int := ColumnType.ofName?_eq_some_iff.2 hint
      rw [toColumn, htype]
      simp [column, hint]
  · by_cases htext : d.type.value = "text"
    · apply DecidedBy.succeeds (y := d.column)
      · simp [fault?, htext]
      · rfl
      · have htype : ColumnType.ofName? d.type.value = some .text :=
          ColumnType.ofName?_eq_some_iff.2 htext
        rw [toColumn, htype]
        simp [column, htext]
    · apply DecidedBy.fails (e := .invalidType d.type.value)
      · simp [fault?, hint, htext]
      · simp [toColumn, ColumnType.ofName?, hint, htext]

/-- The value of a literal that can be stored is the one that is stored. -/
theorem Value.ofLiteral_eq {t : Token} (h : Database.LiteralFits t) :
    Value.ofLiteral t = .ok t.value? := by
  rw [Value.ofLiteral, Token.value?]
  cases hkind : t.kind with
  | numeric =>
    have hread := h.1 hkind
    cases hnumeral : Numeral.read t.value with
    | error fault => simp [hnumeral, Except.toBool] at hread
    | ok n => rfl
  | string => rfl
  | keyword => rfl
  | symbol => rfl
  | identifier => rfl

/-- A column's slot is checked by the type of the value. -/
theorem slotFor_decidedBy (c : Column) {value : Expression} (h : Database.ExpressionFits value) :
    DecidedBy (fun (c, value) => slotFor c value) (fun (c, value) => value.slotFault? c)
      (fun (_, value) => some (value.slot.map Value.toBytes)) (c, value) := by
  cases value with
  | binary left operator right => exact .succeeds rfl rfl rfl
  | literal t =>
    have hread : Value.ofLiteral t = .ok t.value? := Value.ofLiteral_eq h
    cases hvalue : t.value? with
    | none =>
      apply DecidedBy.fails (e := .typeMismatch c.name c.type (.token t.kind))
      · simp only [Expression.slotFault?, hvalue]
      · simp only [slotFor, hread, hvalue]
    | some v =>
      by_cases htype : v.type = c.type
      · apply DecidedBy.succeeds (y := some v.toBytes)
        · simp only [Expression.slotFault?, hvalue, if_pos htype]
        · simp only [Expression.slot, hvalue, Option.map_some]
        · simp only [slotFor, hread, hvalue, if_pos htype]
      · apply DecidedBy.fails (e := .typeMismatch c.name c.type (.value v.type))
        · simp only [Expression.slotFault?, hvalue, if_neg htype]
        · simp only [slotFor, hread, hvalue, if_neg htype]

/-- Columns are found by name with their positions, counted from `start`. -/
theorem Column.findFrom_eq (name : String) (start : Nat) (columns : List Column) :
    findFrom name start columns
      = (columns.mapIdx fun i c => (start + i, c)).find? fun c => c.2.name = name := by
  -- every column moves the start on by one
  induction columns generalizing start with
  | nil => rfl
  | cons c rest ih =>
    rw [findFrom, List.mapIdx_cons]
    by_cases hname : c.name = name
    · simp [hname]
    · rw [if_neg hname, ih, List.find?_cons_of_neg (by simpa using hname)]
      simp only [Nat.add_assoc, Nat.add_comm 1]

/-- The columns of a relation are those of its table. -/
theorem Relation.findColumn?_eq (r : Relation) (table name : String) :
    Table.findColumn? ⟨table, r.columns⟩ name = r.find? name := by
  rw [Table.findColumn?, Column.findFrom_eq, Relation.find?]
  simp only [Nat.zero_add]

/-- A column that is found stands at its position. -/
theorem Relation.getElem?_of_find? {r : Relation} {name : String} {c : Nat × Column}
    (h : r.find? name = some c) : r.columns[c.1]? = some c.2 := by
  rw [← r.findColumn?_eq ""] at h
  exact (Table.getElem?_of_findColumn? h).1

/-- Selected expressions are checked by their names. -/
theorem Relation.projected_decidedBy (r : Relation) (table : String) (item : Expression) :
    DecidedBy (projected ⟨table, r.columns⟩) r.itemFault? (fun item => some (r.item? item)) item := by
  cases item with
  | binary left operator right => exact .succeeds rfl rfl rfl
  | literal t =>
    by_cases hkind : t.kind = .identifier
    · cases hfound : r.find? t.value with
      | none =>
        apply DecidedBy.fails (e := .columnNotFound t.value)
        · simp [Relation.itemFault?, hfound]
        · simp only [projected, if_pos hkind, r.findColumn?_eq, hfound]
      | some c =>
        apply DecidedBy.succeeds (y := some c)
        · simp [Relation.itemFault?, hkind, hfound]
        · simp only [Relation.item?, hfound]
        · simp only [projected, if_pos hkind, r.findColumn?_eq, hfound]
    · apply DecidedBy.fails (e := .columnNotFound t.value)
      · simp [Relation.itemFault?, hkind]
      · simp only [projected, if_neg hkind]

/-- The columns selected are those of the expressions, up to the first that is refused. -/
theorem Relation.projection_decidedBy (r : Relation) (table : String) (items : List Expression) :
    DecidedBy (projection ⟨table, r.columns⟩) (fun items => items.findSome? r.itemFault?)
      (fun items => some (items.filterMap r.item?)) items := by
  have hitems := DecidedBy.mapM fun item (_ : item ∈ items) => r.projected_decidedBy table item
  have hselected : (items.filterMap fun item => some (r.item? item)).filterMap id
      = items.filterMap r.item? := by
    rw [List.filterMap_filterMap]
    rfl
  cases hfault : items.findSome? r.itemFault? with
  | some e =>
    refine .fails hfault ?_
    rw [projection, hitems.of_fault hfault]
    rfl
  | none =>
    refine .succeeds hfault rfl ?_
    rw [projection, hitems.eq_ok hfault rfl, Except.map, hselected]

/-- Every selected column stands at its position. -/
theorem Relation.getElem?_of_mem_items {r : Relation} {items : List Expression} {c : Nat × Column}
    (hc : c ∈ items.filterMap r.item?) : r.columns[c.1]? = some c.2 := by
  obtain ⟨item, -, hitem⟩ := List.mem_filterMap.1 hc
  cases item with
  | binary left operator right => cases hitem
  | literal t => exact getElem?_of_find? hitem

/-! ## Stored rows -/

namespace Relation

/-- A row of values as it is stored. -/
def stored (row : List (Option Value)) : Row := row.map (Option.map Value.toBytes)

/-- Whether a row has one slot for each column, and its values are of the columns' types. -/
def RowOf (columns : List Column) (row : List (Option Value)) : Prop :=
  List.Forall₂ (fun c slot => ∀ v ∈ slot, v.type = c.type) columns row

/-- A stored slot is read back as its value, and an empty one is a missing cell. -/
theorem cellValue_decidedBy (t : Table) {row : List (Option Value)} (hrow : RowOf t.columns row)
    {c : Nat × Column} (hc : t.columns[c.1]? = some c.2) :
    DecidedBy (fun (position, column) => cellValue t (stored row) position column)
      (cellFault? t.name row) (cell? row) c := by
  obtain ⟨position, column⟩ := c
  obtain ⟨hposition, hcolumn⟩ := List.getElem?_eq_some_iff.1 hc
  have hlength : position < row.length := hrow.length_eq ▸ hposition
  have hslot : ∀ v ∈ row[position], v.type = column.type := by
    have hall := hrow.get hposition hlength
    rwa [List.get_eq_getElem, List.get_eq_getElem, hcolumn] at hall
  have hget : row[position]? = some row[position] := List.getElem?_eq_getElem hlength
  have hstored : (stored row)[position]? = some (row[position].map Value.toBytes) := by
    rw [stored, List.getElem?_map, hget, Option.map_some]
  -- an empty slot is the only fault, since the bytes are those of a value of this type
  cases hvalue : row[position] with
  | none =>
    rw [hvalue] at hget hstored
    apply DecidedBy.fails (e := .missingCell t.name column.name)
    · simp [cellFault?, cell?, hget]
    · simp only [cellValue, hstored, Option.map_none]
  | some v =>
    have htype : v.type = column.type := hslot v (by rw [hvalue]; rfl)
    rw [hvalue] at hget hstored
    apply DecidedBy.succeeds (y := v)
    · simp [cellFault?, cell?, hget]
    · simp [cell?, hget]
    · simp only [cellValue, hstored, Option.map_some, ← htype, Value.ofBytes_toBytes]
      rfl

/-- Stored rows are read back as the values in the selected columns, up to the first empty slot. -/
theorem projectRows_decidedBy (t : Table) {selected : List (Nat × Column)}
    (hselected : ∀ c ∈ selected, t.columns[c.1]? = some c.2) {rows : List (List (Option Value))}
    (hrows : ∀ row ∈ rows, RowOf t.columns row) :
    DecidedBy (fun rows => (rows.map stored).mapM (projectRow t selected))
      (fun rows => rows.findSome? fun row => selected.findSome? (cellFault? t.name row))
      (fun rows => some (rows.map fun row => selected.filterMap (cell? row))) rows := by
  have hcells : ∀ row ∈ rows, DecidedBy (fun row => projectRow t selected (stored row))
      (fun row => selected.findSome? (cellFault? t.name row))
      (fun row => some (selected.filterMap (cell? row))) row := by
    intro row hrow
    have hmapM := DecidedBy.mapM fun c hc => cellValue_decidedBy t (hrows row hrow) (hselected c hc)
    exact ⟨hmapM.of_fault, hmapM.of_none⟩
  have hmapM := DecidedBy.mapM hcells
  simp only [List.filterMap_eq_map'] at hmapM
  refine ⟨fun hfault => ?_, fun hnone => ?_⟩
  · rw [List.mapM_map]
    exact hmapM.of_fault hfault
  · rw [List.mapM_map]
    exact hmapM.of_none hnone

/-- The slots that values fill make a row of the columns if no column refuses its value. -/
theorem rowOf_slots {columns : List Column} {values : List Expression}
    (hlen : values.length = columns.length)
    (hnone : ((columns.zip values).findSome? fun (c, value) => value.slotFault? c) = none) :
    RowOf columns (values.map Expression.slot) := by
  -- columns and values are gone through together
  induction columns generalizing values with
  | nil =>
    obtain rfl : values = [] := List.eq_nil_of_length_eq_zero hlen
    exact .nil
  | cons c columns ih =>
    cases values with
    | nil => cases hlen
    | cons value values =>
      rw [List.zip_cons_cons, List.findSome?_cons] at hnone
      cases hfault : value.slotFault? c with
      | some e => simp [hfault] at hnone
      | none =>
        simp only [hfault] at hnone
        refine .cons ?_ (ih (Nat.succ.inj hlen) hnone)
        intro v hv
        cases value with
        | binary left operator right => cases hv
        | literal t =>
          -- a literal without a fault has a value of the column's type
          rw [Option.mem_def, Expression.slot] at hv
          by_contra htype
          simp [Expression.slotFault?, hv, htype] at hfault

/-- The bytes of values that can be stored make a row that fits. -/
theorem stored_fits {values : List Expression} (hlen : values.length < 2 ^ 64)
    (hvalues : ∀ value ∈ values, Database.ExpressionFits value) :
    Row.Fits (stored (values.map Expression.slot)) := by
  constructor
  · rw [stored, List.length_map, List.length_map]
    exact hlen
  · intro slot hslot bytes hbytes
    rw [stored, List.map_map, List.mem_map] at hslot
    obtain ⟨value, hvalue, rfl⟩ := hslot
    obtain ⟨v, hv, rfl⟩ := Option.map_eq_some_iff.1 hbytes
    cases value with
    | binary left operator right => cases hv
    | literal t =>
      have hfits := hvalues _ hvalue
      cases v with
      | int n =>
        show (bigEndian Value.intWidth _).length < 2 ^ 64
        rw [length_bigEndian]
        decide
      | text s =>
        -- only a string is a text, and it is the value of its token
        rw [Expression.slot, Token.value?] at hv
        cases hkind : t.kind with
        | string =>
          rw [hkind] at hv
          obtain rfl := Value.text.inj (Option.some.inj hv)
          exact hfits.2 hkind
        | numeric => simp [hkind] at hv
        | keyword => simp [hkind] at hv
        | symbol => simp [hkind] at hv
        | identifier => simp [hkind] at hv

end Relation

/-- As many values as there are columns fill a row, up to the first that its column refuses. -/
theorem fillRow_decidedBy (t : Table) {values : List Expression}
    (hvalues : ∀ value ∈ values, Database.ExpressionFits value)
    (hlen : values.length = t.columns.length) :
    DecidedBy (fillRow t)
      (fun values => (t.columns.zip values).findSome? fun (c, value) => value.slotFault? c)
      (fun values => some (Relation.stored (values.map Expression.slot))) values := by
  have hslots := DecidedBy.mapM fun pair (hpair : pair ∈ t.columns.zip values) =>
    slotFor_decidedBy pair.1 (hvalues pair.2 (List.of_mem_zip hpair).2)
  -- the slots are those of the values, since no value is left over
  have hstored : ((t.columns.zip values).filterMap fun (_, value) =>
      some (value.slot.map Value.toBytes)) = Relation.stored (values.map Expression.slot) := by
    have hsnd : (t.columns.zip values).map Prod.snd = values :=
      List.map_snd_zip (Nat.le_of_eq hlen)
    calc (t.columns.zip values).filterMap (fun (_, value) => some (value.slot.map Value.toBytes))
        = (t.columns.zip values).map (fun (_, value) => value.slot.map Value.toBytes) :=
          congrFun List.filterMap_eq_map' _
      _ = Relation.stored (((t.columns.zip values).map Prod.snd).map Expression.slot) := by
          rw [Relation.stored, List.map_map, List.map_map]
          rfl
      _ = Relation.stored (values.map Expression.slot) := by rw [hsnd]
  cases hfault : (t.columns.zip values).findSome? fun (c, value) => value.slotFault? c with
  | some e =>
    refine .fails hfault ?_
    rw [fillRow, if_pos hlen]
    exact hslots.of_fault hfault
  | none =>
    refine .succeeds hfault rfl ?_
    rw [fillRow, if_pos hlen, ← hstored]
    exact hslots.eq_ok hfault rfl

end SqlStore
