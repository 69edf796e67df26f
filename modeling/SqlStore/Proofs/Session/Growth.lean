import SqlStore.Proofs.Session.Independence

/-! # Tables that only grow

What statements leave of a table where the definition of a taken name is refused:

* **`Slot.GrowsTo`** — a table keeps its columns, and rows are added behind its rows.
  `Slot.growsTo_execute` is about one statement and `Slots.growsTo_afterAll` about a run;
* **`Row.Typed`** — rows whose filled cells are values of their columns, and `Slots.typed_afterAll`: there
  are no others;
* **`Slot.selectColumns_grown`** — a selection that is repeated once the table has grown;
* **`Session.afterAll_refuse_grows`** — the same of a session, between any two points of a run. -/

namespace SqlStore

/-! ## What a statement does to a slot -/

namespace Slot

/-- A statement leaves a slot as it is, sets it to a table without rows, or adds a row that it fills. A
table that is there is replaced only if the policy is to do so. -/
theorem execute_cases (policy : DuplicatePolicy) (slot : Slot) (statement : Statement) :
    (slot.execute policy statement).2 = slot ∨
      (∃ t, (policy = .refuse → slot.table? = none) ∧
        (slot.execute policy statement).2 = ⟨some t, []⟩) ∨
      ∃ t values row, slot.table? = some t ∧ fillRow t values = .ok row ∧
        (slot.execute policy statement).2 = ⟨some t, slot.rows ++ [row]⟩ := by
  cases statement with
  | createTable name columns =>
    simp only [execute, createTable]
    split
    · exact .inl rfl
    · next columns _ =>
      split
      · exact .inl rfl
      · next htaken =>
        exact .inr (.inl ⟨_, fun hpolicy => by simpa [hpolicy] using htaken, rfl⟩)
  | insert table values =>
    simp only [execute, insertRow]
    split
    · exact .inl rfl
    · exact .inl rfl
    · next t values ht =>
      split
      · exact .inl rfl
      · next row hrow => exact .inr (.inr ⟨t, values, row, ht, hrow, rfl⟩)
  | select items table => exact .inl rfl

/-! ## Growth -/

/-- Whether a slot has grown to another: the table that is there stays, and its rows are the first of the
rows. -/
def GrowsTo (earlier later : Slot) : Prop :=
  ∀ t, earlier.table? = some t → later.table? = some t ∧ earlier.rows <+: later.rows

/-- A slot has grown to itself. -/
theorem GrowsTo.refl (slot : Slot) : slot.GrowsTo slot := fun _ ht => ⟨ht, List.prefix_rfl⟩

/-- Growth goes on. -/
theorem GrowsTo.trans {earlier slot later : Slot} (h : earlier.GrowsTo slot)
    (h' : slot.GrowsTo later) : earlier.GrowsTo later := by
  intro t ht
  obtain ⟨hkept, hrows⟩ := h t ht
  obtain ⟨hkept', hrows'⟩ := h' t hkept
  exact ⟨hkept', hrows.trans hrows'⟩

/-- Where taken names are refused, a slot grows with every statement. -/
theorem growsTo_execute (slot : Slot) (statement : Statement) :
    slot.GrowsTo (slot.execute .refuse statement).2 := by
  obtain hsame | ⟨t, hnone, hset⟩ | ⟨t, values, row, ht, -, hset⟩ :=
    slot.execute_cases .refuse statement
  · rw [hsame]
    exact .refl slot
  · intro t ht
    simp [hnone rfl] at ht
  · intro t' ht'
    rw [hset]
    exact ⟨ht.symm.trans ht', List.prefix_append _ _⟩

end Slot

namespace Slots

/-- A statement leaves a slot as it is or works on it. -/
theorem execute_apply_cases (policy : DuplicatePolicy) (slots : Slots) (statement : Statement)
    (name : String) : (slots.execute policy statement).2 name = slots name ∨
      (slots.execute policy statement).2 name = ((slots name).execute policy statement).2 := by
  by_cases hname : name = statement.tableName
  · subst hname
    exact .inr (Function.update_self ..)
  · exact .inl (execute_of_ne hname)

/-- Where taken names are refused, every slot grows with every statement. -/
theorem growsTo_execute (slots : Slots) (statement : Statement) (name : String) :
    (slots name).GrowsTo ((slots.execute .refuse statement).2 name) := by
  obtain hsame | hset := execute_apply_cases .refuse slots statement name
  · rw [hsame]
    exact .refl _
  · rw [hset]
    exact Slot.growsTo_execute _ statement

/-- Where taken names are refused, every slot grows in a run of statements. -/
theorem growsTo_afterAll (slots : Slots) (statements : List Statement) (name : String) :
    (slots name).GrowsTo (slots.afterAll .refuse statements name) := by
  induction statements generalizing slots with
  | nil => exact .refl _
  | cons statement rest ih => exact (slots.growsTo_execute statement name).trans (ih _)

/-- Where taken names are refused, every slot grows from one point of a run to a later one. -/
theorem growsTo_take (slots : Slots) (statements : List Statement) {i j : Nat} (hij : i ≤ j)
    (name : String) : (slots.afterAll .refuse (statements.take i) name).GrowsTo
      (slots.afterAll .refuse (statements.take j) name) := by
  have hsplit : statements.take j = statements.take i ++ (statements.take j).drop i := by
    conv_lhs => rw [← List.take_append_drop i (statements.take j), List.take_take, Nat.min_eq_left hij]
  rw [hsplit, afterAll_append]
  exact growsTo_afterAll _ _ name

end Slots

/-! ## Cells of their columns -/

/-- Whether the filled cells of a row are values of their columns. -/
def Row.Typed (columns : List Column) (row : Row) : Prop :=
  ∀ (position : Nat) (column : Column) (bytes : Bytes), columns[position]? = some column →
    row[position]? = some (some bytes) → ∃ v, Value.ofBytes column.type bytes = .ok v

/-- A row that is filled has values of its columns. -/
theorem Row.typed_of_fillRow {t : Table} {values : List Expression} {row : Row}
    (h : fillRow t values = .ok row) : row.Typed t.columns := by
  unfold fillRow at h
  split at h
  · intro position column bytes hcolumn hcell
    obtain ⟨hcolumns, rfl⟩ := List.getElem?_eq_some_iff.1 hcolumn
    obtain ⟨hlength, hbytes⟩ := List.getElem?_eq_some_iff.1 hcell
    have hall := forall₂_of_mapM_eq_ok h
    have hfill := hall.get (hall.length_eq ▸ hlength) hlength
    simp only [List.get_eq_getElem, List.getElem_zip, hbytes] at hfill
    obtain ⟨-, v, -, -, htype, rfl⟩ := exists_of_slotFor hfill
    exact ⟨v, htype ▸ Value.ofBytes_toBytes v⟩
  · cases h

/-- Whether the filled cells of all rows in a slot are values of their columns. -/
def Slot.Typed (slot : Slot) : Prop :=
  ∀ t, slot.table? = some t → ∀ row ∈ slot.rows, row.Typed t.columns

/-- There are no cells in an empty slot. -/
theorem Slot.typed_empty : Slot.empty.Typed := by
  intro t ht
  cases ht

/-- A statement keeps the cells of a slot values of their columns. -/
theorem Slot.Typed.execute {slot : Slot} (h : slot.Typed) (policy : DuplicatePolicy)
    (statement : Statement) : (slot.execute policy statement).2.Typed := by
  obtain hsame | ⟨t, -, hset⟩ | ⟨t, values, row, ht, hrow, hset⟩ :=
    slot.execute_cases policy statement
  · rwa [hsame]
  · rw [hset]
    exact fun _ _ => List.forall_mem_nil _
  · rw [hset]
    rintro _ ⟨⟩
    rw [List.forall_mem_append, List.forall_mem_singleton]
    exact ⟨h t ht, Row.typed_of_fillRow hrow⟩

namespace Slots

variable {slots : Slots}

/-- A statement keeps the cells of all slots values of their columns. -/
theorem typed_execute (h : ∀ name, (slots name).Typed) (policy : DuplicatePolicy)
    (statement : Statement) (name : String) : ((slots.execute policy statement).2 name).Typed := by
  obtain hsame | hset := execute_apply_cases policy slots statement name
  · rw [hsame]
    exact h name
  · rw [hset]
    exact (h name).execute policy statement

/-- In a run of statements the cells of all slots stay values of their columns. -/
theorem typed_afterAll (h : ∀ name, (slots name).Typed) (policy : DuplicatePolicy)
    (statements : List Statement) (name : String) :
    (slots.afterAll policy statements name).Typed := by
  induction statements generalizing slots with
  | nil => exact h name
  | cons statement rest ih => exact ih (typed_execute h policy statement)

end Slots

/-! ## Selections -/

/-- A selected column is one of the table. -/
theorem getElem?_of_projected {t : Table} {item : Expression} {c : Nat × Column}
    (h : projected t item = .ok (some c)) : t.columns[c.1]? = some c.2 := by
  unfold projected at h
  split at h
  · simp at h
  · split at h
    · split at h
      · next hcolumn =>
        cases h
        exact (Table.getElem?_of_findColumn? hcolumn).1
      · simp at h
    · simp at h

/-- All selected columns are columns of the table. -/
theorem getElem?_of_mem_projection {t : Table} {items : List Expression}
    {selected : List (Nat × Column)} (h : projection t items = .ok selected) :
    ∀ c ∈ selected, t.columns[c.1]? = some c.2 := by
  unfold projection at h
  cases hfound : items.mapM (projected t) with
  | error e => simp [hfound, Except.map] at h
  | ok found =>
    obtain rfl : found.filterMap id = selected := by simpa [hfound, Except.map] using h
    intro c hc
    obtain ⟨item, -, hitem⟩ := (of_mapM_eq_ok hfound).2 (some c) (by simpa using hc)
    exact getElem?_of_projected hitem

/-- A row with values of its columns can be read unless a cell is missing. -/
theorem Row.Typed.eq_missingCell {t : Table} {row : Row} (h : row.Typed t.columns)
    {selected : List (Nat × Column)} (hselected : ∀ c ∈ selected, t.columns[c.1]? = some c.2)
    {e : Error} (hfault : projectRow t selected row = .error e) :
    ∃ column, e = .missingCell t.name column := by
  obtain ⟨⟨position, column⟩, hmem, hcell⟩ := exists_of_mapM_eq_error hfault
  simp only [cellValue] at hcell
  split at hcell
  · next bytes hbytes =>
    obtain ⟨v, hv⟩ := h position column bytes (hselected _ hmem) hbytes
    simp [hv, Except.mapError] at hcell
  · cases hcell
    exact ⟨column.name, rfl⟩

/-- Once its table has grown, a selection that succeeded fails for a missing cell, or it has the same
columns and its rows are the first of the rows. -/
theorem Slot.selectColumns_grown {earlier later : Slot} (hgrows : earlier.GrowsTo later)
    (htyped : later.Typed) {name : String} {items : List Expression} {result : ResultSet}
    (h : earlier.selectColumns name items = .ok result) :
    ∃ t, earlier.table? = some t ∧
      ((∃ column, later.selectColumns name items = .error (.missingCell t.name column)) ∨
        ∃ columns rows more, result = .selected columns rows ∧
          later.selectColumns name items = .ok (.selected columns (rows ++ more))) := by
  unfold Slot.selectColumns at h ⊢
  cases ht : earlier.table? with
  | none => simp [ht] at h
  | some t =>
    obtain ⟨hlater, added, hrows⟩ := hgrows t ht
    simp only [ht, hlater, ← hrows, List.mapM_append] at h ⊢
    refine ⟨t, rfl, ?_⟩
    cases hselected : projection t items with
    | error e => simp [hselected, bind, Except.bind] at h
    | ok selected =>
      cases hread : earlier.rows.mapM (projectRow t selected) with
      | error e => simp [hselected, hread, bind, Except.bind] at h
      | ok rows =>
        simp only [hselected, hread, bind, Except.bind, pure, Except.pure, Except.ok.injEq] at h ⊢
        -- only the rows added since can make a difference
        cases hmore : added.mapM (projectRow t selected) with
        | ok more => exact .inr ⟨_, rows, more, h.symm, rfl⟩
        | error e =>
          obtain ⟨row, hrow, hfault⟩ := exists_of_mapM_eq_error hmore
          have hcells := htyped t hlater row (hrows ▸ List.mem_append_right _ hrow)
          obtain ⟨column, rfl⟩ := hcells.eq_missingCell (getElem?_of_mem_projection hselected) hfault
          exact .inl ⟨column, rfl⟩

/-! ## Stores -/

namespace TableStore.Keeps

variable {s s' : TableStore} {slots slots' : Slots} {name : String}

/-- A table that is found in a store has a name that is written in full. -/
theorem fits_of_getTable? (h : s.Keeps slots) {t : Table} (ht : s.getTable? name = .ok (some t)) :
    Text.Fits name := by
  obtain ⟨c, hs, rfl⟩ := h
  cases hrecord : s.bytes.get? (Key.table name).toBytes with
  | none => simp [TableStore.getTable?, hrecord] at ht
  | some record =>
    -- what is stored is under the key of a name that is written in full, which is as long
    obtain ⟨key, hkey, hvalue⟩ := hs.holds.stored_iff.1 hrecord
    have hfits := (hs.holds.fits hvalue).name
    obtain ⟨other, rfl⟩ := (Key.tables_prefix_iff key).1 (hkey ▸ List.prefix_append _ _)
    have hlength := congrArg List.length (List.append_cancel_left hkey)
    simp only [Format.text, Format.block, Format.count, Format.natural, List.length_append,
      length_littleEndian, Nat.add_left_cancel_iff] at hlength
    rw [Text.Fits, ← hlength]
    exact hfits

/-- A table whose columns are selected is found. -/
theorem exists_of_selectColumns {items : List Expression} {result : ResultSet}
    (h : (SqlStore.selectColumns s name items).answer = .ok result) :
    ∃ t, s.getTable? name = .ok (some t) := by
  unfold SqlStore.selectColumns TableStore.getTable at h
  cases ht : s.getTable? name with
  | error e => simp [ht, bind, Except.bind, Outcome.unchanged] at h
  | ok found =>
    cases found with
    | none => simp [ht, bind, Except.bind, Outcome.unchanged] at h
    | some t => exact ⟨t, rfl⟩

/-- If the slots of a store have grown, a table that is found in it is found later, and its rows are the
first of the rows. -/
theorem rows_grown (h : s.Keeps slots) (h' : s'.Keeps slots')
    (hgrows : ∀ name, (slots name).GrowsTo (slots' name)) {t : Table}
    (ht : s.getTable? name = .ok (some t)) :
    s'.getTable? name = .ok (some t) ∧
      ∃ rows more, s.rows name = .ok rows ∧ s'.rows name = .ok (rows ++ more) := by
  have hname := h.fits_of_getTable? ht
  rw [h.getTable? hname] at ht
  obtain ⟨hkept, more, hrows⟩ := hgrows name t (Except.ok.inj ht)
  refine ⟨(h'.getTable? hname).trans (congrArg _ hkept), _, more, h.rows hname, ?_⟩
  rw [hrows]
  exact h'.rows hname

/-- If the slots of a store have grown, a selection that succeeded fails for a missing cell, or it has the
same columns and its rows are the first of the rows. -/
theorem selectColumns_grown (h : s.Keeps slots) (h' : s'.Keeps slots')
    (hgrows : ∀ name, (slots name).GrowsTo (slots' name)) (htyped : ∀ name, (slots' name).Typed)
    {items : List Expression} {result : ResultSet}
    (hresult : (SqlStore.selectColumns s name items).answer = .ok result) :
    (∃ column, (SqlStore.selectColumns s' name items).answer = .error (.missingCell name column)) ∨
      ∃ columns rows more, result = .selected columns rows ∧
        (SqlStore.selectColumns s' name items).answer = .ok (.selected columns (rows ++ more)) := by
  obtain ⟨found, hfound⟩ := exists_of_selectColumns hresult
  have hname := h.fits_of_getTable? hfound
  have hslot := (h.selectColumns hname items).1.symm.trans hresult
  obtain ⟨t, ht, hanswer⟩ := Slot.selectColumns_grown (hgrows name) (htyped name) hslot
  rwa [(h.table ht).1, ← (h'.selectColumns hname items).1] at hanswer

end TableStore.Keeps

/-! ## In a session -/

namespace Session

/-- Between two points of a run in which taken names are refused, whichever statements fail, every table
keeps its columns in their order, and rows are only added behind its rows. So a selection that succeeds at
the first point fails at the second one for a missing cell, or it has the same columns and its rows are the
first of the rows. -/
theorem afterAll_refuse_grows (statements : List Statement)
    (hroom : Slots.empty.RoomFor .refuse statements) {i j : Nat} (hij : i ≤ j) :
    let earlier := ({ policy := .refuse } : Session).afterAll (statements.take i)
    let later := ({ policy := .refuse } : Session).afterAll (statements.take j)
    (∀ name t, earlier.store.getTable? name = .ok (some t) →
      later.store.getTable? name = .ok (some t) ∧ ∃ rows more,
        earlier.store.rows name = .ok rows ∧ later.store.rows name = .ok (rows ++ more)) ∧
      ∀ items (table : Token) result, (earlier.execute (.select items table)).answer = .ok result →
        (∃ column, (later.execute (.select items table)).answer
          = .error (.missingCell table.value column)) ∨
        ∃ columns rows more, result = .selected columns rows ∧
          (later.execute (.select items table)).answer = .ok (.selected columns (rows ++ more)) := by
  intro earlier later
  have hpoint : ∀ n, (({ policy := .refuse } : Session).afterAll (statements.take n)).store.Keeps
      (Slots.empty.afterAll .refuse (statements.take n)) :=
    fun n => (keeps_afterAll (s := { policy := .refuse }) .empty (hroom.take n)).2
  have hgrows := Slots.empty.growsTo_take statements hij
  have htyped : ∀ name, (Slots.empty.afterAll .refuse (statements.take j) name).Typed :=
    Slots.typed_afterAll (fun _ => Slot.typed_empty) .refuse _
  constructor
  · intro name t ht
    exact (hpoint i).rows_grown (hpoint j) hgrows ht
  · intro items table result hresult
    exact (hpoint i).selectColumns_grown (hpoint j) hgrows htyped hresult

/-- A row is added to a table whose name could not be taken again, and a selection has it behind the row it
had. Behind a row without a value it fails. -/
theorem afterAll_refuse_grows_emptySlot :
    let t : Token := ⟨.identifier, "t", {}⟩
    let a : Token := ⟨.identifier, "a", {}⟩
    let number (value : String) : Expression := .literal ⟨.numeric, value, {}⟩
    let statements : List Statement := [.createTable t (some [⟨a, ⟨.keyword, "int", {}⟩⟩]),
      .insert t (some [number "7"]), .createTable t none, .insert t (some [number "8"]),
      .insert t (some [.binary (number "1") ⟨.symbol, "=", {}⟩ (number "1")])]
    let point (n : Nat) := ({ policy := .refuse } : Session).afterAll (statements.take n)
    let answer (n : Nat) := ((point n).execute (.select [.literal a] t)).answer
    let column : Column := ⟨"a", .int⟩
    Slots.empty.RoomFor .refuse statements ∧
      (point 2).store.getTable? "t" = .ok (some ⟨"t", [column]⟩) ∧
      (point 4).store.getTable? "t" = .ok (some ⟨"t", [column]⟩) ∧
      (∃ rows more, (point 2).store.rows "t" = .ok rows ∧
        (point 4).store.rows "t" = .ok (rows ++ more)) ∧
      answer 2 = .ok (.selected [column] [[.int 7]]) ∧
      (∃ more, answer 4 = .ok (.selected [column] ([.int 7] :: more))) ∧
      ∃ column, answer 5 = .error (.missingCell "t" column) := by
  intro t a number statements point answer column
  have hroom : Slots.empty.RoomFor .refuse statements := by decide
  have htable : (point 2).store.getTable? "t" = .ok (some ⟨"t", [column]⟩) := by decide +kernel
  have hfirst : answer 2 = .ok (.selected [column] [[.int 7]]) := by decide +kernel
  obtain ⟨htables, hgrown⟩ := afterAll_refuse_grows statements hroom (i := 2) (j := 4) (by decide)
  obtain ⟨hkept, hrows⟩ := htables _ _ htable
  refine ⟨hroom, htable, hkept, hrows, hfirst, ?_, ?_⟩
  · obtain ⟨missing, hmissing⟩ | ⟨columns, rows, more, hresult, hmore⟩ := hgrown _ t _ hfirst
    · have hok : (answer 4).toBool = true := by decide +kernel
      rw [show answer 4 = _ from hmissing] at hok
      cases hok
    · cases hresult
      exact ⟨more, hmore⟩
  · obtain ⟨-, hgrown⟩ := afterAll_refuse_grows statements hroom (i := 2) (j := 5) (by decide)
    obtain hmissing | ⟨columns, rows, more, -, hmore⟩ := hgrown _ t _ hfirst
    · exact hmissing
    · have herror : (answer 5).toBool = false := by decide +kernel
      rw [show answer 5 = _ from hmore] at herror
      cases herror

end Session

end SqlStore
