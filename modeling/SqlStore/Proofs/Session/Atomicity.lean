import SqlStore.Proofs.Table.Procedure
import SqlStore.Session

/-! # Statements that fail change nothing

* **`Procedure.execute`** — a statement as reads and writes of the byte store one after the other, the
  checks between them in their order. Whatever is read may be damaged;
* **`Procedure.run_execute`** — it has the answer and the bytes of `SqlStore.execute`;
* **`Procedure.atomic_execute`** — it reads and checks everything before it writes;
* **`Session.execute_atomic`** — so a statement that fails leaves the bytes as they were, whatever they
  are, and a statement that only asks does so always. -/

namespace SqlStore

namespace Procedure

/-! ## Statements one access at a time -/

/-- Checks the columns, looks for the name, and then creates the table. -/
def createTable (policy : DuplicatePolicy) (name : String) (definitions : List ColumnDefinition) :
    Procedure ResultSet := do
  let columns ← compute (definitions.mapM ColumnDefinition.toColumn)
  let taken? ← getTable? name
  if taken?.isSome ∧ policy = .refuse then throw (.tableExists name)
  create ⟨name, columns⟩
  return .created name

/-- Reads the table, fills the row, and then adds it. -/
def insertRow (table : String) (values : Option (List Expression)) : Procedure ResultSet := do
  let t ← getTable table
  match values with
  | none => return .inserted 0
  | some values =>
    let row ← compute (fillRow t values)
    append t.name row
    return .inserted 1

/-- Reads the table, settles the columns, and then reads the rows. -/
def selectColumns (table : String) (items : List Expression) : Procedure ResultSet := do
  let t ← getTable table
  let selected ← compute (projection t items)
  let found ← rows t.name
  let values ← compute (found.mapM (projectRow t selected))
  return .selected (selected.map (·.2)) values

/-- Carries out a statement. -/
def execute (policy : DuplicatePolicy) : Statement → Procedure ResultSet
  | .createTable name columns => createTable policy name.value (columns.getD [])
  | .insert table values => insertRow table.value values
  | .select items table => selectColumns table.value items

/-! ## Reading before writing -/

/-- A table that cannot be created leaves the bytes as they were. -/
theorem atomic_createTable (policy : DuplicatePolicy) (name : String)
    (definitions : List ColumnDefinition) : (createTable policy name definitions).Atomic := by
  refine (reads_compute _).bind_atomic fun columns => ?_
  refine (reads_getTable? name).bind_atomic fun taken? => ?_
  -- the name is refused before the old rows are erased
  have hcreate : (do create ⟨name, columns⟩; return .created name : Procedure ResultSet).Atomic :=
    ((succeeds_create _).bind fun _ => succeeds_pure _).atomic
  split
  · exact (reads_throw _).atomic
  · exact hcreate

/-- A row that cannot be inserted leaves the bytes as they were. -/
theorem atomic_insertRow (table : String) (values : Option (List Expression)) :
    (insertRow table values).Atomic := by
  refine (reads_getTable table).bind_atomic fun t => ?_
  cases values with
  | none => exact (reads_pure _).atomic
  | some values =>
    refine (reads_compute _).bind_atomic fun row => ?_
    exact (atomic_append t.name row).bind fun _ => succeeds_pure _

/-- Inserting nothing writes nothing. -/
theorem reads_insertRow_none (table : String) : (insertRow table none).Reads :=
  (reads_getTable table).bind fun _ => reads_pure _

/-- Selecting columns writes nothing. -/
theorem reads_selectColumns (table : String) (items : List Expression) :
    (selectColumns table items).Reads := by
  refine (reads_getTable table).bind fun t => ?_
  refine (reads_compute _).bind fun selected => ?_
  refine (reads_rows _).bind fun found => ?_
  exact (reads_compute _).bind fun values => reads_pure _

/-- A statement that fails leaves the bytes as they were. -/
theorem atomic_execute (policy : DuplicatePolicy) (statement : Statement) :
    (execute policy statement).Atomic := by
  cases statement with
  | createTable name columns => exact atomic_createTable policy _ _
  | insert table values => exact atomic_insertRow _ values
  | select items table => exact (reads_selectColumns _ items).atomic

end Procedure

/-- Whether a statement only asks: a selection, or an insertion without values. -/
def Statement.OnlyAsks : Statement → Prop
  | .createTable _ _ => False
  | .insert _ values => values = none
  | .select _ _ => True

/-- A statement that only asks writes nothing. -/
theorem Procedure.reads_execute (policy : DuplicatePolicy) {statement : Statement}
    (h : statement.OnlyAsks) : (execute policy statement).Reads := by
  cases statement with
  | createTable name columns => exact h.elim
  | insert table values =>
    obtain rfl : values = none := h
    exact reads_insertRow_none _
  | select items table => exact reads_selectColumns _ items

/-! ## The same as the outcome -/

/-- An outcome as the result of a procedure. -/
def Outcome.result {α : Type} (o : Outcome α) : EStateM.Result Error ByteStore α :=
  match o.answer with
  | .ok a => .ok a o.store.bytes
  | .error e => .error e o.store.bytes

namespace Procedure

/-- Creating a table one access at a time has the outcome of the statement. -/
theorem run_createTable (policy : DuplicatePolicy) (s : TableStore) (name : String)
    (definitions : List ColumnDefinition) :
    (createTable policy name definitions).run s.bytes
      = (SqlStore.createTable policy s name definitions).result := by
  rw [createTable, EStateM.run_bind, SqlStore.createTable]
  cases definitions.mapM ColumnDefinition.toColumn with
  | error e => rfl
  | ok columns =>
    simp only [run_compute]
    rw [EStateM.run_bind, run_getTable?]
    have hcreate : (do create ⟨name, columns⟩; return .created name : Procedure ResultSet).run s.bytes
        = .ok (.created name) (s.create ⟨name, columns⟩).bytes := by
      rw [EStateM.run_bind, run_create]
      rfl
    -- by what stands under the name, and by the policy if anything does
    cases s.getTable? name with
    | error e => cases policy <;> rfl
    | ok taken? =>
      cases taken? with
      | none => exact hcreate
      | some t =>
        cases policy with
        | replace => exact hcreate
        | refuse => rfl

/-- Inserting a row one access at a time has the outcome of the statement. -/
theorem run_insertRow (s : TableStore) (table : String) (values : Option (List Expression)) :
    (insertRow table values).run s.bytes = (SqlStore.insertRow s table values).result := by
  rw [insertRow, EStateM.run_bind, run_getTable]
  unfold SqlStore.insertRow
  cases s.getTable table with
  | error e => cases values <;> rfl
  | ok t =>
    cases values with
    | none => rfl
    | some values =>
      simp only [run_compute]
      rw [EStateM.run_bind]
      cases fillRow t values with
      | error e => rfl
      | ok row =>
        change (do append t.name row; return .inserted 1 : Procedure ResultSet).run s.bytes = _
        rw [EStateM.run_bind, run_append]
        simp only [bind, Except.bind]
        cases s.append t.name row <;> rfl

/-- Selecting columns one access at a time has the outcome of the statement. -/
theorem run_selectColumns (s : TableStore) (table : String) (items : List Expression) :
    (selectColumns table items).run s.bytes = (SqlStore.selectColumns s table items).result := by
  rw [selectColumns, EStateM.run_bind, run_getTable, SqlStore.selectColumns]
  cases s.getTable table with
  | error e => rfl
  | ok t =>
    simp only [run_compute]
    rw [EStateM.run_bind, readColumns]
    cases projection t items with
    | error e => rfl
    | ok selected =>
      simp only [run_compute]
      rw [EStateM.run_bind, run_rows]
      cases s.rows t.name with
      | error e => rfl
      | ok found =>
        simp only [run_compute]
        rw [EStateM.run_bind]
        simp only [bind, Except.bind]
        cases found.mapM (projectRow t selected) <;> rfl

/-- A statement carried out one access at a time has the outcome of the statement. -/
theorem run_execute (policy : DuplicatePolicy) (s : TableStore) (statement : Statement) :
    (execute policy statement).run s.bytes = (SqlStore.execute policy s statement).result := by
  cases statement with
  | createTable name columns => exact run_createTable policy s _ _
  | insert table values => exact run_insertRow s _ values
  | select items table => exact run_selectColumns s _ items

end Procedure

/-! ## Statements of a session -/

/-- Whatever the byte store holds, a statement has the outcome of its reads and writes one after the
other. If it fails, for whatever reason, the bytes are as they were; a selection and an insertion without
values leave them so always. -/
theorem Session.execute_atomic (s : Session) (statement : Statement) :
    (Procedure.execute s.policy statement).run s.store.bytes = (s.execute statement).result ∧
      (∀ e, (s.execute statement).answer = .error e → (s.execute statement).store = s.store) ∧
      (statement.OnlyAsks → (s.execute statement).store = s.store) := by
  have hrun := Procedure.run_execute s.policy s.store statement
  have hext : ∀ {after : TableStore}, after.bytes = s.store.bytes → after = s.store :=
    fun h => congrArg TableStore.mk h
  refine ⟨hrun, fun e herror => ?_, fun hasks => ?_⟩
  · -- the procedure fails too, and it is atomic
    have hresult : (s.execute statement).result = .error e (s.execute statement).store.bytes := by
      rw [Outcome.result, herror]
    exact hext (Procedure.atomic_execute s.policy statement _ _ _ (hrun.trans hresult))
  · rcases Procedure.reads_execute s.policy hasks s.store.bytes with ⟨a, hok⟩ | ⟨e, herror⟩
    · rw [hok] at hrun
      unfold Outcome.result at hrun
      split at hrun
      · exact hext (EStateM.Result.ok.inj hrun).2.symm
      · cases hrun
    · rw [herror] at hrun
      unfold Outcome.result at hrun
      split at hrun
      · cases hrun
      · exact hext (EStateM.Result.error.inj hrun).2.symm

/-- A number is not inserted into a table whose counter is damaged, and nothing changes. -/
theorem Session.execute_atomic_damagedCounter :
    let s : Session := ⟨.replace, ⟨(TableStore.empty.create ⟨"t", [⟨"a", .int⟩]⟩).bytes.set
      (Key.nextRow "t").toBytes [7]⟩⟩
    let insertion : Statement :=
      .insert ⟨.identifier, "t", {}⟩ (some [.literal ⟨.numeric, "1", {}⟩])
    (s.execute insertion).answer = .error (.damagedRecord .endOfInput) ∧
      (s.execute insertion).store = s.store := by
  intro s insertion
  have hanswer : (s.execute insertion).answer = .error (.damagedRecord .endOfInput) := by
    decide +kernel
  exact ⟨hanswer, (execute_atomic s insertion).2.1 _ hanswer⟩

end SqlStore
