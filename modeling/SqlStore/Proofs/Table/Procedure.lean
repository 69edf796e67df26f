import SqlStore.Proofs.ByteStore.Contents
import SqlStore.Table.Store

/-! # Tables one access at a time

The operations of a table store are made of single reads and writes of its bytes, and an operation that
fails keeps what it has written until then:

* **`Procedure`** — reads and writes of a byte store one after the other, up to a fault;
* **`Procedure.Reads`**, **`Procedure.Succeeds`**, **`Procedure.Atomic`** — procedures that never write,
  that never fail, and that leave the bytes as they were wherever they fail. `Reads.bind_atomic` and
  `Atomic.bind` say that an atomic procedure reads before it writes;
* **`Procedure.create`**, **`Procedure.append`** and the others — the operations of a table store;
* **`Procedure.run_create`**, **`Procedure.run_append`** — they do what the table store does. -/

namespace SqlStore

/-- Reads and writes of a byte store one after the other. A fault ends them, and what has been written
until then stays. -/
abbrev Procedure := EStateM Error ByteStore

namespace Procedure

variable {α β : Type} {p : Procedure α} {q : α → Procedure β}

/-! ## Single accesses -/

/-- Reads the value of a key. -/
def get? (key : Bytes) : Procedure (Option Bytes) := do return (← get).get? key

/-- Reads the entries whose keys begin with `start`. -/
def scanPrefix (start : Bytes) : Procedure (List (Bytes × Bytes)) := do
  return (← get).scanPrefix start

/-- Writes the value of a key. -/
def set (key value : Bytes) : Procedure Unit := modify fun b => b.set key value

/-- Erases a key. -/
def erase (key : Bytes) : Procedure Unit := modify fun b => b.erase key

/-- The result of a computation without accesses. -/
def compute : Except Error α → Procedure α
  | .ok a => pure a
  | .error e => throw e

/-! ## Reading before writing -/

/-- Whether a procedure never changes the bytes. -/
def Reads (p : Procedure α) : Prop :=
  ∀ b, (∃ a, p.run b = .ok a b) ∨ ∃ e, p.run b = .error e b

/-- Whether a procedure never fails. -/
def Succeeds (p : Procedure α) : Prop := ∀ b, ∃ a after, p.run b = .ok a after

/-- Whether a procedure leaves the bytes as they were wherever it fails. -/
def Atomic (p : Procedure α) : Prop := ∀ b e after, p.run b = .error e after → after = b

/-- A procedure that never writes is atomic. -/
theorem Reads.atomic (h : p.Reads) : p.Atomic := by
  intro b e after hrun
  rcases h b with ⟨a, hok⟩ | ⟨e', herror⟩
  · rw [hok] at hrun
    cases hrun
  · rw [herror] at hrun
    cases hrun
    rfl

/-- A procedure that never fails is atomic. -/
theorem Succeeds.atomic (h : p.Succeeds) : p.Atomic := by
  intro b e after hrun
  obtain ⟨a, after', hok⟩ := h b
  rw [hok] at hrun
  cases hrun

/-- Reads stay reads when others follow. -/
theorem Reads.bind (hp : p.Reads) (hq : ∀ a, (q a).Reads) : (p >>= q).Reads := by
  intro b
  rw [EStateM.run_bind]
  rcases hp b with ⟨a, hok⟩ | ⟨e, herror⟩
  · rw [hok]
    exact hq a b
  · rw [herror]
    exact .inr ⟨e, rfl⟩

/-- What never fails goes on never failing. -/
theorem Succeeds.bind (hp : p.Succeeds) (hq : ∀ a, (q a).Succeeds) : (p >>= q).Succeeds := by
  intro b
  rw [EStateM.run_bind]
  obtain ⟨a, after, hok⟩ := hp b
  rw [hok]
  exact hq a after

/-- Reads may come before an atomic procedure. -/
theorem Reads.bind_atomic (hp : p.Reads) (hq : ∀ a, (q a).Atomic) : (p >>= q).Atomic := by
  intro b e after hrun
  rw [EStateM.run_bind] at hrun
  rcases hp b with ⟨a, hok⟩ | ⟨e', herror⟩
  · rw [hok] at hrun
    exact hq a b e after hrun
  · rw [herror] at hrun
    cases hrun
    rfl

/-- Behind an atomic procedure nothing may fail. -/
theorem Atomic.bind (hp : p.Atomic) (hq : ∀ a, (q a).Succeeds) : (p >>= q).Atomic := by
  intro b e after hrun
  rw [EStateM.run_bind] at hrun
  cases hfirst : p.run b with
  | ok a b' =>
    obtain ⟨c, after', hok⟩ := hq a b'
    rw [hfirst] at hrun
    simp only [hok] at hrun
    cases hrun
  | error e' b' =>
    rw [hfirst] at hrun
    cases hrun
    exact hp b e after hfirst

/-- Nothing is read or written for a given answer. -/
theorem reads_pure (a : α) : (pure a : Procedure α).Reads := fun _ => .inl ⟨a, rfl⟩

/-- A given answer is no failure. -/
theorem succeeds_pure (a : α) : (pure a : Procedure α).Succeeds := fun b => ⟨a, b, rfl⟩

/-- Nothing is written by a fault. -/
theorem reads_throw (e : Error) : (throw e : Procedure α).Reads := fun _ => .inr ⟨e, rfl⟩

/-- Nothing is written by a computation. -/
theorem reads_compute (x : Except Error α) : (compute x).Reads := by
  cases x with
  | ok a => exact reads_pure a
  | error e => exact reads_throw e

/-- A value is read without writing. -/
theorem reads_get? (key : Bytes) : (get? key).Reads := fun b => .inl ⟨b.get? key, rfl⟩

/-- Entries are read without writing. -/
theorem reads_scanPrefix (start : Bytes) : (scanPrefix start).Reads :=
  fun b => .inl ⟨b.scanPrefix start, rfl⟩

/-- Writing a value never fails. -/
theorem succeeds_set (key value : Bytes) : (set key value).Succeeds :=
  fun b => ⟨(), b.set key value, rfl⟩

/-- Erasing a key never fails. -/
theorem succeeds_erase (key : Bytes) : (erase key).Succeeds := fun b => ⟨(), b.erase key, rfl⟩

/-- What never fails for any member of a list never fails for all of them in turn. -/
theorem succeeds_forM {f : α → Procedure Unit} (h : ∀ x, (f x).Succeeds) (xs : List α) :
    (xs.forM f).Succeeds := by
  induction xs with
  | nil => exact succeeds_pure ()
  | cons x xs ih => exact (h x).bind fun _ => ih

/-! ## The operations of a table store -/

/-- Reads the table called `name`, if there is one. -/
def getTable? (name : String) : Procedure (Option Table) := do
  match ← get? (Key.table name).toBytes with
  | none => return none
  | some record => return some (← compute (TableStore.readRecord Table.format record))

/-- Reads the table called `name`. -/
def getTable (name : String) : Procedure Table := do
  match ← getTable? name with
  | some t => return t
  | none => throw (.tableNotFound name)

/-- Reads the rows of a table. -/
def rows (name : String) : Procedure (List Row) := do
  let found ← scanPrefix (Key.rows name)
  compute (found.mapM fun (_, record) => TableStore.readRecord Row.format record)

/-- Reads the number of the next row of a table. -/
def nextRow (name : String) : Procedure Nat := do
  match ← get? (Key.nextRow name).toBytes with
  | none => return 0
  | some record => compute (TableStore.readRecord rowCounter record)

/-- Erases the rows of a table one after the other, and then its counter. -/
def dropRows (name : String) : Procedure Unit := do
  let found ← scanPrefix (Key.rows name)
  found.forM fun (key, _) => erase key
  erase (Key.nextRow name).toBytes

/-- Erases the rows of a table, and then writes its definition. -/
def create (t : Table) : Procedure Unit := do
  dropRows t.name
  set (Key.table t.name).toBytes (Table.format.write t)

/-- Reads the counter of a table, writes the next number into it, and then writes the row. Behind the greatest
number of 64 bits comes zero, except in a build that checks for overflow: that one stops where the next number
is found, in front of both writes. -/
def append (name : String) (row : Row) : Procedure Unit := do
  let number ← nextRow name
  set (Key.nextRow name).toBytes (rowCounter.write (number + 1))
  set (Key.row name number).toBytes (Row.format.write row)

/-- Looking for a table writes nothing. -/
theorem reads_getTable? (name : String) : (getTable? name).Reads := by
  refine (reads_get? _).bind fun record? => ?_
  cases record? with
  | none => exact reads_pure none
  | some record => exact (reads_compute _).bind fun t => reads_pure (some t)

/-- Reading a table writes nothing. -/
theorem reads_getTable (name : String) : (getTable name).Reads := by
  refine (reads_getTable? name).bind fun t? => ?_
  cases t? with
  | some t => exact reads_pure t
  | none => exact reads_throw _

/-- Reading rows writes nothing. -/
theorem reads_rows (name : String) : (rows name).Reads :=
  (reads_scanPrefix _).bind fun _ => reads_compute _

/-- Reading a counter writes nothing. -/
theorem reads_nextRow (name : String) : (nextRow name).Reads := by
  refine (reads_get? _).bind fun record? => ?_
  cases record? with
  | none => exact reads_pure 0
  | some record => exact reads_compute _

/-- Erasing the rows of a table never fails. -/
theorem succeeds_dropRows (name : String) : (dropRows name).Succeeds := by
  intro b
  -- the scan gives whatever rows there are, and every one of them can be erased
  have herase : ((b.scanPrefix (Key.rows name)).forM (fun (key, _) => erase key)
      >>= fun _ => erase (Key.nextRow name).toBytes).Succeeds :=
    (succeeds_forM (fun e : Bytes × Bytes => succeeds_erase e.1) _).bind fun _ => succeeds_erase _
  exact herase b

/-- Creating a table never fails. -/
theorem succeeds_create (t : Table) : (create t).Succeeds :=
  (succeeds_dropRows t.name).bind fun _ => succeeds_set _ _

/-- A row that cannot be added leaves the bytes as they were: the counter is read before anything is
written. -/
theorem atomic_append (name : String) (row : Row) : (append name row).Atomic := by
  refine (reads_nextRow name).bind_atomic fun number => Succeeds.atomic ?_
  exact (succeeds_set _ _).bind fun _ => succeeds_set _ _

/-! ## The same as the table store -/

/-- The result of a computation, the bytes unchanged. -/
theorem run_compute (x : Except Error α) (b : ByteStore) :
    (compute x).run b = match x with
      | .ok a => .ok a b
      | .error e => .error e b := by
  cases x <;> rfl

/-- Looking for a table answers as the table store does. -/
theorem run_getTable? (s : TableStore) (name : String) :
    (getTable? name).run s.bytes = (compute (s.getTable? name)).run s.bytes := by
  have hget : (get? (Key.table name).toBytes).run s.bytes
      = .ok (s.bytes.get? (Key.table name).toBytes) s.bytes := rfl
  rw [getTable?, EStateM.run_bind, hget, TableStore.getTable?]
  cases s.bytes.get? (Key.table name).toBytes with
  | none => rfl
  | some record =>
    simp only
    cases TableStore.readRecord Table.format record <;> rfl

/-- Reading a table answers as the table store does. -/
theorem run_getTable (s : TableStore) (name : String) :
    (getTable name).run s.bytes = (compute (s.getTable name)).run s.bytes := by
  rw [getTable, EStateM.run_bind, run_getTable?, TableStore.getTable]
  cases s.getTable? name with
  | error e => rfl
  | ok t? => cases t? <;> rfl

/-- Reading rows answers as the table store does. -/
theorem run_rows (s : TableStore) (name : String) :
    (rows name).run s.bytes = (compute (s.rows name)).run s.bytes := rfl

/-- Reading a counter answers as the table store does. -/
theorem run_nextRow (s : TableStore) (name : String) :
    (nextRow name).run s.bytes = (compute (s.nextRow name)).run s.bytes := by
  have hget : (get? (Key.nextRow name).toBytes).run s.bytes
      = .ok (s.bytes.get? (Key.nextRow name).toBytes) s.bytes := rfl
  rw [nextRow, EStateM.run_bind, hget, TableStore.nextRow]
  cases s.bytes.get? (Key.nextRow name).toBytes <;> rfl

/-- Erasing keys one after the other leaves the entries of the other keys. -/
theorem run_eraseAll (found : List (Bytes × Bytes)) (b : ByteStore) :
    ∃ after : ByteStore, (found.forM fun (key, _) => erase key).run b = .ok () after ∧
      after.entries = (b.entries.filter fun e => !(found.map Prod.fst).contains e.1) ∧
      after.everStored = b.everStored := by
  induction found generalizing b with
  | nil => exact ⟨b, rfl, by simp, rfl⟩
  | cons first found ih =>
    obtain ⟨key, value⟩ := first
    obtain ⟨after, hrun, hentries, hever⟩ := ih (b.erase key)
    refine ⟨after, hrun, ?_, hever⟩
    rw [hentries]
    show (b.entries.filter fun e => decide (e.1 ≠ key)).filter _ = _
    rw [List.filter_filter]
    refine List.filter_congr fun e _ => ?_
    by_cases he : e.1 = key <;> simp [he]

/-- Erasing the rows that are found erases all rows of a table. -/
theorem run_dropRows (s : TableStore) (name : String) :
    (dropRows name).run s.bytes = .ok () (s.dropRows name).bytes := by
  obtain ⟨after, hrun, hentries, hever⟩ := run_eraseAll (s.bytes.scanPrefix (Key.rows name)) s.bytes
  have hafter : after = s.bytes.erasePrefix (Key.rows name) := by
    refine ByteStore.ext_of_entries ?_ hever
    rw [hentries, s.bytes.entries_erasePrefix]
    -- an entry is found exactly if its key has the prefix
    refine List.filter_congr fun e he => congrArg _ ?_
    rw [Bool.eq_iff_iff, List.contains_iff_mem, s.bytes.scanPrefix_eq_filter, List.mem_map]
    constructor
    · rintro ⟨other, hother, heq⟩
      rw [← heq]
      exact (List.mem_filter.1 hother).2
    · intro hpre
      exact ⟨e, List.mem_filter.2 ⟨he, hpre⟩, rfl⟩
  show ((s.bytes.scanPrefix (Key.rows name)).forM (fun (key, _) => erase key)
      >>= fun _ => erase (Key.nextRow name).toBytes).run s.bytes = _
  rw [EStateM.run_bind, hrun, hafter]
  rfl

/-- Creating a table does what the table store does. -/
theorem run_create (s : TableStore) (t : Table) :
    (create t).run s.bytes = .ok () (s.create t).bytes := by
  rw [create, EStateM.run_bind, run_dropRows]
  rfl

/-- Adding a row does what the table store does, and where it fails the bytes are as they were. -/
theorem run_append (s : TableStore) (name : String) (row : Row) :
    (append name row).run s.bytes = match s.append name row with
      | .ok after => .ok () after.bytes
      | .error e => .error e s.bytes := by
  rw [append, EStateM.run_bind, run_nextRow, TableStore.append]
  cases s.nextRow name <;> rfl

end Procedure

end SqlStore
