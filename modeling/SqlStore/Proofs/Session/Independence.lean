import SqlStore.Proofs.Session.Slots
import SqlStore.Proofs.Table.Layout
import SqlStore.Session

/-! # Statements about different tables commute

* **`Slots.execute`** — a statement that answers from the slot of its table and changes that slot;
* **`Slots.RoomFor`** — statements one after the other, all of them written in full, with rows that can be
  counted after each;
* **`Slots.execute_swap`** — on slots, statements about different tables do not see each other;
* **`Session.afterAll`** — a session after statements, whether they fail or not. Its store keeps the slots
  after them, and it is the store after a history of calls, so that its entries determine it;
* **`Session.execute_comm`** — in a session too, the order of such statements changes neither their answers
  nor the store. -/

namespace SqlStore

/-! ## On slots -/

namespace Slots

/-- The slots of a session without tables. -/
def empty : Slots := fun _ => .empty

/-- The answer to a statement and the slots after it. -/
def execute (policy : DuplicatePolicy) (slots : Slots) (statement : Statement) :
    Except Error ResultSet × Slots :=
  let result := (slots statement.tableName).execute policy statement
  (result.1, Function.update slots statement.tableName result.2)

/-- Whether a statement is written in full and the rows of its table can be counted after it. -/
def HasRoom (policy : DuplicatePolicy) (slots : Slots) (statement : Statement) : Prop :=
  statement.Sized ∧
    ((slots statement.tableName).execute policy statement).2.rows.length < 2 ^ 64
  deriving Decidable

/-- Whether there is room for every statement when its turn comes. -/
def RoomFor (policy : DuplicatePolicy) (slots : Slots) : List Statement → Prop
  | [] => True
  | statement :: rest =>
    slots.HasRoom policy statement ∧ RoomFor policy (slots.execute policy statement).2 rest

/-- It can be decided whether there is room for statements. -/
def decidableRoomFor (policy : DuplicatePolicy) :
    (statements : List Statement) → (slots : Slots) → Decidable (slots.RoomFor policy statements)
  | [], _ => .isTrue trivial
  | statement :: rest, slots =>
    have := decidableRoomFor policy rest (slots.execute policy statement).2
    inferInstanceAs (Decidable
      (slots.HasRoom policy statement ∧ RoomFor policy (slots.execute policy statement).2 rest))

instance (policy : DuplicatePolicy) (slots : Slots) : DecidablePred (slots.RoomFor policy) :=
  fun statements => decidableRoomFor policy statements slots

/-- The slots after statements. -/
def afterAll (policy : DuplicatePolicy) (slots : Slots) (statements : List Statement) : Slots :=
  statements.foldl (fun slots statement => (slots.execute policy statement).2) slots

/-- Statements one after the other are carried out from where the first ones leave the slots. -/
theorem afterAll_append (policy : DuplicatePolicy) (slots : Slots) (xs ys : List Statement) :
    slots.afterAll policy (xs ++ ys) = (slots.afterAll policy xs).afterAll policy ys :=
  List.foldl_append

/-- There is room for statements and others behind them if there is for them and then for the others. -/
theorem roomFor_append {policy : DuplicatePolicy} {slots : Slots} {xs ys : List Statement} :
    slots.RoomFor policy (xs ++ ys) ↔
      slots.RoomFor policy xs ∧ (slots.afterAll policy xs).RoomFor policy ys := by
  induction xs generalizing slots with
  | nil =>
    rw [List.nil_append, RoomFor, true_and]
    rfl
  | cons statement rest ih =>
    rw [List.cons_append, RoomFor, RoomFor, ih, and_assoc]
    rfl

/-- There is room for the first of some statements if there is for all of them. -/
theorem RoomFor.take {policy : DuplicatePolicy} {slots : Slots} {statements : List Statement}
    (h : slots.RoomFor policy statements) (n : Nat) : slots.RoomFor policy (statements.take n) := by
  rw [← List.take_append_drop n statements] at h
  exact (roomFor_append.1 h).1

/-- There is room for statements and one more if there is for them and then for it. -/
theorem roomFor_concat {policy : DuplicatePolicy} {slots : Slots} {statements : List Statement}
    {x : Statement} : slots.RoomFor policy (statements ++ [x]) ↔
      slots.RoomFor policy statements ∧ (slots.afterAll policy statements).HasRoom policy x := by
  rw [roomFor_append, RoomFor, RoomFor, and_true]

variable {policy : DuplicatePolicy} {slots : Slots} {x y : Statement}

/-- A statement leaves the slots of other tables as they are. -/
theorem execute_of_ne {name : String} (h : name ≠ x.tableName) :
    (slots.execute policy x).2 name = slots name :=
  Function.update_of_ne h ..

/-- A statement does not see what was done to another table. -/
theorem execute_answer (h : y.tableName ≠ x.tableName) :
    ((slots.execute policy x).2.execute policy y).1 = (slots.execute policy y).1 := by
  rw [execute, execute_of_ne h]
  rfl

/-- There is room for a statement after one about another table if there was before. -/
theorem HasRoom.of_ne (hy : slots.HasRoom policy y) (h : y.tableName ≠ x.tableName) :
    (slots.execute policy x).2.HasRoom policy y := by
  rw [HasRoom, execute_of_ne h]
  exact hy

/-- Statements about different tables leave the same slots in either order. -/
theorem execute_swap (h : x.tableName ≠ y.tableName) :
    ((slots.execute policy x).2.execute policy y).2
      = ((slots.execute policy y).2.execute policy x).2 := by
  have hx : (slots.execute policy x).2 y.tableName = slots y.tableName := execute_of_ne h.symm
  have hy : (slots.execute policy y).2 x.tableName = slots x.tableName := execute_of_ne h
  simp only [execute] at hx hy ⊢
  rw [hx, hy, Function.update_comm h]

end Slots

/-! ## Stores and calls -/

namespace TableStore

/-- A statement answers as on the slots that a store keeps, and afterwards the store keeps the slots after
it. -/
theorem Keeps.execute_slots {s : TableStore} {slots : Slots} (h : s.Keeps slots)
    {policy : DuplicatePolicy} {statement : Statement} (hroom : slots.HasRoom policy statement) :
    (SqlStore.execute policy s statement).answer = (slots.execute policy statement).1 ∧
      (SqlStore.execute policy s statement).store.Keeps (slots.execute policy statement).2 :=
  h.execute policy hroom.1 hroom.2

/-- Statements about different tables answer alike in either order and leave stores of the same slots. -/
theorem Keeps.execute_swap {s : TableStore} {slots : Slots} (h : s.Keeps slots)
    (policy : DuplicatePolicy) {x y : Statement} (hne : x.tableName ≠ y.tableName)
    (hx : slots.HasRoom policy x) (hy : slots.HasRoom policy y) :
    let afterX := (SqlStore.execute policy s x).store
    let afterY := (SqlStore.execute policy s y).store
    (SqlStore.execute policy afterY x).answer = (SqlStore.execute policy s x).answer ∧
      (SqlStore.execute policy afterX y).answer = (SqlStore.execute policy s y).answer ∧
      ∃ slots' : Slots, (SqlStore.execute policy afterX y).store.Keeps slots' ∧
        (SqlStore.execute policy afterY x).store.Keeps slots' := by
  intro afterX afterY
  -- each statement first, and then the other from the slots it leaves
  obtain ⟨hanswerX, hkeepsX⟩ := h.execute_slots hx
  obtain ⟨hanswerY, hkeepsY⟩ := h.execute_slots hy
  obtain ⟨hanswerXY, hkeepsXY⟩ := hkeepsX.execute_slots (hy.of_ne hne.symm)
  obtain ⟨hanswerYX, hkeepsYX⟩ := hkeepsY.execute_slots (hx.of_ne hne)
  refine ⟨?_, ?_, _, hkeepsXY, ?_⟩
  · rw [hanswerYX, Slots.execute_answer hne, hanswerX]
  · rw [hanswerXY, Slots.execute_answer hne.symm, hanswerY]
  · rwa [Slots.execute_swap hne]

/-- What a statement does to a store is done by calls: it creates a table, adds a row, or does nothing. -/
theorem exists_afterAll_execute (policy : DuplicatePolicy) (s : TableStore) (statement : Statement) :
    ∃ calls, (SqlStore.execute policy s statement).store = s.afterAll calls := by
  cases statement with
  | createTable name columns =>
    simp only [SqlStore.execute, SqlStore.createTable]
    split
    · exact ⟨[], rfl⟩
    · next columns _ =>
      split
      · exact ⟨[], rfl⟩
      · exact ⟨[.create ⟨name.value, columns⟩], rfl⟩
      · exact ⟨[], rfl⟩
      · exact ⟨[.create ⟨name.value, columns⟩], rfl⟩
  | insert table values =>
    simp only [SqlStore.execute, SqlStore.insertRow]
    split
    · exact ⟨[], rfl⟩
    · exact ⟨[], rfl⟩
    · next t values _ =>
      cases hfill : fillRow t values with
      | error e => exact ⟨[], rfl⟩
      | ok row =>
        cases happend : s.append t.name row with
        | error e =>
          simp only [bind, Except.bind, happend]
          exact ⟨[], rfl⟩
        | ok after =>
          refine ⟨[.append t.name row], ?_⟩
          simp only [bind, Except.bind, happend, afterAll, List.foldl_cons, List.foldl_nil, perform]
  | select items table =>
    refine ⟨[], ?_⟩
    simp only [SqlStore.execute, SqlStore.selectColumns]
    split <;> rfl

end TableStore

/-! ## In a session -/

namespace Session

/-- A session after statements, whether they fail or not. -/
def afterAll (s : Session) (statements : List Statement) : Session :=
  statements.foldl (fun s statement => s.after (s.execute statement)) s

/-- Statements one after the other are carried out from where the first ones leave the session. -/
theorem afterAll_append (s : Session) (xs ys : List Statement) :
    s.afterAll (xs ++ ys) = (s.afterAll xs).afterAll ys :=
  List.foldl_append

/-- The store of a session keeps the slots after the statements for which there is room. -/
theorem keeps_afterAll {s : Session} {slots : Slots} (h : s.store.Keeps slots)
    {statements : List Statement} (hroom : slots.RoomFor s.policy statements) :
    (s.afterAll statements).policy = s.policy ∧
      (s.afterAll statements).store.Keeps (slots.afterAll s.policy statements) := by
  induction statements generalizing s slots with
  | nil => exact ⟨rfl, h⟩
  | cons statement rest ih =>
    obtain ⟨hstatement, hrest⟩ := hroom
    exact ih (s := s.after (s.execute statement)) (h.execute_slots hstatement).2 hrest

/-- The store of a session after statements is the store after a history of calls. -/
theorem exists_afterAll (s : Session) (statements : List Statement) :
    ∃ calls, (s.afterAll statements).store = s.store.afterAll calls := by
  induction statements generalizing s with
  | nil => exact ⟨[], rfl⟩
  | cons statement rest ih =>
    obtain ⟨first, hfirst⟩ := s.store.exists_afterAll_execute s.policy statement
    obtain ⟨others, hothers⟩ := ih (s.after (s.execute statement))
    have hafter : (s.after (s.execute statement)).store = s.store.afterAll first := hfirst
    refine ⟨first ++ others, ?_⟩
    rw [hafter] at hothers
    rw [TableStore.afterAll, List.foldl_append]
    exact hothers

/-- Sessions that began without tables and keep the same slots have the same store. -/
theorem store_eq_of_keeps {policy : DuplicatePolicy} {xs ys : List Statement} {slots : Slots}
    (hxs : (({ policy } : Session).afterAll xs).store.Keeps slots)
    (hys : (({ policy } : Session).afterAll ys).store.Keeps slots) :
    (({ policy } : Session).afterAll xs).store = (({ policy } : Session).afterAll ys).store := by
  have hentries := hxs.entries_eq hys
  obtain ⟨calls, hcalls⟩ := exists_afterAll { policy } xs
  obtain ⟨others, hothers⟩ := exists_afterAll { policy } ys
  rw [hcalls, hothers] at hentries ⊢
  exact TableStore.afterAll_empty_ext hentries

/-- After any statements for which there is room, with either policy, two statements about different
tables are answered alike in either order, whether they succeed or fail, and leave the same store. -/
theorem execute_comm (policy : DuplicatePolicy) (history : List Statement) {x y : Statement}
    (hne : x.tableName ≠ y.tableName) (hx : Slots.empty.RoomFor policy (history ++ [x]))
    (hy : Slots.empty.RoomFor policy (history ++ [y])) :
    let s := ({ policy } : Session).afterAll history
    let afterX := s.after (s.execute x)
    let afterY := s.after (s.execute y)
    (afterY.execute x).answer = (s.execute x).answer ∧
      (afterX.execute y).answer = (s.execute y).answer ∧
      (afterX.execute y).store = (afterY.execute x).store := by
  intro s afterX afterY
  obtain ⟨hhistory, hroomX⟩ := Slots.roomFor_concat.1 hx
  obtain ⟨-, hroomY⟩ := Slots.roomFor_concat.1 hy
  obtain ⟨hpolicy, hkeeps⟩ := keeps_afterAll (s := { policy }) .empty hhistory
  have hpolicy' : s.policy = policy := hpolicy
  obtain ⟨hanswerX, hanswerY, slots, hkeepsX, hkeepsY⟩ :=
    hkeeps.execute_swap s.policy hne (hpolicy'.symm ▸ hroomX) (hpolicy'.symm ▸ hroomY)
  refine ⟨hanswerX, hanswerY, ?_⟩
  -- both stores are left by a list of statements
  have hxy : (({ policy } : Session).afterAll (history ++ [x, y])).store = (afterX.execute y).store := by
    rw [afterAll_append]
    rfl
  have hyx : (({ policy } : Session).afterAll (history ++ [y, x])).store = (afterY.execute x).store := by
    rw [afterAll_append]
    rfl
  rw [← hxy, ← hyx]
  exact store_eq_of_keeps (hxy ▸ hkeepsX) (hyx ▸ hkeepsY)

/-- A table is defined again, and a row is added to a table whose name begins with its name, in either
order. -/
theorem execute_comm_nameOfPrefix :
    let a : Token := ⟨.identifier, "a", {}⟩
    let ab : Token := ⟨.identifier, "ab", {}⟩
    let x : Statement := .createTable a none
    let y : Statement := .insert ab (some [.literal ⟨.string, "q", {}⟩])
    let s := ({} : Session).afterAll
      [.createTable a (some [⟨a, ⟨.keyword, "int", {}⟩⟩]),
        .insert a (some [.literal ⟨.numeric, "1", {}⟩]),
        .createTable ab (some [⟨a, ⟨.keyword, "text", {}⟩⟩])]
    ((s.after (s.execute y)).execute x).answer = .ok (.created "a") ∧
      ((s.after (s.execute x)).execute y).answer = .ok (.inserted 1) ∧
      ((s.after (s.execute x)).execute y).store = ((s.after (s.execute y)).execute x).store := by
  intro a ab x y s
  obtain ⟨hcreate, hinsert, hstore⟩ := execute_comm .replace
    [.createTable a (some [⟨a, ⟨.keyword, "int", {}⟩⟩]),
      .insert a (some [.literal ⟨.numeric, "1", {}⟩]),
      .createTable ab (some [⟨a, ⟨.keyword, "text", {}⟩⟩])]
    (x := x) (y := y) (by decide) (by decide) (by decide)
  refine ⟨hcreate.trans ?_, hinsert.trans ?_, hstore⟩ <;> decide +kernel

end Session

end SqlStore
