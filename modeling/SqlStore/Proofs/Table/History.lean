import SqlStore.Proofs.Table.Catalog

/-! # Histories of a table store

A history is a list of calls, each answered from the tables that those before it left:

* **`TableStore.Call`** and **`TableStore.Answer`** — what a store is asked and what it answers;
* **`TableStore.performAll`** and **`Catalog.performAll`** — the answers to a history, of a store of
  bytes and of a catalog;
* **`Catalog.RoomFor`** — a history all of whose lengths are written in full and in which no table
  gets more rows than can be counted;
* **`TableStore.performAll_empty_eq`** — there every call succeeds, and the answers are those of the
  catalog. -/

namespace SqlStore

/-! ## Calls and answers -/

/-- A call of a table store. -/
inductive TableStore.Call where
  | create (t : Table)
  | append (name : String) (row : Row)
  | getTable? (name : String)
  | tables
  | rows (name : String)
  deriving DecidableEq, Repr

/-- The answer to a call. -/
inductive TableStore.Answer where
  /-- The call has been carried out. -/
  | done
  | table (found : Option Table)
  | tables (all : List Table)
  | rows (all : List Row)
  deriving DecidableEq, Repr

namespace TableStore

/-- The answer to a call and the store after it. A call that fails leaves the store as it is. -/
def perform (s : TableStore) : Call → Except Error Answer × TableStore
  | .create t => (.ok .done, s.create t)
  | .append name row =>
    match s.append name row with
    | .ok after => (.ok .done, after)
    | .error e => (.error e, s)
  | .getTable? name => ((s.getTable? name).map .table, s)
  | .tables => (s.tables.map .tables, s)
  | .rows name => ((s.rows name).map .rows, s)

/-- The answers to the calls of a history. -/
def performAll (s : TableStore) : List Call → List (Except Error Answer)
  | [] => []
  | call :: calls => (s.perform call).1 :: (s.perform call).2.performAll calls

end TableStore

namespace Catalog

open TableStore (Call Answer)

/-- The answer of a catalog to a call and the catalog after it. -/
def perform (c : Catalog) : Call → Answer × Catalog
  | .create t => (.done, c.create t)
  | .append name row => (.done, c.append name row)
  | .getTable? name => (.table (c.definitions.lookup name), c)
  | .tables => (.tables c.tables, c)
  | .rows name => (.rows (c.rows name), c)

/-- The answers of a catalog to the calls of a history. -/
def performAll (c : Catalog) : List Call → List Answer
  | [] => []
  | call :: calls => (c.perform call).1 :: (c.perform call).2.performAll calls

/-- Whether all that a call is given is written in full, and a row to be added can be counted. -/
def HasRoom (c : Catalog) : Call → Prop
  | .create t => t.Fits
  | .append name row => Text.Fits name ∧ row.Fits ∧ (c.rows name).length + 1 < 2 ^ 64
  | .getTable? name => Text.Fits name
  | .tables => True
  | .rows name => Text.Fits name

/-- Whether there is room for every call of a history when its turn comes. -/
def RoomFor (c : Catalog) : List Call → Prop
  | [] => True
  | call :: calls => c.HasRoom call ∧ (c.perform call).2.RoomFor calls

instance (c : Catalog) : DecidablePred c.HasRoom
  | .create t => inferInstanceAs (Decidable t.Fits)
  | .append name row =>
    inferInstanceAs (Decidable (Text.Fits name ∧ row.Fits ∧ (c.rows name).length + 1 < 2 ^ 64))
  | .getTable? name => inferInstanceAs (Decidable (Text.Fits name))
  | .tables => .isTrue trivial
  | .rows name => inferInstanceAs (Decidable (Text.Fits name))

/-- It can be decided whether there is room for a history. -/
def decidableRoomFor : (calls : List Call) → (c : Catalog) → Decidable (c.RoomFor calls)
  | [], _ => .isTrue trivial
  | call :: calls, c =>
    have := decidableRoomFor calls (c.perform call).2
    inferInstanceAs (Decidable (c.HasRoom call ∧ (c.perform call).2.RoomFor calls))

instance (c : Catalog) : DecidablePred c.RoomFor := fun calls => decidableRoomFor calls c

end Catalog

/-! ## One call -/

namespace TableStore

/-- A call for which there is room is answered as the catalog answers it, and afterwards the store
represents the catalog after the call. -/
theorem Represents.perform {s : TableStore} {c : Catalog} (h : s.Represents c) {call : Call}
    (hroom : c.HasRoom call) :
    (s.perform call).1 = .ok (c.perform call).1 ∧
      (s.perform call).2.Represents (c.perform call).2 := by
  cases call with
  | create t => exact ⟨rfl, h.create hroom⟩
  | append name row =>
    obtain ⟨hname, hrow, hcount⟩ := hroom
    obtain ⟨after, happend, hafter⟩ := h.append hname hrow hcount
    simp only [TableStore.perform, happend]
    exact ⟨rfl, hafter⟩
  | getTable? name =>
    simp only [TableStore.perform, h.getTable? hroom]
    exact ⟨rfl, h⟩
  | tables =>
    simp only [TableStore.perform, h.tables]
    exact ⟨rfl, h⟩
  | rows name =>
    simp only [TableStore.perform, h.rows hroom]
    exact ⟨rfl, h⟩

/-! ## Histories -/

/-- A store that represents a catalog answers a history as the catalog does. -/
theorem Represents.performAll {s : TableStore} {c : Catalog} (h : s.Represents c)
    {calls : List Call} (hroom : c.RoomFor calls) :
    s.performAll calls = (c.performAll calls).map .ok := by
  -- induction on the calls, with the store and its catalog moving on together
  induction calls generalizing s c with
  | nil => rfl
  | cons call calls ih =>
    obtain ⟨hcall, hcalls⟩ := hroom
    obtain ⟨hanswer, hafter⟩ := h.perform hcall
    rw [TableStore.performAll, Catalog.performAll, List.map_cons, hanswer, ih hafter hcalls]

/-- From the empty store, no call of a history fails for which there is room, and the answers are
those of the catalog: the last definition under each name, the rows added since then in their order,
and the definitions in the order of their names. -/
theorem performAll_empty_eq (calls : List Call) (hroom : Catalog.empty.RoomFor calls) :
    empty.performAll calls = (Catalog.empty.performAll calls).map .ok :=
  Represents.empty.performAll hroom

/-- Rows of a table whose name begins with another's stay when that one is defined again, and rows
may be added before their table is defined. -/
theorem performAll_empty_redefined :
    empty.performAll
        [.create ⟨"a", []⟩, .append "a" [none], .append "ab" [some [1], none], .append "ab" [],
          .create ⟨"a", [⟨"x", .int⟩]⟩, .rows "a", .rows "ab", .getTable? "a", .getTable? "ab"]
      = [.ok .done, .ok .done, .ok .done, .ok .done, .ok .done, .ok (.rows []),
          .ok (.rows [[some [1], none], []]), .ok (.table (some ⟨"a", [⟨"x", .int⟩]⟩)),
          .ok (.table none)] := by
  rw [performAll_empty_eq _ (by decide)]
  rfl

end TableStore

end SqlStore
