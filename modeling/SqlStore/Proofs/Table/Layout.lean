import SqlStore.Proofs.Table.History

/-! # What a history leaves in the byte store

* **`TableStore.afterAll`** and **`Catalog.afterAll`** — the store and the catalog after a history;
* **`Call.lastDefinition?`** and **`Call.rowsSince`** — the latest definition under a name, and the
  rows added under it since then, read off the calls alone;
* **`Call.recordAfter`** — the record that a history leaves under each key: the definition, the number
  of rows where there are any, and the rows under their numbers;
* **`TableStore.afterAll_empty_contents`** — the byte store holds these records and nothing else, so
  histories with the same tables and rows in the end leave the same store. -/

namespace SqlStore

/-! ## The end of a history -/

/-- The store after the calls of a history. -/
def TableStore.afterAll (s : TableStore) (calls : List TableStore.Call) : TableStore :=
  calls.foldl (fun s call => (s.perform call).2) s

/-- The catalog after the calls of a history. -/
def Catalog.afterAll (c : Catalog) (calls : List TableStore.Call) : Catalog :=
  calls.foldl (fun c call => (c.perform call).2) c

/-- A store that represents a catalog still does after a history for which there is room. -/
theorem TableStore.Represents.afterAll {s : TableStore} {c : Catalog} (h : s.Represents c)
    {calls : List TableStore.Call} (hroom : c.RoomFor calls) :
    (s.afterAll calls).Represents (c.afterAll calls) := by
  induction calls generalizing s c with
  | nil => exact h
  | cons call calls ih =>
    obtain ⟨hcall, hcalls⟩ := hroom
    exact ih (h.perform hcall).2 hcalls

namespace TableStore.Call

/-! ## Reading a history -/

/-- The definition that a call makes under a name. -/
def definition? (name : String) : Call → Option Table
  | .create t => if t.name = name then some t else none
  | _ => none

/-- The row that a call adds under a name. -/
def row? (name : String) : Call → Option Row
  | .append other row => if other = name then some row else none
  | _ => none

/-- The latest definition under a name. -/
def lastDefinition? (name : String) (calls : List Call) : Option Table :=
  (calls.filterMap (definition? name)).getLast?

/-- The calls after the latest definition under a name, or all calls if there is none. -/
def sinceDefinition (name : String) (calls : List Call) : List Call :=
  (calls.reverse.takeWhile fun call => (call.definition? name).isNone).reverse

/-- The rows added under a name since it was last defined. -/
def rowsSince (name : String) (calls : List Call) : List Row :=
  (sinceDefinition name calls).filterMap (row? name)

/-- The record that a history leaves under a key. -/
def recordAfter (calls : List Call) : Key → Option Bytes
  | .table name => (lastDefinition? name calls).map Table.format.write
  | .nextRow name =>
    if rowsSince name calls = [] then none
    else some (rowCounter.write (rowsSince name calls).length)
  | .row name number => (rowsSince name calls)[number]?.map Row.format.write

/-- A further call that defines a name decides its latest definition. -/
theorem lastDefinition?_concat (name : String) (calls : List Call) (call : Call) :
    lastDefinition? name (calls ++ [call])
      = (call.definition? name).or (lastDefinition? name calls) := by
  cases hcall : call.definition? name <;> simp [lastDefinition?, hcall]

/-- A further call that defines a name leaves it without rows, and any other may add one. -/
theorem rowsSince_concat (name : String) (calls : List Call) (call : Call) :
    rowsSince name (calls ++ [call])
      = if (call.definition? name).isSome then []
        else rowsSince name calls ++ (call.row? name).toList := by
  cases hcall : call.definition? name with
  | some t => simp [rowsSince, sinceDefinition, hcall]
  | none => cases hrow : call.row? name <;> simp [rowsSince, sinceDefinition, hcall, hrow]

end TableStore.Call

namespace Catalog

open TableStore.Call

/-- A further call changes the catalog after the others. -/
theorem afterAll_concat (c : Catalog) (calls : List TableStore.Call) (call : TableStore.Call) :
    c.afterAll (calls ++ [call]) = ((c.afterAll calls).perform call).2 :=
  List.foldl_concat ..

/-- What a call defines is found after it. -/
theorem lookup_perform (c : Catalog) (call : TableStore.Call) (name : String) :
    (c.perform call).2.definitions.lookup name
      = (call.definition? name).or (c.definitions.lookup name) := by
  cases call with
  | create t =>
    by_cases heq : name = t.name
    · subst heq
      simp [perform, definition?, lookup_create_self]
    · simp [perform, definition?, lookup_create_of_ne c t heq, Ne.symm heq]
  | _ => rfl

/-- A call that defines a name leaves it without rows, and any other may add one. -/
theorem rows_perform (c : Catalog) (call : TableStore.Call) (name : String) :
    (c.perform call).2.rows name
      = if (call.definition? name).isSome then [] else c.rows name ++ (call.row? name).toList := by
  cases call with
  | create t =>
    by_cases heq : name = t.name
    · subst heq
      simp [perform, definition?, rows_create_self]
    · simp [perform, definition?, row?, rows_create_of_ne c t heq, Ne.symm heq]
  | append other row =>
    by_cases heq : name = other
    · subst heq
      simp [perform, definition?, row?, rows_append_self]
    · simp [perform, definition?, row?, rows_append_of_ne c row heq, Ne.symm heq]
  | _ => simp [perform, definition?, row?]

/-- The definitions after a history are the latest ones. -/
theorem lookup_afterAll_empty (calls : List TableStore.Call) (name : String) :
    (empty.afterAll calls).definitions.lookup name = lastDefinition? name calls := by
  -- induction from the last call
  induction calls using List.reverseRecOn with
  | nil => simp [afterAll, empty, lastDefinition?]
  | append_singleton calls call ih =>
    rw [afterAll_concat, lookup_perform, ih, lastDefinition?_concat]

/-- The rows after a history are those added since the latest definitions. -/
theorem rows_afterAll_empty (calls : List TableStore.Call) (name : String) :
    (empty.afterAll calls).rows name = rowsSince name calls := by
  induction calls using List.reverseRecOn with
  | nil => rfl
  | append_singleton calls call ih => rw [afterAll_concat, rows_perform, ih, rowsSince_concat]

/-- The records after a history are those that the calls tell. -/
theorem record?_afterAll_empty (calls : List TableStore.Call) :
    (empty.afterAll calls).record? = recordAfter calls := by
  funext key
  cases key with
  | table name => rw [record?, recordAfter, lookup_afterAll_empty]
  | row name number => rw [record?, recordAfter, rows_afterAll_empty, List.getElem?_map]
  | nextRow name => rw [record?, recordAfter, rows_afterAll_empty]

end Catalog

/-! ## Stores without leftovers -/

/-- What has been set is an entry. -/
theorem ByteStore.entries_set_ne_nil (b : ByteStore) (key value : Bytes) :
    (b.set key value).entries ≠ [] := by
  have hget : (b.set key value).get? key = some value := by rw [get?_set, if_pos rfl]
  exact List.ne_nil_of_mem ((get?_eq_some_iff _ key value).1 hget)

namespace TableStore

/-- An added row is an entry. -/
theorem entries_ne_nil_of_append {s after : TableStore} {name : String} {row : Row}
    (h : s.append name row = .ok after) : after.bytes.entries ≠ [] := by
  rw [append] at h
  cases hnumber : s.nextRow name with
  | error e =>
    rw [hnumber] at h
    cases h
  | ok number =>
    rw [hnumber] at h
    cases h
    exact ByteStore.entries_set_ne_nil _ _ _

/-- A call leaves entries in the store if anything was ever stored. -/
theorem entries_perform_ne_nil {s : TableStore}
    (h : s.bytes.everStored = true → s.bytes.entries ≠ []) (call : Call)
    (hever : (s.perform call).2.bytes.everStored = true) :
    (s.perform call).2.bytes.entries ≠ [] := by
  cases call with
  | create t => exact ByteStore.entries_set_ne_nil _ _ _
  | append name row =>
    simp only [perform] at hever ⊢
    cases happend : s.append name row with
    | error e =>
      rw [happend] at hever
      exact h hever
    | ok after => exact entries_ne_nil_of_append happend
  | getTable? name => exact h hever
  | tables => exact h hever
  | rows name => exact h hever

/-- After a history there are entries if anything was ever stored. -/
theorem entries_afterAll_ne_nil {s : TableStore}
    (h : s.bytes.everStored = true → s.bytes.entries ≠ []) (calls : List Call) :
    (s.afterAll calls).bytes.everStored = true → (s.afterAll calls).bytes.entries ≠ [] := by
  induction calls generalizing s with
  | nil => exact h
  | cons call calls ih => exact ih fun hever => entries_perform_ne_nil h call hever

/-- After histories from the empty store, equal entries make equal stores. -/
theorem afterAll_empty_ext {calls others : List Call}
    (h : (empty.afterAll calls).bytes.entries = (empty.afterAll others).bytes.entries) :
    empty.afterAll calls = empty.afterAll others := by
  have hempty : empty.bytes.everStored = true → empty.bytes.entries ≠ [] := fun hever => by cases hever
  have hcalls := entries_afterAll_ne_nil hempty calls
  have hothers := entries_afterAll_ne_nil hempty others
  -- whether anything was ever stored shows in the entries
  have hever : (empty.afterAll calls).bytes.everStored = (empty.afterAll others).bytes.everStored := by
    rw [Bool.eq_iff_iff]
    constructor
    · intro hever
      by_contra hnever
      exact hcalls hever (h.trans ((empty.afterAll others).bytes.entries_eq_nil (by simpa using hnever)))
    · intro hever
      by_contra hnever
      exact hothers hever
        (h.symm.trans ((empty.afterAll calls).bytes.entries_eq_nil (by simpa using hnever)))
  exact congrArg TableStore.mk (ByteStore.ext_of_entries h hever)

open Call in
/-- From the empty store, a history for which there is room leaves exactly these records: for every
name its latest definition, for every name with rows since then their number, and the rows under their
numbers. Histories that end with the same tables and rows leave the same store. -/
theorem afterAll_empty_contents (calls : List Call) (hroom : Catalog.empty.RoomFor calls) :
    (∀ bytes value, (empty.afterAll calls).bytes.get? bytes = some value ↔
      ∃ key, key.toBytes = bytes ∧ recordAfter calls key = some value) ∧
    ∀ others, Catalog.empty.RoomFor others →
      (∀ name, lastDefinition? name calls = lastDefinition? name others) →
      (∀ name, rowsSince name calls = rowsSince name others) →
      empty.afterAll calls = empty.afterAll others := by
  have hholds : ∀ history, Catalog.empty.RoomFor history →
      (empty.afterAll history).bytes.Holds (recordAfter history) := by
    intro history hhistory
    rw [← Catalog.record?_afterAll_empty]
    exact (Represents.empty.afterAll hhistory).holds
  refine ⟨fun bytes value => (hholds calls hroom).stored_iff, ?_⟩
  intro others hothers hdefinitions hrows
  -- the same tables and rows make the same records
  have hrecords : recordAfter calls = recordAfter others := by
    funext key
    cases key with
    | table name => rw [recordAfter, recordAfter, hdefinitions]
    | row name number => rw [recordAfter, recordAfter, hrows]
    | nextRow name => rw [recordAfter, recordAfter, hrows]
  have hcalls := hholds calls hroom
  rw [hrecords] at hcalls
  exact afterAll_empty_ext (hcalls.eq_of_holds (hholds others hothers))

/-- A table that is defined again leaves neither its old rows nor their counter behind, and the rows of a
table whose name begins with its name stay. -/
theorem afterAll_empty_contents_redefined :
    (empty.afterAll [.create ⟨"a", []⟩, .append "a" [none], .append "ab" [some [1]],
        .create ⟨"a", [⟨"x", .int⟩]⟩]).bytes.get? (Key.nextRow "ab").toBytes
      = some (rowCounter.write 1) ∧
    empty.afterAll [.create ⟨"a", []⟩, .append "a" [none], .append "ab" [some [1]],
        .create ⟨"a", [⟨"x", .int⟩]⟩]
      = empty.afterAll [.create ⟨"a", [⟨"x", .int⟩]⟩, .append "ab" [some [1]]] := by
  have hcontents := afterAll_empty_contents [.create ⟨"a", []⟩, .append "a" [none],
    .append "ab" [some [1]], .create ⟨"a", [⟨"x", .int⟩]⟩] (by decide)
  refine ⟨(hcontents.1 _ _).2 ⟨.nextRow "ab", rfl, rfl⟩, hcontents.2 _ (by decide) ?_ ?_⟩
  · intro name
    by_cases hname : "a" = name
    · subst hname
      rfl
    · simp [Call.lastDefinition?, Call.definition?, List.filterMap_cons, hname]
  · intro name
    by_cases hname : "a" = name
    · subst hname
      rfl
    · simp [Call.rowsSince, Call.sinceDefinition, Call.definition?, Call.row?, List.filterMap_cons,
        hname]

end TableStore

end SqlStore
