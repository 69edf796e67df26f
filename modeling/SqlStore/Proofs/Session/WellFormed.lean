import SqlStore.Proofs.Session.Texts

/-! # Stored rows are well formed

What a session that began without tables can run into, and what it stores:

* **`Error.IsInternal`** — an error that no user should see: something stored is damaged, or a numeral
  that is no integer got past the reader of statements;
* **`Column.Holds`** and **`TableStore.WellFormed`** — every table can be read, every row has one slot for
  each column, and what a slot holds is a value of its column. Integers are not negative, since there is
  no sign in a text;
* **`Session.outcomes_fresh_sound`** — whatever texts it is given, no outcome is an internal error, and
  after each of them the store is well formed. -/

namespace SqlStore

/-! ## Errors of the database -/

/-- Whether an error is none of the user's: a stored record or cell is damaged, or a numeral is no signed
32-bit integer though it was read as a literal. -/
def Error.IsInternal : Error → Prop
  | .damagedRecord _ => True
  | .damagedCell _ => True
  | .malformedNumeral _ _ => True
  | _ => False

namespace Database

/-- A type that is refused is no internal error. -/
theorem columnFault_not_internal {d : ColumnDefinition} {e : Error} (h : d.fault? = some e) :
    ¬ e.IsInternal := by
  unfold ColumnDefinition.fault? at h
  split at h
  · cases h
  · cases h
    exact not_false

/-- A value that a column refuses is no internal error. -/
theorem slotFault_not_internal {c : Column} {value : Expression} {e : Error}
    (h : value.slotFault? c = some e) : ¬ e.IsInternal := by
  cases value with
  | binary left operator right => cases h
  | literal t =>
    rw [Expression.slotFault?] at h
    split at h
    · cases h
      exact not_false
    · split at h
      · cases h
      · cases h
        exact not_false

/-- A name that cannot be selected is no internal error. -/
theorem itemFault_not_internal {r : Relation} {item : Expression} {e : Error}
    (h : r.itemFault? item = some e) : ¬ e.IsInternal := by
  cases item with
  | binary left operator right => cases h
  | literal t =>
    rw [Relation.itemFault?] at h
    split at h
    · cases h
    · cases h
      exact not_false

/-- An empty slot is no internal error. -/
theorem cellFault_not_internal {name : String} {row : List (Option Value)} {c : Nat × Column}
    {e : Error} (h : Relation.cellFault? name row c = some e) : ¬ e.IsInternal := by
  unfold Relation.cellFault? at h
  split at h
  · cases h
  · cases h
    exact not_false

/-- The first fault of a list is a fault of a member. -/
theorem findSome?_not_internal {α : Type} {fault? : α → Option Error} {xs : List α} {e : Error}
    (h : xs.findSome? fault? = some e) (hfault : ∀ {x e}, fault? x = some e → ¬ e.IsInternal) :
    ¬ e.IsInternal := by
  obtain ⟨x, -, hx⟩ := List.exists_of_findSome?_eq_some h
  exact hfault hx

/-- No creation of a table fails with an internal error. -/
theorem create_not_internal {policy : DuplicatePolicy} {db : Database} {name : String}
    {definitions : List ColumnDefinition} {e : Error}
    (h : (db.create policy name definitions).1 = .error e) : ¬ e.IsInternal := by
  unfold create at h
  split at h
  · next hfault =>
    cases h
    exact findSome?_not_internal hfault columnFault_not_internal
  · split at h
    · cases h
      exact not_false
    · cases h

/-- No insertion fails with an internal error. -/
theorem insert_not_internal {db : Database} {name : String} {values : Option (List Expression)}
    {e : Error} (h : (db.insert name values).1 = .error e) : ¬ e.IsInternal := by
  unfold insert at h
  split at h
  · cases h
    exact not_false
  · cases h
  · split at h
    · split at h
      · next hfault =>
        cases h
        exact findSome?_not_internal hfault slotFault_not_internal
      · cases h
    · cases h
      exact not_false

/-- No selection fails with an internal error. -/
theorem select_not_internal {db : Database} {name : String} {items : List Expression} {e : Error}
    (h : db.select name items = .error e) : ¬ e.IsInternal := by
  unfold select at h
  split at h
  · cases h
    exact not_false
  · split at h
    · next hfault =>
      cases h
      exact findSome?_not_internal hfault itemFault_not_internal
    · dsimp only at h
      split at h
      · next hfault =>
        cases h
        refine findSome?_not_internal hfault fun hrow => ?_
        exact findSome?_not_internal hrow cellFault_not_internal
      · cases h

/-- No statement fails with an internal error. -/
theorem execute_not_internal {policy : DuplicatePolicy} {db : Database} {statement : Statement}
    {e : Error} (h : (db.execute policy statement).1 = .error e) : ¬ e.IsInternal := by
  cases statement with
  | createTable name columns => exact create_not_internal h
  | insert table values => exact insert_not_internal h
  | select items table => exact select_not_internal h

/-! ## Values of the database -/

/-- Whether a database has no negative integers. -/
def Unsigned (db : Database) : Prop :=
  ∀ name r, db name = some r → ∀ row ∈ r.rows, ∀ v, some v ∈ row → v.Unsigned

/-- A relation may be set if it has no negative integers. -/
theorem Unsigned.update {db : Database} (h : db.Unsigned) {name : String} {r : Relation}
    (hr : ∀ row ∈ r.rows, ∀ v, some v ∈ row → v.Unsigned) :
    Unsigned (Function.update db name (some r)) := by
  intro other r' hr'
  by_cases heq : other = name
  · subst heq
    rw [Function.update_self] at hr'
    obtain rfl := Option.some.inj hr'
    exact hr
  · rw [Function.update_of_ne heq] at hr'
    exact h other r' hr'

/-- A created table has no integers. -/
theorem Unsigned.create {db : Database} (h : db.Unsigned) (policy : DuplicatePolicy) (name : String)
    (definitions : List ColumnDefinition) : (db.create policy name definitions).2.Unsigned := by
  unfold Database.create
  split
  · exact h
  · split
    · exact h
    · exact h.update (List.forall_mem_nil _)

/-- A row without negative integers may be inserted. -/
theorem Unsigned.insert {db : Database} (h : db.Unsigned) (name : String)
    {values : Option (List Expression)}
    (hvalues : ∀ value ∈ values.getD [], ∀ v ∈ value.slot, v.Unsigned) :
    (db.insert name values).2.Unsigned := by
  unfold Database.insert
  split
  · exact h
  · exact h
  · next r values hr =>
    split
    · split
      · exact h
      · -- the new row has the values of the expressions
        refine h.update fun row hrow v hv => ?_
        rcases List.mem_append.1 hrow with hold | hnew
        · exact h name r hr row hold v hv
        · obtain rfl := List.mem_singleton.1 hnew
          obtain ⟨value, hvalue, hslot⟩ := List.mem_map.1 hv
          exact hvalues value hvalue v hslot
    · exact h

/-- A statement without negative integers brings none into the database. -/
theorem Unsigned.execute {db : Database} (h : db.Unsigned) (policy : DuplicatePolicy)
    {statement : Statement} (hstatement : statement.Unsigned) :
    (db.execute policy statement).2.Unsigned := by
  cases statement with
  | createTable name columns => exact h.create policy _ _
  | insert table values => exact h.insert _ hstatement
  | select items table => exact h

/-- Texts bring no negative integers into the database, and none fails with an internal error. -/
theorem outcomes_sound {db : Database} (h : db.Unsigned) (policy : DuplicatePolicy)
    (texts : List String) : ∀ result ∈ db.outcomes policy texts,
      (∀ e, result.1 = .error e → ¬ e.IsInternal) ∧ result.2.Unsigned := by
  induction texts generalizing db with
  | nil => exact List.forall_mem_nil _
  | cons text rest ih =>
    have hfirst : (∀ e, (db.executeText policy text).1 = .error e → ¬ e.IsInternal) ∧
        (db.executeText policy text).2.Unsigned := by
      unfold executeText
      cases hparse : parseText text with
      | error e =>
        refine ⟨fun e' he => ?_, h⟩
        cases he
        exact not_false
      | ok statements =>
        refine ⟨fun e he => ?_, ?_⟩
        · obtain ⟨before, statement, hfail⟩ := executeAll_error he
          exact execute_not_internal hfail
        · exact executeAll_keeps (P := Unsigned) (fun statement hs _ hdb =>
            hdb.execute policy (unsigned_of_parseText hparse statement hs)) h
    exact List.forall_mem_cons.2 ⟨hfirst, ih hfirst.2⟩

end Database

/-! ## Stored slots -/

/-- Whether bytes are what a column holds: an integer column has the four bytes of an integer that is not
negative, and a text column has UTF-8. -/
def Column.Holds (c : Column) (bytes : Bytes) : Prop :=
  match c.type with
  | .int => bytes.length = 4 ∧
      ∃ n, Value.ofBytes .int bytes = .ok (.int n) ∧ 0 ≤ n.toInt ∧ n.toInt ≤ 2147483647
  | .text => ∃ text, Utf8.decode bytes = .ok text

/-- Whether a store is well formed: all its tables can be read, they are those that are found by name, and
each row of a table has one slot for each column, in their order, which is empty or holds what the column
holds. -/
def TableStore.WellFormed (s : TableStore) : Prop :=
  ∃ tables, s.tables = .ok tables ∧
    (∀ name, Text.Fits name → s.getTable? name = .ok (tables.find? (·.name = name))) ∧
    ∀ t ∈ tables, ∃ rows, s.rows t.name = .ok rows ∧
      ∀ row ∈ rows, List.Forall₂ (fun c slot => ∀ bytes ∈ slot, Column.Holds c bytes) t.columns row

/-- A column holds the bytes of its values. -/
theorem Column.holds_toBytes {c : Column} {v : Value} (htype : v.type = c.type) (hv : v.Unsigned) :
    c.Holds v.toBytes := by
  have hread := Value.ofBytes_toBytes v
  rw [Holds, ← htype]
  cases v with
  | int n => exact ⟨length_bigEndian _ _, n, hread, hv, Int32.toInt_le n⟩
  | text s => exact ⟨s, Utf8.decode_encode s⟩

/-- A stored row holds what the columns hold. -/
theorem Relation.RowOf.holds {columns : List Column} {row : List (Option Value)}
    (hrow : RowOf columns row) (hvalues : ∀ v, some v ∈ row → v.Unsigned) :
    List.Forall₂ (fun c slot => ∀ bytes ∈ slot, Column.Holds c bytes) columns (stored row) := by
  induction hrow with
  | nil => exact .nil
  | @cons c slot columns row hslot _ ih =>
    refine .cons ?_ (ih fun v hv => hvalues v (List.mem_cons_of_mem _ hv))
    intro bytes hbytes
    obtain ⟨v, rfl, rfl⟩ := Option.map_eq_some_iff.1 hbytes
    exact Column.holds_toBytes (hslot v rfl) (hvalues v List.mem_cons_self)

/-- The tables listed are those found by name. -/
theorem Catalog.Fits.find?_tables {c : Catalog} (h : c.Fits) (name : String) :
    c.tables.find? (·.name = name) = c.definitions.lookup name := by
  cases hfound : c.tables.find? (·.name = name) with
  | some t =>
    have hmem := List.mem_of_find?_eq_some hfound
    have hname : t.name = name := by simpa using List.find?_some hfound
    rw [← hname, (h.mem_tables t).1 hmem]
  | none =>
    cases hlookup : c.definitions.lookup name with
    | none => rfl
    | some t =>
      -- a definition of this name would be listed
      have hname := h.name_eq hlookup
      have hmem : t ∈ c.tables := (h.mem_tables t).2 (hname ▸ hlookup)
      exact absurd hname (by simpa using List.find?_eq_none.1 hfound t hmem)

/-- A store of a database without negative integers is well formed. -/
theorem TableStore.Stores.wellFormed {s : TableStore} {db : Database} (h : s.Stores db)
    (hdb : db.Unsigned) : s.WellFormed := by
  obtain ⟨c, hs, hc⟩ := h
  refine ⟨c.tables, hs.tables, fun name hname => ?_, fun t ht => ?_⟩
  · rw [hs.getTable? hname, hs.fits.find?_tables]
  · -- a table that is listed is a relation of the database
    have hlookup := (hs.fits.mem_tables t).1 ht
    have hname : Text.Fits t.name := (hs.fits.table hlookup).1
    obtain ⟨r, hr, htable⟩ := Option.map_eq_some_iff.1 ((hc.lookup t.name).symm.trans hlookup)
    refine ⟨c.rows t.name, hs.rows hname, fun row hrow => ?_⟩
    rw [hc.rows hr] at hrow
    obtain ⟨values, hvalues, rfl⟩ := List.mem_map.1 hrow
    rw [← htable]
    exact (hc.typed hr values hvalues).holds (hdb t.name r hr values hvalues)

/-! ## Texts -/

/-- Whatever texts a session without tables is given, with either policy, none fails with an internal
error, and after each of them the store is well formed. -/
theorem Session.outcomes_fresh_sound (policy : DuplicatePolicy) (texts : List String)
    (hfits : ∀ text ∈ texts, Text.Fits text)
    (hcounts : Database.empty.CanCountTexts policy texts) :
    ∀ o ∈ ({ policy } : Session).outcomes texts,
      (∀ e, o.answer = .error e → ¬ e.IsInternal) ∧ o.store.WellFormed := by
  have hrefine := outcomes_refine (s := { policy }) .empty
    (fun text htext _ hparse => fits_of_parseText (hfits text htext) hparse) hcounts
  have hempty : Database.Unsigned .empty := fun _ _ hr => by cases hr
  intro o ho
  obtain ⟨result, hresult, hanswer, hstores⟩ := exists_result hrefine o ho
  obtain ⟨herror, hunsigned⟩ := Database.outcomes_sound hempty policy texts result hresult
  exact ⟨fun e he => herror e (hanswer ▸ he), hstores.wellFormed hunsigned⟩

/-- A text whose second insertion is refused ends with an error that is not internal, and the row of the
first is well formed. -/
theorem Session.outcomes_fresh_sound_refused :
    ∃ created refused, ({ policy := .refuse } : Session).outcomes
        ["create table t (a int)", "insert into t values (7); insert into t values ('x')"]
        = [created, refused] ∧
      refused.answer = .error (.typeMismatch "a" .int (.value .text)) ∧
      (∀ e, refused.answer = .error e → ¬ e.IsInternal) ∧ refused.store.WellFormed := by
  have hcreate : parseText "create table t (a int)"
      = .ok [.createTable ⟨.identifier, "t", ⟨0, 13⟩⟩
          (some [⟨⟨.identifier, "a", ⟨0, 16⟩⟩, ⟨.keyword, "int", ⟨0, 18⟩⟩⟩])] := by
    rw [parseText, TokenStream.ofText, TokenStream.ofLexer_eq_upTo (n := 30) (by decide)]
    decide +kernel
  have hinsert : parseText "insert into t values (7); insert into t values ('x')"
      = .ok [.insert ⟨.identifier, "t", ⟨0, 12⟩⟩ (some [.literal ⟨.numeric, "7", ⟨0, 22⟩⟩]),
          .insert ⟨.identifier, "t", ⟨0, 38⟩⟩ (some [.literal ⟨.string, "x", ⟨0, 48⟩⟩])] := by
    rw [parseText, TokenStream.ofText, TokenStream.ofLexer_eq_upTo (n := 60) (by decide)]
    decide +kernel
  have hcounts : Database.empty.CanCountTexts .refuse
      ["create table t (a int)", "insert into t values (7); insert into t values ('x')"] := by
    simp only [Database.CanCountTexts, Database.CanCountAll, Database.executeText, hcreate, hinsert,
      Except.ok.injEq, forall_eq']
    decide
  have hsound := outcomes_fresh_sound .refuse _ (by decide) hcounts
  refine ⟨_, _, rfl, ?_, hsound _ (List.mem_cons_of_mem _ List.mem_cons_self)⟩
  simp only [executeText, hcreate, hinsert]
  decide +kernel

end SqlStore
