import SqlStore.Proofs.Statement.Moved
import SqlStore.Session

/-! # Texts carried out one behind the other

* **`Outcome.andThen_assoc`**, **`Outcome.map_andThen`**, **`Outcome.andThen_map`** — the laws of going on
  after an outcome;
* **`executeAll_append`** — carrying out statements and then others;
* **`execute_moved`** — a statement has the same outcome wherever its tokens stand;
* **`Session.executeText_append`** — two texts with a semicolon between them have the outcome of the first
  and then, if it does not fail, that of the second. -/

namespace SqlStore

/-! ## Going on after an outcome -/

namespace Outcome

variable {α β γ : Type}

/-- It does not matter which of two steps is grouped with a third between them. -/
theorem andThen_assoc (o : Outcome α) (f : α → TableStore → Outcome β)
    (g : β → TableStore → Outcome γ) :
    (o.andThen f).andThen g = o.andThen fun a store => (f a store).andThen g := by
  obtain ⟨answer, store, log⟩ := o
  cases answer with
  | error e => rfl
  | ok a =>
    simp only [andThen]
    cases (f a store).answer with
    | error e => rfl
    | ok b => simp only [List.append_assoc]

/-- What goes on after another answer goes on with the answer it is made of. -/
theorem map_andThen (o : Outcome α) (f : α → β) (g : β → TableStore → Outcome γ) :
    (o.map f).andThen g = o.andThen fun a store => g (f a) store := by
  obtain ⟨answer, store, log⟩ := o
  cases answer <;> rfl

/-- The last answer may be turned into another at once. -/
theorem andThen_map (o : Outcome α) (f : α → TableStore → Outcome β) (g : β → γ) :
    (o.andThen f).map g = o.andThen fun a store => (f a store).map g := by
  obtain ⟨answer, store, log⟩ := o
  cases answer <;> rfl

/-- An answer may be turned into another in one step or in two. -/
theorem map_map (o : Outcome α) (f : α → β) (g : β → γ) : (o.map f).map g = o.map (g ∘ f) := by
  obtain ⟨answer, store, log⟩ := o
  cases answer <;> rfl

/-- An answer that is kept makes no difference. -/
theorem map_id (o : Outcome α) : o.map id = o := by
  obtain ⟨answer, store, log⟩ := o
  cases answer <;> rfl

/-- After an answer without notes, what goes on decides. -/
theorem unchanged_andThen (store : TableStore) (a : α) (f : α → TableStore → Outcome β) :
    (unchanged store (.ok a)).andThen f = f a store := rfl

end Outcome

/-- Statements and then others are carried out one after the other, the others only if none of the first
fails. -/
theorem executeAll_append (policy : DuplicatePolicy) (store : TableStore) (xs ys : List Statement) :
    executeAll policy store (xs ++ ys)
      = (executeAll policy store xs).andThen fun results after =>
          (executeAll policy after ys).map (results ++ ·) := by
  induction xs generalizing store with
  | nil =>
    rw [List.nil_append, executeAll, Outcome.unchanged_andThen]
    exact (Outcome.map_id _).symm
  | cons x xs ih =>
    rw [List.cons_append, executeAll, executeAll, Outcome.andThen_assoc]
    -- after the first statement, the others behave as the induction says
    congr 1
    funext result after
    rw [ih, Outcome.andThen_map, Outcome.map_andThen]
    simp only [Outcome.map_map]
    rfl

/-! ## Places make no difference -/

section Moved

variable (f : Location → Location)

/-- What is reached of items that are made of others is made of what is reached of those. -/
theorem reached_map {α β γ ε : Type} (check : β → Except ε γ) (g : α → β) (items : List α) :
    reached check (items.map g) = (reached (check ∘ g) items).map g :=
  List.takeWhile_map

/-- A column is defined by the words of its definition. -/
theorem ColumnDefinition.toColumn_moved : toColumn ∘ ColumnDefinition.moved f = toColumn := rfl

/-- A slot is filled by the words of an expression. -/
theorem slotFor_moved (column : Column) (e : Expression) :
    slotFor column (e.moved f) = slotFor column e := by
  cases e <;> rfl

/-- Operations stay operations. -/
theorem Expression.isOperation_moved (e : Expression) : (e.moved f).isOperation = e.isOperation := by
  cases e <;> rfl

/-- A column is selected by the words of an expression. -/
theorem projected_moved (t : Table) : projected t ∘ Expression.moved f = projected t := by
  funext e
  cases e <;> rfl

/-- A row is filled by the words of the values. -/
theorem fillRow_moved (t : Table) (values : List Expression) :
    fillRow t (values.map (Expression.moved f)) = fillRow t values := by
  simp only [fillRow, List.length_map, List.zip_map_right, List.mapM_map]
  simp only [Function.comp_def, Prod.map, id, slotFor_moved]

/-- The notes on slots left empty do not tell places. -/
theorem fillNotes_moved (t : Table) (values : List Expression) :
    fillNotes t (values.map (Expression.moved f)) = fillNotes t values := by
  simp only [fillNotes, List.length_map, List.zip_map_right, reached_map, List.filter_map,
    List.map_map]
  simp only [Function.comp_def, Prod.map, id, slotFor_moved, Expression.isOperation_moved]

/-- Columns are selected by the words of the expressions. -/
theorem projection_moved (t : Table) (items : List Expression) :
    projection t (items.map (Expression.moved f)) = projection t items := by
  rw [projection, List.mapM_map, projected_moved, projection]

/-- The notes on operations do not tell places. -/
theorem projectionNotes_moved (t : Table) (items : List Expression) :
    projectionNotes t (items.map (Expression.moved f)) = projectionNotes t items := by
  simp only [projectionNotes, reached_map, projected_moved, List.filter_map, List.map_map]
  simp only [Function.comp_def, Expression.isOperation_moved]

/-- A statement has the same outcome wherever its tokens stand. -/
theorem execute_moved (policy : DuplicatePolicy) (store : TableStore) (statement : Statement) :
    execute policy store (statement.moved f) = execute policy store statement := by
  cases statement with
  | createTable name columns =>
    have hcolumns : ∀ definitions : List ColumnDefinition,
        (definitions.map (ColumnDefinition.moved f)).mapM ColumnDefinition.toColumn
          = definitions.mapM ColumnDefinition.toColumn := by
      intro definitions
      rw [List.mapM_map, ColumnDefinition.toColumn_moved]
    simp only [Statement.moved, execute, createTable]
    cases columns with
    | none => rfl
    | some definitions =>
      simp only [Option.map_some, Option.getD_some, hcolumns]
      rfl
  | insert table values =>
    have hname : (table.moved f).value = table.value := rfl
    simp only [Statement.moved, execute, insertRow, hname]
    cases store.getTable table.value with
    | error e => rfl
    | ok t =>
      cases values with
      | none => rfl
      | some values => simp only [Option.map_some, fillRow_moved, fillNotes_moved]
  | select items table =>
    simp only [Statement.moved, execute, selectColumns, readColumns, projection_moved,
      projectionNotes_moved]
    rfl

/-- Statements have the same outcome wherever their tokens stand. -/
theorem executeAll_moved (policy : DuplicatePolicy) (store : TableStore) (statements : List Statement) :
    executeAll policy store (statements.map (Statement.moved f)) = executeAll policy store statements := by
  induction statements generalizing store with
  | nil => rfl
  | cons statement rest ih =>
    rw [List.map_cons, executeAll, executeAll, execute_moved]
    simp only [ih]

end Moved

/-- A statement without the places of its tokens. -/
def Statement.unplaced (statement : Statement) : Statement := statement.moved fun _ => {}

namespace Session

/-- Two texts that are read as statements have, with a semicolon between them, the outcome of the first
and then, unless it fails, that of the second from where the first one leaves the tables: the answers one
behind the other or the first error, and the same tables. Where statements stand in a text makes no
difference to what they do. -/
theorem executeText_append (s : Session) {a b : String} {xs ys : List Statement}
    (ha : parseText a = .ok xs) (hb : parseText b = .ok ys) :
    s.executeText (a ++ ";" ++ b)
        = (s.executeText a).andThen (fun results store =>
            (Session.executeText { s with store } b).map (results ++ ·)) ∧
      (∀ x y : Statement, x.unplaced = y.unplaced → s.execute x = s.execute y) ∧
      ∀ (text : String) (found : List Statement), parseText text = .ok found →
        found.map Statement.unplaced = xs.map Statement.unplaced →
        s.executeText text = s.executeText a := by
  refine ⟨?_, fun x y h => ?_, fun text found hfound h => ?_⟩
  · obtain ⟨base, hboth⟩ := parseText_append_semicolon ha hb
    simp only [executeText, ha, hb, hboth, executeAll_append, executeAll_moved]
  · have hplace : ∀ z : Statement, s.execute z = s.execute z.unplaced :=
      fun z => (execute_moved _ s.policy s.store z).symm
    rw [hplace x, h, ← hplace y]
  · have hplace : ∀ zs : List Statement, executeAll s.policy s.store zs
        = executeAll s.policy s.store (zs.map Statement.unplaced) :=
      fun zs => (executeAll_moved _ s.policy s.store zs).symm
    simp only [executeText, hfound, ha]
    rw [hplace found, h, ← hplace xs]

/-- A table is created and filled by two texts as by one, up to the selection that fails in the second of
them, and a line of its own makes no difference to the first. -/
theorem executeText_append_failing :
    let s : Session := { policy := .refuse }
    let outcome := s.executeText
      ("create table t (a int)" ++ ";" ++ "insert into t values (7);\nselect a from u")
    outcome.answer = .error (.tableNotFound "u") ∧
      outcome = (s.executeText "create table t (a int)").andThen (fun results store =>
        (Session.executeText { s with store } "insert into t values (7);\nselect a from u").map
          (results ++ ·)) ∧
      s.executeText "\ncreate table t (a\tint)" = s.executeText "create table t (a int)" := by
  intro s outcome
  have hcreate : parseText "create table t (a int)"
      = .ok [.createTable ⟨.identifier, "t", ⟨0, 13⟩⟩
          (some [⟨⟨.identifier, "a", ⟨0, 16⟩⟩, ⟨.keyword, "int", ⟨0, 18⟩⟩⟩])] := by
    rw [parseText, TokenStream.ofText, TokenStream.ofLexer_eq_upTo (n := 30) (by decide)]
    decide +kernel
  have hline : parseText "\ncreate table t (a\tint)"
      = .ok [.createTable ⟨.identifier, "t", ⟨1, 13⟩⟩
          (some [⟨⟨.identifier, "a", ⟨1, 16⟩⟩, ⟨.keyword, "int", ⟨1, 18⟩⟩⟩])] := by
    rw [parseText, TokenStream.ofText, TokenStream.ofLexer_eq_upTo (n := 30) (by decide)]
    decide +kernel
  have hinsert : parseText "insert into t values (7);\nselect a from u"
      = .ok [.insert ⟨.identifier, "t", ⟨0, 12⟩⟩ (some [.literal ⟨.numeric, "7", ⟨0, 22⟩⟩]),
          .select [.literal ⟨.identifier, "a", ⟨1, 7⟩⟩] ⟨.identifier, "u", ⟨1, 14⟩⟩] := by
    rw [parseText, TokenStream.ofText, TokenStream.ofLexer_eq_upTo (n := 50) (by decide)]
    decide +kernel
  obtain ⟨hboth, -, hplaces⟩ := executeText_append s hcreate hinsert
  have houtcome : outcome = _ := hboth
  refine ⟨?_, hboth, hplaces _ _ hline rfl⟩
  rw [houtcome]
  simp only [executeText, hcreate, hinsert]
  decide +kernel

end Session

end SqlStore
