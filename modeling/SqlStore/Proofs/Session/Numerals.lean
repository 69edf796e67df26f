import SqlStore.Proofs.Session.Texts

/-! # Numerals of texts are integers

A number that is no signed 32-bit integer is refused when its text is read, so no statement of a text ever
comes upon one:

* **`NumeralsRead`** — answers that are no complaint about a numeral, and what they are made of;
* **`Session.executeText_numeralsRead`** — whatever a session has stored, a text is never answered by such a
  complaint. -/

namespace SqlStore

/-- Whether an answer is anything but a complaint about a numeral. -/
def NumeralsRead {α : Type} (answer : Except Error α) : Prop :=
  ∀ literal fault, answer ≠ .error (.malformedNumeral literal fault)

namespace NumeralsRead

variable {α β : Type}

/-- A value is no complaint. -/
theorem ok (a : α) : NumeralsRead (.ok a) := by
  simp [NumeralsRead]

/-- An error of another kind is none. -/
theorem error {e : Error} (h : ∀ literal fault, e ≠ .malformedNumeral literal fault) :
    NumeralsRead (.error e : Except Error α) :=
  fun literal fault heq => h literal fault (Except.error.inj heq)

/-- The error of an answer that is no complaint is none in another answer either. -/
theorem of_eq_error {answer : Except Error α} (h : NumeralsRead answer) {e : Error}
    (heq : answer = .error e) : NumeralsRead (.error e : Except Error β) :=
  error fun literal fault he => h literal fault (by rw [heq, he])

/-- What goes on from a value without a complaint has none. -/
theorem bind {answer : Except Error α} (h : NumeralsRead answer) {next : α → Except Error β}
    (hnext : ∀ a, NumeralsRead (next a)) : NumeralsRead (answer >>= next) := by
  cases answer with
  | ok a => exact hnext a
  | error e => exact h.of_eq_error rfl

/-- A value may be changed. -/
theorem map {answer : Except Error α} (h : NumeralsRead answer) (f : α → β) :
    NumeralsRead (answer.map f) := by
  cases answer with
  | ok a => exact ok (f a)
  | error e => exact h.of_eq_error rfl

/-- A list is turned into another without a complaint if its members are. -/
theorem mapM {xs : List α} {f : α → Except Error β} (h : ∀ x ∈ xs, NumeralsRead (f x)) :
    NumeralsRead (xs.mapM f) := by
  induction xs with
  | nil => exact ok []
  | cons x xs ih =>
    rw [List.mapM_cons]
    refine (h x List.mem_cons_self).bind fun y => ?_
    exact (ih fun z hz => h z (List.mem_cons_of_mem x hz)).bind fun ys => ok (y :: ys)

end NumeralsRead

/-! ## Reading tables -/

namespace TableStore

/-- A record is read without a complaint about a numeral. -/
theorem numeralsRead_readRecord {α : Type} (f : Format α) (bytes : Bytes) :
    NumeralsRead (readRecord f bytes) := by
  unfold readRecord
  cases f.readFront bytes with
  | ok a => exact .ok a
  | error fault => exact .error (by simp)

variable (s : TableStore) (name : String)

/-- A table is looked up without a complaint about a numeral. -/
theorem numeralsRead_getTable? : NumeralsRead (s.getTable? name) := by
  unfold getTable?
  split
  · exact .ok none
  · exact (numeralsRead_readRecord _ _).map some

/-- A table that is needed is missing or found without a complaint about a numeral. -/
theorem numeralsRead_getTable : NumeralsRead (s.getTable name) := by
  refine (s.numeralsRead_getTable? name).bind fun found => ?_
  split
  · exact .ok _
  · exact .error (by simp)

/-- Rows are read without a complaint about a numeral. -/
theorem numeralsRead_rows : NumeralsRead (s.rows name) :=
  .mapM fun _ _ => numeralsRead_readRecord _ _

/-- A row is added without a complaint about a numeral. -/
theorem numeralsRead_append (row : Row) : NumeralsRead (s.append name row) := by
  have hnext : NumeralsRead (s.nextRow name) := by
    unfold nextRow
    split
    · exact .ok 0
    · exact numeralsRead_readRecord _ _
  exact hnext.bind fun number => .ok _

end TableStore

/-! ## Statements -/

/-- The slot for a value is filled without a complaint about a numeral if the value is a chain of
literals. -/
theorem numeralsRead_slotFor (column : Column) {value : Expression} (h : value.LeftNested) :
    NumeralsRead (slotFor column value) := by
  cases value with
  | binary left operator right => exact .ok none
  | literal t =>
    have hread : ∃ v, Value.ofLiteral t = .ok v := by
      rcases h with hkind | hkind | ⟨hkind, n, hn⟩ <;> simp [Value.ofLiteral, hkind]
      exact ⟨_, by rw [hn]; rfl⟩
    obtain ⟨v, hv⟩ := hread
    simp only [slotFor, hv]
    split
    · next hfault => cases hfault
    · exact .error (by simp)
    · split
      · exact .ok _
      · exact .error (by simp)

/-- Selected columns are settled without a complaint about a numeral. -/
theorem numeralsRead_projection (t : Table) (items : List Expression) :
    NumeralsRead (projection t items) := by
  refine NumeralsRead.map (.mapM fun item _ => ?_) _
  unfold projected
  split
  · exact .ok none
  · split
    · split
      · exact .ok _
      · exact .error (by simp)
    · exact .error (by simp)

/-- A row is read without a complaint about a numeral. -/
theorem numeralsRead_projectRow (t : Table) (selected : List (Nat × Column)) (row : Row) :
    NumeralsRead (projectRow t selected row) := by
  refine .mapM fun c _ => ?_
  simp only [cellValue]
  split
  · next bytes _ =>
    cases Value.ofBytes c.2.type bytes with
    | ok v => exact .ok v
    | error fault => exact .error (by simp)
  · exact .error (by simp)

/-- A statement whose expressions are chains of literals is answered without a complaint about a
numeral. -/
theorem numeralsRead_execute (policy : DuplicatePolicy) (s : TableStore) {statement : Statement}
    (h : ∀ e ∈ statement.expressions, e.LeftNested) :
    NumeralsRead (execute policy s statement).answer := by
  cases statement with
  | createTable name columns =>
    have hcolumns : NumeralsRead ((columns.getD []).mapM ColumnDefinition.toColumn) := by
      refine .mapM fun d _ => ?_
      unfold ColumnDefinition.toColumn
      split
      · exact .ok _
      · exact .error (by simp)
    simp only [execute, createTable]
    split
    · next hfault => exact hcolumns.of_eq_error hfault
    · split
      · next hfault => exact (s.numeralsRead_getTable? _).of_eq_error hfault
      · exact .ok _
      · exact .error (by simp)
      · exact .ok _
  | insert table values =>
    simp only [execute, insertRow]
    split
    · next hfault => exact (s.numeralsRead_getTable _).of_eq_error hfault
    · exact .ok _
    · next t values _ =>
      have hrow : NumeralsRead (fillRow t values >>= s.append t.name) := by
        refine NumeralsRead.bind ?_ fun row => s.numeralsRead_append t.name row
        unfold fillRow
        split
        · refine .mapM fun pair hpair => numeralsRead_slotFor pair.1 ?_
          exact h pair.2 (List.of_mem_zip hpair).2
        · exact .error (by simp)
      split
      · next hfault => exact hrow.of_eq_error hfault
      · exact .ok _
  | select items table =>
    simp only [execute, selectColumns]
    split
    · next hfault => exact (s.numeralsRead_getTable _).of_eq_error hfault
    · next t _ =>
      refine (numeralsRead_projection t items).bind fun selected => ?_
      refine (s.numeralsRead_rows t.name).bind fun rows => ?_
      exact (NumeralsRead.mapM fun row _ => numeralsRead_projectRow t selected row).bind fun _ => .ok _

/-! ## Texts -/

/-- Statements one after the other are answered without a complaint about a numeral if each of them is. -/
theorem numeralsRead_executeAll (policy : DuplicatePolicy) (s : TableStore)
    {statements : List Statement}
    (h : ∀ statement ∈ statements, ∀ e ∈ statement.expressions, e.LeftNested) :
    NumeralsRead (executeAll policy s statements).answer := by
  induction statements generalizing s with
  | nil => exact .ok []
  | cons statement rest ih =>
    have hfirst := numeralsRead_execute policy s (h statement List.mem_cons_self)
    rw [executeAll, Outcome.andThen]
    split
    · next hfault => exact hfirst.of_eq_error hfault
    · exact (ih _ fun other hother => h other (List.mem_cons_of_mem _ hother)).map _

/-- Whatever a session has stored, a text is answered without a complaint about a numeral. -/
theorem Session.executeText_numeralsRead (s : Session) (text : String) :
    NumeralsRead (s.executeText text).answer := by
  unfold executeText
  split
  · exact .error (by simp)
  · next statements hparse =>
    refine numeralsRead_executeAll s.policy s.store fun statement hstatement => ?_
    obtain ⟨words, -, hclause⟩ := clause_of_parseText hparse statement hstatement
    exact hclause.leftNested

end SqlStore
