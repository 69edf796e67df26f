import SqlStore.Proofs.Session.Slots
import SqlStore.Session

/-! # Lists of selected items

To select one list of items and then another is to select both and to put the answers side by side,
whatever the store holds:

* **`projection_append_eq_ok_iff`** — the columns of both lists, which the definition of the table
  settles;
* **`mapM_projectRow_append_eq_ok_iff`** — their values in every row;
* **`ResultSet.HasRows`** — so many rows, with a value for each column in every one of them;
* **`Session.select_append`** — the two passes stay aligned. -/

namespace SqlStore

/-! ## Columns and rows -/

variable {t : Table} {xs ys items : List Expression} {sx sy selected : List (Nat × Column)}

/-- What a list of items selects. -/
theorem projection_eq_ok_iff :
    projection t items = .ok selected ↔
      ∃ found, items.mapM (projected t) = .ok found ∧ found.filterMap id = selected := by
  rw [projection]
  cases items.mapM (projected t) <;> simp [Except.map]

/-- Two lists of items select what each selects. -/
theorem projection_append_eq_ok_iff :
    projection t (xs ++ ys) = .ok selected ↔
      ∃ sx sy, projection t xs = .ok sx ∧ projection t ys = .ok sy ∧ selected = sx ++ sy := by
  simp only [projection_eq_ok_iff, mapM_append_eq_ok_iff]
  constructor
  · rintro ⟨_, ⟨front, back, hfront, hback, rfl⟩, rfl⟩
    exact ⟨_, _, ⟨front, hfront, rfl⟩, ⟨back, hback, rfl⟩, List.filterMap_append⟩
  · rintro ⟨_, _, ⟨front, hfront, rfl⟩, ⟨back, hback, rfl⟩, rfl⟩
    exact ⟨_, ⟨front, back, hfront, hback, rfl⟩, List.filterMap_append⟩

/-- The values of every row in the columns of two selections are those in the columns of each, row by
row. -/
theorem mapM_projectRow_append_eq_ok_iff {rows : List Row} {values : List (List Value)} :
    rows.mapM (projectRow t (sx ++ sy)) = .ok values ↔
      ∃ vx vy, rows.mapM (projectRow t sx) = .ok vx ∧ rows.mapM (projectRow t sy) = .ok vy ∧
        values = List.zipWith (· ++ ·) vx vy := by
  induction rows generalizing values with
  | nil => simp [pure, Except.pure, eq_comm]
  | cons row rows ih =>
    -- a row is read in full before the next one, so the failures of the two selections interleave
    simp only [mapM_cons_eq_ok_iff, ih]
    constructor
    · rintro ⟨_, _, hrow, ⟨vx, vy, hvx, hvy, rfl⟩, rfl⟩
      obtain ⟨x, y, hx, hy, rfl⟩ := mapM_append_eq_ok_iff.1 hrow
      exact ⟨_, _, ⟨x, vx, hx, hvx, rfl⟩, ⟨y, vy, hy, hvy, rfl⟩, rfl⟩
    · rintro ⟨_, _, ⟨x, vx, hx, hvx, rfl⟩, ⟨y, vy, hy, hvy, rfl⟩, rfl⟩
      exact ⟨_, _, mapM_append_eq_ok_iff.2 ⟨x, y, hx, hy, rfl⟩, ⟨vx, vy, hvx, hvy, rfl⟩, rfl⟩

/-! ## Answers -/

/-- Whether a result set has so many rows, and in each row a value for every column. -/
def ResultSet.HasRows (count : Nat) : ResultSet → Prop
  | .selected columns rows => rows.length = count ∧ ∀ row ∈ rows, row.length = columns.length
  | _ => False

/-- What a selection of a table answers. -/
theorem readColumns_eq_ok_iff {store : TableStore} {result : ResultSet} :
    readColumns store t items = .ok result ↔
      ∃ selected rows values, projection t items = .ok selected ∧ store.rows t.name = .ok rows ∧
        rows.mapM (projectRow t selected) = .ok values ∧
        result = .selected (selected.map (·.2)) values := by
  simp only [readColumns, bind_eq_ok_iff, pure, Except.pure, Except.ok.injEq]
  constructor
  · rintro ⟨selected, hselected, rows, hrows, values, hvalues, rfl⟩
    exact ⟨selected, rows, values, hselected, hrows, hvalues, rfl⟩
  · rintro ⟨selected, rows, values, hselected, hrows, hvalues, rfl⟩
    exact ⟨selected, hselected, rows, hrows, values, hvalues, rfl⟩

/-- Two lists of items are answered with the answers to each, side by side. -/
theorem readColumns_append_eq_ok_iff {store : TableStore} {result : ResultSet} :
    readColumns store t (xs ++ ys) = .ok result ↔
      ∃ columns rows columns' rows',
        readColumns store t xs = .ok (.selected columns rows) ∧
        readColumns store t ys = .ok (.selected columns' rows') ∧
        result = .selected (columns ++ columns') (List.zipWith (· ++ ·) rows rows') := by
  simp only [readColumns_eq_ok_iff, projection_append_eq_ok_iff]
  constructor
  · rintro ⟨_, stored, _, ⟨sx, sy, hsx, hsy, rfl⟩, hstored, hvalues, rfl⟩
    obtain ⟨vx, vy, hvx, hvy, rfl⟩ := mapM_projectRow_append_eq_ok_iff.1 hvalues
    refine ⟨_, _, _, _, ⟨sx, stored, vx, hsx, hstored, hvx, rfl⟩,
      ⟨sy, stored, vy, hsy, hstored, hvy, rfl⟩, ?_⟩
    rw [List.map_append]
  · rintro ⟨_, vx, _, vy, ⟨sx, stored, _, hsx, hstored, hvx, hx⟩,
      ⟨sy, stored', _, hsy, hstored', hvy, hy⟩, rfl⟩
    -- both selections read the same rows
    obtain rfl : stored = stored' := Except.ok.inj (hstored.symm.trans hstored')
    cases hx
    cases hy
    refine ⟨_, stored, _, ⟨sx, sy, hsx, hsy, rfl⟩, hstored,
      mapM_projectRow_append_eq_ok_iff.2 ⟨vx, vy, hvx, hvy, rfl⟩, ?_⟩
    rw [List.map_append]

/-- A selection answers with a row for every stored row, and in each row with a value for every
column. -/
theorem hasRows_of_readColumns {store : TableStore} {result : ResultSet}
    (h : readColumns store t items = .ok result) :
    result.HasRows (store.bytes.scanPrefix (Key.rows t.name)).length := by
  obtain ⟨selected, stored, values, -, hstored, hvalues, rfl⟩ := readColumns_eq_ok_iff.1 h
  obtain ⟨hcount, hread⟩ := of_mapM_eq_ok hvalues
  refine ⟨hcount.trans (of_mapM_eq_ok hstored).1, fun row hrow => ?_⟩
  obtain ⟨cells, -, hcells⟩ := hread row hrow
  rw [(of_mapM_eq_ok hcells).1, List.length_map]

namespace Session

/-- A selection succeeds if its table is found and can be read. -/
theorem execute_select_eq_ok_iff {s : Session} {table : Token} {result : ResultSet} :
    (s.execute (.select items table)).answer = .ok result ↔
      ∃ t, s.store.getTable table.value = .ok t ∧ readColumns s.store t items = .ok result := by
  simp only [execute, SqlStore.execute, selectColumns]
  cases s.store.getTable table.value <;> simp [Outcome.unchanged]

/-- To select two lists of items from a table succeeds exactly if to select each does. The columns are
then those of both lists, every row is the row of the first list followed by that of the second, and
all three answers have one row for each stored row, with a value for every column. The store may hold
anything. -/
theorem select_append (s : Session) (table : Token) (xs ys : List Expression) :
    ((∃ result, (s.execute (.select (xs ++ ys) table)).answer = .ok result) ↔
      (∃ result, (s.execute (.select xs table)).answer = .ok result) ∧
        ∃ result, (s.execute (.select ys table)).answer = .ok result) ∧
    ∀ result, (s.execute (.select (xs ++ ys) table)).answer = .ok result ↔
      ∃ t columns rows columns' rows', s.store.getTable table.value = .ok t ∧
        (s.execute (.select xs table)).answer = .ok (.selected columns rows) ∧
        (s.execute (.select ys table)).answer = .ok (.selected columns' rows') ∧
        result = .selected (columns ++ columns') (List.zipWith (· ++ ·) rows rows') ∧
        let stored := (s.store.bytes.scanPrefix (Key.rows t.name)).length
        (ResultSet.selected columns rows).HasRows stored ∧
          (ResultSet.selected columns' rows').HasRows stored ∧ result.HasRows stored := by
  simp only [execute_select_eq_ok_iff]
  constructor
  · constructor
    · rintro ⟨_, t, ht, h⟩
      obtain ⟨_, _, _, _, hxs, hys, -⟩ := readColumns_append_eq_ok_iff.1 h
      exact ⟨⟨_, t, ht, hxs⟩, ⟨_, t, ht, hys⟩⟩
    · rintro ⟨⟨_, t, ht, hxs⟩, ⟨_, t', ht', hys⟩⟩
      obtain rfl : t = t' := Except.ok.inj (ht.symm.trans ht')
      obtain ⟨_, _, _, -, -, -, rfl⟩ := readColumns_eq_ok_iff.1 hxs
      obtain ⟨_, _, _, -, -, -, rfl⟩ := readColumns_eq_ok_iff.1 hys
      exact ⟨_, t, ht, readColumns_append_eq_ok_iff.2 ⟨_, _, _, _, hxs, hys, rfl⟩⟩
  · intro result
    constructor
    · rintro ⟨t, ht, h⟩
      obtain ⟨columns, rows, columns', rows', hxs, hys, hresult⟩ :=
        readColumns_append_eq_ok_iff.1 h
      exact ⟨t, columns, rows, columns', rows', ht, ⟨t, ht, hxs⟩, ⟨t, ht, hys⟩, hresult,
        hasRows_of_readColumns hxs, hasRows_of_readColumns hys, hasRows_of_readColumns h⟩
    · rintro ⟨t, columns, rows, columns', rows', ht, ⟨tx, htx, hxs⟩, ⟨ty, hty, hys⟩, rfl, -⟩
      obtain rfl : t = tx := Except.ok.inj (ht.symm.trans htx)
      obtain rfl : t = ty := Except.ok.inj (ht.symm.trans hty)
      exact ⟨t, ht, readColumns_append_eq_ok_iff.2 ⟨_, _, _, _, hxs, hys, rfl⟩⟩

end Session

end SqlStore
