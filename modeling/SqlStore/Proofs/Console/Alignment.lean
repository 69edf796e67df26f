import SqlStore.Console.Report
import SqlStore.Proofs.Numeral
import SqlStore.Proofs.Results
import SqlStore.Proofs.Text.Utf8
import Mathlib.Data.List.Forall2

/-! # Printed tables are aligned

* **`Report.barred`** — cells between bars, which every line of a printed table is; `Report.barPlace` tells
  where its bars stand from the lengths of the cells alone;
* **`Report.Holds widths texts`** — every text has room in the width of its column. `Report.holds_widths`
  says it of the names and of every row;
* **`Report.Printable`** — an answer without too wide a column. `Report.exists_ofResult_iff` says that these
  are printed and no others;
* **`Report.InColumns`** — texts in columns between given places, each at the start of its column;
* **`Report.AlignedTable`** — a printed table whose lines have their bars at the same places;
* **`Report.ofResult_aligned`** — a selection is printed as such a table, and then its rows are counted. -/

namespace SqlStore.Report

/-! ## Cells between bars -/

/-- Cells with a bar in front of each of them and one behind the last. -/
def barred (bar : Char) (cells : List (List Char)) : List Char :=
  bar :: cells.flatMap (· ++ [bar])

/-- Where the bar in front of the `j`-th cell stands, or the one behind the last cell, if the cells have
these lengths. -/
def barPlace : List Nat → Nat → Nat
  | _, 0 => 0
  | [], _ + 1 => 0
  | length :: lengths, j + 1 => length + 1 + barPlace lengths j

variable {bar : Char} {cells : List (List Char)}

/-- Behind the first cell stand the others between their bars. -/
theorem barred_cons (bar : Char) (cell : List Char) (cells : List (List Char)) :
    barred bar (cell :: cells) = bar :: (cell ++ barred bar cells) := by
  simp [barred]

/-- Past a cell, the next bar is further on by its length and a bar. -/
theorem barPlace_succ {lengths : List Nat} {j length : Nat} (h : lengths[j]? = some length) :
    barPlace lengths (j + 1) = barPlace lengths j + length + 1 := by
  induction lengths generalizing j with
  | nil => cases h
  | cons first lengths ih =>
    cases j with
    | zero =>
      obtain rfl := Option.some.inj h
      rw [barPlace, barPlace, barPlace]
      omega
    | succ j =>
      have hothers := ih h
      rw [barPlace, hothers, barPlace]
      omega

/-- From a bar on, a line is the line of the cells behind it. -/
theorem drop_barred {j : Nat} (hj : j ≤ cells.length) :
    (barred bar cells).drop (barPlace (cells.map List.length) j) = barred bar (cells.drop j) := by
  -- induction on the cells; behind the first one, all places are further on by its length and a bar
  induction cells generalizing j with
  | nil =>
    obtain rfl := Nat.le_zero.1 hj
    rfl
  | cons cell cells ih =>
    cases j with
    | zero => rw [List.drop_zero, barPlace, List.drop_zero]
    | succ j =>
      have hplace : barPlace ((cell :: cells).map List.length) (j + 1)
          = cell.length + barPlace (cells.map List.length) j + 1 := by
        rw [List.map_cons, barPlace]
        omega
      rw [barred_cons, hplace, List.drop_succ_cons, List.drop_length_add_append, List.drop_succ_cons]
      exact ih (Nat.le_of_succ_le_succ hj)

/-- A bar stands in front of every cell and behind the last. -/
theorem getElem?_barred {j : Nat} (hj : j ≤ cells.length) :
    (barred bar cells)[barPlace (cells.map List.length) j]? = some bar := by
  rw [← List.head?_drop, drop_barred hj]
  rfl

/-- The last bar ends the line. -/
theorem length_barred (bar : Char) (cells : List (List Char)) :
    (barred bar cells).length = barPlace (cells.map List.length) cells.length + 1 := by
  have hbehind : (barred bar cells).drop (barPlace (cells.map List.length) cells.length) = [bar] := by
    rw [drop_barred (Nat.le_refl cells.length), List.drop_length]
    rfl
  have hlength := congrArg List.length hbehind
  rw [List.length_drop, List.length_singleton] at hlength
  omega

/-- Between two bars stands the cell. -/
theorem extract_barred {j : Nat} {cell : List Char} (hcell : cells[j]? = some cell) :
    (barred bar cells).extract (barPlace (cells.map List.length) j + 1)
      (barPlace (cells.map List.length) (j + 1)) = cell := by
  obtain ⟨hj, rfl⟩ := List.getElem?_eq_some_iff.1 hcell
  have hlength : (cells.map List.length)[j]? = some cells[j].length := by
    rw [List.getElem?_map, hcell, Option.map_some]
  have hwidth : barPlace (cells.map List.length) (j + 1) - (barPlace (cells.map List.length) j + 1)
      = cells[j].length := by
    rw [barPlace_succ hlength]
    omega
  rw [List.extract_eq_take_drop, hwidth, ← List.drop_drop, drop_barred (Nat.le_of_lt hj),
    List.drop_eq_getElem_cons hj, barred_cons, List.drop_succ_cons, List.drop_zero, List.take_left]

/-- Every character of a line is a bar in its place or belongs to a cell. -/
theorem place_or_mem_of_getElem?_barred {i : Nat} {c : Char} (h : (barred bar cells)[i]? = some c) :
    (∃ j ≤ cells.length, barPlace (cells.map List.length) j = i ∧ c = bar) ∨
      ∃ cell ∈ cells, c ∈ cell := by
  induction cells generalizing i with
  | nil =>
    cases i with
    | zero => exact .inl ⟨0, Nat.le_refl 0, rfl, (Option.some.inj h).symm⟩
    | succ i => cases h
  | cons cell cells ih =>
    cases i with
    | zero => exact .inl ⟨0, Nat.zero_le _, rfl, (Option.some.inj h).symm⟩
    | succ i =>
      rw [barred_cons, List.getElem?_cons_succ] at h
      rcases Nat.lt_or_ge i cell.length with hinside | hbehind
      · rw [List.getElem?_append_left hinside] at h
        exact .inr ⟨cell, List.mem_cons_self, List.mem_of_getElem? h⟩
      · rw [List.getElem?_append_right hbehind] at h
        obtain ⟨j, hj, hplace, hc⟩ | ⟨other, hother, hmem⟩ := ih h
        · refine .inl ⟨j + 1, Nat.succ_le_succ hj, ?_, hc⟩
          rw [List.map_cons, barPlace, hplace]
          omega
        · exact .inr ⟨other, List.mem_cons_of_mem _ hother, hmem⟩

/-! ## Widths -/

/-- Every text has room in the width of its column, counted in bytes. -/
def Holds (widths : List Nat) (texts : List String) : Prop :=
  List.Forall₂ (fun width text => byteLength text ≤ width) widths texts

/-- Wider columns hold the same texts. -/
theorem Holds.mono {narrow wide : List Nat} {texts : List String} (h : Holds narrow texts)
    (hle : List.Forall₂ (· ≤ ·) narrow wide) : Holds wide texts := by
  induction h generalizing wide with
  | nil =>
    cases hle
    exact .nil
  | cons hroom _ ih =>
    cases hle with
    | cons hle hothers => exact .cons (Nat.le_trans hroom hle) (ih hothers)

/-- No column becomes narrower by another row. -/
theorem le_widen (widths : List Nat) (texts : List String) :
    List.Forall₂ (· ≤ ·) widths (widen widths texts) := by
  fun_induction widen widths texts with
  | case1 => exact .nil
  | case2 => exact List.forall₂_refl _
  | case3 width widths text texts ih => exact .cons (Nat.le_max_left _ _) ih

/-- The columns hold the row for which they have been widened. -/
theorem holds_widen {widths : List Nat} {texts : List String} (h : texts.length = widths.length) :
    Holds (widen widths texts) texts := by
  fun_induction widen widths texts with
  | case1 =>
    obtain rfl := List.eq_nil_of_length_eq_zero h
    exact .nil
  | case2 widths =>
    obtain rfl := List.eq_nil_of_length_eq_zero h.symm
    exact .nil
  | case3 width widths text texts ih => exact .cons (Nat.le_max_right _ _) (ih (Nat.succ.inj h))

/-- What the columns hold they still hold when they have been widened for more rows. -/
theorem Holds.foldl_widen {widths : List Nat} {texts : List String} (h : Holds widths texts)
    (rows : List (List String)) : Holds (rows.foldl widen widths) texts := by
  induction rows generalizing widths with
  | nil => exact h
  | cons row rows ih => exact ih (h.mono (le_widen widths row))

/-- Widened for all rows, the columns hold every one of them. -/
theorem holds_foldl_widen {widths : List Nat} {rows : List (List String)}
    (hrows : ∀ row ∈ rows, row.length = widths.length) {row : List String} (hrow : row ∈ rows) :
    Holds (rows.foldl widen widths) row := by
  -- induction on the rows; the first one is held by the columns that are widened for it, and from then on
  induction rows generalizing widths with
  | nil => cases hrow
  | cons first rows ih =>
    have hfirst := hrows first List.mem_cons_self
    rw [List.foldl_cons]
    rcases List.mem_cons.1 hrow with rfl | hrow
    · exact (holds_widen hfirst).foldl_widen rows
    · have hsame : (widen widths first).length = widths.length := (le_widen widths first).length_eq.symm
      apply ih _ hrow
      intro other hother
      rw [hsame]
      exact hrows other (List.mem_cons_of_mem _ hother)

/-- The columns hold the names and every row. -/
theorem holds_widths {names : List String} {rows : List (List String)}
    (hrows : ∀ row ∈ rows, row.length = names.length) :
    ∀ texts ∈ names :: rows, Holds (widths names rows) texts := by
  have hstart : Holds (names.map fun name => max minWidth (byteLength name)) names := by
    rw [Holds, List.forall₂_map_left_iff, List.forall₂_same]
    intro name _
    exact Nat.le_max_right _ _
  rw [List.forall_mem_cons]
  refine ⟨hstart.foldl_widen rows, fun row hrow => holds_foldl_widen ?_ hrow⟩
  intro row hrow
  rw [List.length_map]
  exact hrows row hrow

/-! ## Lines -/

/-- A text filled up with `filler` to `width` characters. -/
def filled (filler : Char) (width : Nat) (text : String) : List Char :=
  text.toList ++ List.replicate (width - text.toList.length) filler

/-- A text is filled up to a width that is not too great. -/
theorem pad_eq_ok_iff {filler : Char} {width : Nat} {text : String} {cs : List Char} :
    pad filler width text = .ok cs ↔ width ≤ maxWidth ∧ filled filler width text = cs := by
  rw [pad]
  split
  · next hwidth => simp only [hwidth, true_and, Except.ok.injEq, filled]
  · next hwidth => simp only [hwidth, false_and, reduceCtorEq]

/-- The texts of a line, each between blanks and filled up to the width of its column. -/
def padded (widths : List Nat) (texts : List String) : List (List Char) :=
  (texts.zip widths).map fun (text, width) => ' ' :: filled ' ' width text ++ [' ']

/-- Dashes under columns of these widths. -/
def dashes (widths : List Nat) : List (List Char) := widths.map fun width => List.replicate (width + 2) '-'

/-- Without too wide a column, a line has its texts between bars. -/
theorem line_eq_ok {widths : List Nat} (h : ∀ width ∈ widths, width ≤ maxWidth) (texts : List String) :
    line widths texts = .ok (barred '|' (padded widths texts)) := by
  have hcells : (texts.zip widths).mapM (fun p => cell p.2 p.1) = .ok (padded widths texts) := by
    refine mapM_eq_ok_map fun p hmem => ?_
    have hwidth : p.2 ≤ maxWidth := h p.2 (List.of_mem_zip hmem).2
    rw [cell, pad_eq_ok_iff.2 ⟨hwidth, rfl⟩]
    rfl
  exact bind_eq_ok_iff.2 ⟨_, hcells, rfl⟩

/-- If no column is too wide for its dashes, the line under the names has them between its bars. -/
theorem rule_eq_ok {widths : List Nat} (h : ∀ width ∈ widths, width + 2 ≤ maxWidth) :
    rule widths = .ok (barred '+' (dashes widths)) := by
  have hcells : widths.mapM (fun width => pad '-' (width + 2) "") = .ok (dashes widths) :=
    mapM_eq_ok_map fun width hmem => pad_eq_ok_iff.2 ⟨h width hmem, rfl⟩
  exact bind_eq_ok_iff.2 ⟨_, hcells, rfl⟩

/-- There is a line under the names only if no column is too wide for its dashes. -/
theorem le_maxWidth_of_rule {widths : List Nat} {cs : List Char} (h : rule widths = .ok cs) :
    ∀ width ∈ widths, width + 2 ≤ maxWidth := by
  obtain ⟨cells, hcells, -⟩ := bind_eq_ok_iff.1 h
  have hall := forall₂_of_mapM_eq_ok hcells
  intro width hwidth
  obtain ⟨i, hi, rfl⟩ := List.getElem_of_mem hwidth
  exact (pad_eq_ok_iff.1 (hall.get hi (hall.length_eq ▸ hi))).1

/-- The dashes under a column are two more than its width. -/
theorem map_length_dashes (widths : List Nat) :
    (dashes widths).map List.length = widths.map (· + 2) := by
  rw [dashes, List.map_map]
  exact List.map_congr_left fun width _ => List.length_replicate

/-- A text for which there is room is filled up to the width of its column. No text has more characters
than bytes, so it does not run over. -/
theorem length_filled {width : Nat} {text : String} (h : byteLength text ≤ width) (filler : Char) :
    (filled filler width text).length = width := by
  have hchars : text.toList.length ≤ width := Nat.le_trans (Utf8.length_toList_le text) h
  rw [filled, List.length_append, List.length_replicate]
  omega

section

variable {widths : List Nat} {texts : List String}

/-- Texts for which there is room take up as much as the dashes under them. -/
theorem map_length_padded (h : Holds widths texts) :
    (padded widths texts).map List.length = widths.map (· + 2) := by
  induction h with
  | nil => rfl
  | cons hroom _ ih =>
    rw [padded, List.zip_cons_cons, List.map_cons, List.map_cons, ← padded, ih, List.map_cons,
      List.length_append, List.length_cons, length_filled hroom, List.length_singleton]

/-- There is one text for every column. -/
theorem length_padded (h : Holds widths texts) : (padded widths texts).length = widths.length := by
  have hlengths := congrArg List.length (map_length_padded h)
  rwa [List.length_map, List.length_map] at hlengths

/-- A text stands in full behind one blank, with blanks behind it. -/
theorem getElem?_padded (h : Holds widths texts) {j : Nat} {text : String}
    (htext : texts[j]? = some text) :
    ∃ blanks > 0, (padded widths texts)[j]?
      = some (' ' :: (text.toList ++ List.replicate blanks ' ')) := by
  induction h generalizing j with
  | nil => cases htext
  | @cons width first widths texts _ _ ih =>
    cases j with
    | zero =>
      obtain rfl := Option.some.inj htext
      refine ⟨width - first.toList.length + 1, Nat.succ_pos _, ?_⟩
      rw [padded, List.zip_cons_cons, List.map_cons, List.getElem?_cons_zero, List.replicate_succ',
        ← List.append_assoc]
      rfl
    | succ j => exact ih htext

/-- The last bar of a line ends it. -/
theorem length_line (h : Holds widths texts) :
    (barred '|' (padded widths texts)).length = barPlace (widths.map (· + 2)) widths.length + 1 := by
  rw [length_barred, map_length_padded h, length_padded h]

/-- The last bar of the line under the names stands below theirs. -/
theorem length_rule (widths : List Nat) :
    (barred '+' (dashes widths)).length = barPlace (widths.map (· + 2)) widths.length + 1 := by
  rw [length_barred, map_length_dashes, dashes, List.length_map]

/-! ## Columns of texts -/

/-- Texts in columns: a bar at each of the places, and each text at the start of its column with nothing but
blanks behind it. -/
structure InColumns (place : Nat → Nat) (texts : List String) (piece : List Char) : Prop where
  bar : ∀ j ≤ texts.length, piece[place j]? = some '|'
  column : ∀ j text, texts[j]? = some text → ∃ blanks > 0,
    piece.extract (place j + 1) (place (j + 1)) = ' ' :: (text.toList ++ List.replicate blanks ' ')

/-- A line that holds its texts has them in its columns. -/
theorem inColumns_line (h : Holds widths texts) :
    InColumns (barPlace (widths.map (· + 2))) texts (barred '|' (padded widths texts)) where
  bar := by
    intro j hj
    rw [← map_length_padded h]
    apply getElem?_barred
    rwa [length_padded h, h.length_eq]
  column := by
    intro j text htext
    obtain ⟨blanks, hpos, hcell⟩ := getElem?_padded h htext
    refine ⟨blanks, hpos, ?_⟩
    rw [← map_length_padded h, extract_barred hcell]

/-- The line under the names has its bars at these places and nowhere else. -/
theorem getElem?_rule_eq_some_plus_iff {i : Nat} :
    (barred '+' (dashes widths))[i]? = some '+'
      ↔ ∃ j ≤ widths.length, barPlace (widths.map (· + 2)) j = i := by
  rw [← map_length_dashes]
  constructor
  · intro h
    obtain ⟨j, hj, hplace, -⟩ | ⟨cell, hcell, hmem⟩ := place_or_mem_of_getElem?_barred h
    · rw [dashes, List.length_map] at hj
      exact ⟨j, hj, hplace⟩
    · obtain ⟨width, -, rfl⟩ := List.mem_map.1 hcell
      cases List.eq_of_mem_replicate hmem
  · rintro ⟨j, hj, rfl⟩
    apply getElem?_barred
    rwa [dashes, List.length_map]

/-- Everything else in it is a dash. -/
theorem eq_plus_or_eq_dash_of_mem_rule {c : Char} (h : c ∈ barred '+' (dashes widths)) :
    c = '+' ∨ c = '-' := by
  obtain ⟨i, hi⟩ := List.getElem?_of_mem h
  obtain ⟨-, -, -, hc⟩ | ⟨cell, hcell, hmem⟩ := place_or_mem_of_getElem?_barred hi
  · exact .inl hc
  · obtain ⟨width, -, rfl⟩ := List.mem_map.1 hcell
    exact .inr (List.eq_of_mem_replicate hmem)

end

/-! ## Printed tables -/

/-- A table in which the columns of all lines are the same: the `j`-th lies between the places of the `j`-th
bar and the next. -/
structure AlignedTable (place : Nat → Nat) (names : List String) (rows : List (List String))
    (header separator : List Char) (pieces : List (List Char)) : Prop where
  first : place 0 = 0
  increasing : ∀ j < names.length, place j < place (j + 1)
  length : ∀ line ∈ header :: separator :: pieces, line.length = place names.length + 1
  plus : ∀ i, separator[i]? = some '+' ↔ ∃ j ≤ names.length, place j = i
  dash : ∀ c ∈ separator, c = '+' ∨ c = '-'
  header : InColumns place names header
  pieces : List.Forall₂ (InColumns place) rows pieces

/-- Names and rows with one text for every name make such a table. -/
theorem alignedTable {names : List String} {rows : List (List String)}
    (hrows : ∀ row ∈ rows, row.length = names.length) :
    AlignedTable (barPlace ((widths names rows).map (· + 2))) names rows
      (barred '|' (padded (widths names rows) names)) (barred '+' (dashes (widths names rows)))
      (rows.map fun row => barred '|' (padded (widths names rows) row)) := by
  have hholds := holds_widths hrows
  have hcount : (widths names rows).length = names.length :=
    (hholds names List.mem_cons_self).length_eq
  constructor
  case first => rw [barPlace]
  case increasing =>
    intro j hj
    have hwidth : j < ((widths names rows).map (· + 2)).length := by rwa [List.length_map, hcount]
    rw [barPlace_succ (List.getElem?_eq_getElem hwidth)]
    omega
  case length =>
    rw [← hcount, List.forall_mem_cons, List.forall_mem_cons]
    refine ⟨length_line (hholds names List.mem_cons_self), length_rule _, fun piece hpiece => ?_⟩
    obtain ⟨row, hrow, rfl⟩ := List.mem_map.1 hpiece
    exact length_line (hholds row (List.mem_cons_of_mem _ hrow))
  case plus =>
    intro i
    rw [← hcount]
    exact getElem?_rule_eq_some_plus_iff
  case dash => exact fun c => eq_plus_or_eq_dash_of_mem_rule
  case header => exact inColumns_line (hholds names List.mem_cons_self)
  case pieces =>
    rw [List.forall₂_map_right_iff, List.forall₂_same]
    exact fun row hrow => inColumns_line (hholds row (List.mem_cons_of_mem _ hrow))

/-- The last line is the number of rows in brackets. -/
theorem footer_eq (count : Nat) :
    footer count = '(' :: (Nat.toDigits 10 count ++ (if count = 1 then " row)" else " rows)").toList) := by
  have hdigits : (toString count).toList = Nat.toDigits 10 count := Nat.toList_repr
  rw [footer]
  split <;> simp only [String.toList_append, hdigits, List.append_assoc] <;> rfl

/-- It is one line. -/
theorem newline_notMem_footer (count : Nat) : '\n' ∉ footer count := by
  have hdigits : '\n' ∉ Nat.toDigits 10 count :=
    fun h => absurd (Numeral.isDigit_of_mem_decimal _ h) (by decide)
  rw [footer_eq]
  split <;> simp [hdigits]

/-- A selection without too wide a column has these lines. -/
theorem selectionLines_eq_ok {names : List String} {rows : List (List String)}
    (h : ∀ width ∈ widths names rows, width + 2 ≤ maxWidth) :
    selectionLines names rows = .ok ((barred '|' (padded (widths names rows) names) ::
      barred '+' (dashes (widths names rows)) ::
        rows.map fun row => barred '|' (padded (widths names rows) row)) ++ [footer rows.length]) := by
  have hline := line_eq_ok fun width hwidth => Nat.le_trans (Nat.le_add_right width 2) (h width hwidth)
  have hpieces : rows.mapM (line (widths names rows))
      = .ok (rows.map fun row => barred '|' (padded (widths names rows) row)) :=
    mapM_eq_ok_map fun row _ => hline row
  exact bind_eq_ok_iff.2 ⟨_, hline names, bind_eq_ok_iff.2 ⟨_, rule_eq_ok h,
    bind_eq_ok_iff.2 ⟨_, hpieces, rfl⟩⟩⟩

/-- It is printed as these lines, every one of them ended. -/
theorem selection_eq_ok {names : List String} {rows : List (List String)}
    (h : ∀ width ∈ widths names rows, width + 2 ≤ maxWidth) :
    ∃ text, selection names rows = .ok text ∧ text.toList =
      (barred '|' (padded (widths names rows) names) :: barred '+' (dashes (widths names rows)) ::
        rows.map fun row => barred '|' (padded (widths names rows) row)).flatMap (· ++ ['\n'])
        ++ footer rows.length ++ ['\n'] := by
  refine ⟨_, bind_eq_ok_iff.2 ⟨_, selectionLines_eq_ok h, rfl⟩, ?_⟩
  rw [String.toList_ofList, List.flatMap_append, List.flatMap_singleton, List.append_assoc]

/-- Whether an answer has no column that is too wide for the dashes under it. -/
def Printable : ResultSet → Prop
  | .created _ => True
  | .inserted _ => True
  | .selected columns rows =>
    ∀ width ∈ widths (columns.map Column.name) (rows.map (·.map Value.written)), width + 2 ≤ maxWidth

/-- The answers without too wide a column are printed, and no others. -/
theorem exists_ofResult_iff {result : ResultSet} :
    (∃ text, ofResult result = .ok text) ↔ Printable result := by
  cases result with
  | created table => exact iff_of_true ⟨_, rfl⟩ trivial
  | inserted count => exact iff_of_true ⟨_, rfl⟩ trivial
  | selected columns rows =>
    constructor
    · rintro ⟨text, htext⟩
      obtain ⟨lines, hlines, -⟩ := bind_eq_ok_iff.1 htext
      obtain ⟨header, -, hothers⟩ := bind_eq_ok_iff.1 hlines
      obtain ⟨separator, hseparator, -⟩ := bind_eq_ok_iff.1 hothers
      exact le_maxWidth_of_rule hseparator
    · intro h
      obtain ⟨text, htext, -⟩ := selection_eq_ok h
      exact ⟨text, htext⟩

/-- **Selections are printed as aligned tables.** A selection is printed exactly if no column is too wide for
the dashes under it. Whatever the names and values are, they are then the texts of an aligned table, the names
above its separator and every row in a piece of its own. What is printed is this table, every piece of it
ended, and one more line with the number of rows. -/
theorem ofResult_aligned (columns : List Column) (rows : List (List Value))
    (hrows : ∀ row ∈ rows, row.length = columns.length) :
    ((∃ text, ofResult (.selected columns rows) = .ok text) ↔
      ∀ width ∈ widths (columns.map Column.name) (rows.map (·.map Value.written)),
        width + 2 ≤ maxWidth) ∧
    ∀ text, ofResult (.selected columns rows) = .ok text → ∃ place header separator pieces last,
      AlignedTable place (columns.map Column.name) (rows.map (·.map Value.written)) header separator
        pieces ∧
      text.toList = (header :: separator :: pieces).flatMap (· ++ ['\n']) ++ last ++ ['\n'] ∧
      last = '(' :: (Nat.toDigits 10 rows.length
        ++ (if rows.length = 1 then " row)" else " rows)").toList) ∧
      '\n' ∉ last := by
  refine ⟨exists_ofResult_iff, fun text htext => ?_⟩
  have htexts : ∀ texts ∈ rows.map (·.map Value.written),
      texts.length = (columns.map Column.name).length := by
    intro texts htexts
    obtain ⟨row, hrow, rfl⟩ := List.mem_map.1 htexts
    rw [List.length_map, List.length_map, hrows row hrow]
  obtain ⟨printed, hok, hprinted⟩ := selection_eq_ok (exists_ofResult_iff.1 ⟨text, htext⟩)
  obtain rfl : printed = text := Except.ok.inj (hok.symm.trans htext)
  rw [List.length_map] at hprinted
  exact ⟨_, _, _, _, _, alignedTable htexts, hprinted, footer_eq rows.length, newline_notMem_footer _⟩

/-- Names and values of any script, a bar in a value, and a value of two lines. -/
theorem ofResult_aligned_scripts :
    ∃ text place header separator pieces last,
      ofResult (.selected [⟨"größe", .int⟩, ⟨"имя", .text⟩]
          [[.int (-1), .text "a|b"], [.int 7, .text "愛\nx"]]) = .ok text ∧
      AlignedTable place ["größe", "имя"] [["-1", "a|b"], ["7", "愛\nx"]] header separator pieces ∧
      text.toList = (header :: separator :: pieces).flatMap (· ++ ['\n']) ++ last ++ ['\n'] ∧
      last = "(2 rows)".toList ∧ '\n' ∉ last := by
  obtain ⟨hprinted, haligned⟩ := ofResult_aligned [⟨"größe", .int⟩, ⟨"имя", .text⟩]
    [[.int (-1), .text "a|b"], [.int 7, .text "愛\nx"]] (by decide)
  obtain ⟨text, htext⟩ := hprinted.2 (by decide)
  obtain ⟨place, header, separator, pieces, last, htable⟩ := haligned text htext
  exact ⟨text, place, header, separator, pieces, last, htext, htable⟩

example :
    ofResult (.selected [⟨"id", .int⟩, ⟨"größe", .text⟩] [[.int 105, .text "dan"], [.int 7, .text "愛|"]])
      = .ok "| id  | größe   |\n+-----+---------+\n| 105 | dan     |\n| 7   | 愛|      |\n(2 rows)\n" := by
  decide

end SqlStore.Report
