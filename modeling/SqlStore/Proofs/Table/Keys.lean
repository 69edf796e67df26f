import SqlStore.Proofs.Record.RoundTrip

/-! # Keys of a table store

Tables, rows and counters are told apart by the bytes of their keys:

* **`Key.toBytes_injective`** — no two keys have the same bytes;
* **`Key.tables_prefix_iff`** and **`Key.rows_prefix_iff`** — the keys of all tables, and of the rows
  of one table, are those with a common beginning, also where one name begins with another;
* **`Key.row_lt_row_iff`** — the keys of a table's rows are in the order of the rows;
* **`Key.toBytes_separates`** — all of it together.

It is about keys that fit (`Key.Fits`): their names and numbers are written in full. -/

namespace SqlStore

/-! ## Formats as prefix codes -/

/-- Written values are told apart by their bytes, also where others follow. -/
theorem Format.ReadsBack.append_inj {α : Type} {f : Format α} {fits : α → Prop}
    (h : f.ReadsBack fits) {x y : α} (hx : fits x) (hy : fits y) {rest rest' : Bytes}
    (heq : f.write x ++ rest = f.write y ++ rest') : x = y ∧ rest = rest' := by
  have hread := h x rest hx
  rw [heq, h y rest' hy, Except.ok.injEq, Prod.mk.injEq] at hread
  exact ⟨hread.1.symm, hread.2.symm⟩

/-! ## Keys -/

namespace Key

/-- Whether a key is written in full: the length of its name and the number of its row are. -/
def Fits : Key → Prop
  | .table name => Text.Fits name
  | .row name number => Text.Fits name ∧ number < 2 ^ 64
  | .nextRow name => Text.Fits name

/-- Keys of different kinds differ in what they begin with. -/
theorem kind_append_inj {m n : Nat} (hm : m < 256 ^ 4) (hn : n < 256 ^ 4) {rest rest' : Bytes}
    (h : kind m ++ rest = kind n ++ rest') : m = n ∧ rest = rest' :=
  (Format.readsBack_natural 4).append_inj hm hn h

/-- Names are told apart, whatever follows them. -/
theorem name_append_inj {name other : String} (h : Text.Fits name) (h' : Text.Fits other)
    {rest rest' : Bytes}
    (heq : Format.text.write name ++ rest = Format.text.write other ++ rest') :
    name = other ∧ rest = rest' :=
  Format.readsBack_text.append_inj h h' heq

/-- The numbers of rows are written in full with eight bytes. -/
theorem number_mod {n : Nat} (h : n < 2 ^ 64) : n % 256 ^ 8 = n :=
  Nat.mod_eq_of_lt (Nat.lt_of_lt_of_le h (by decide))

/-- Rows are told apart by their numbers. -/
theorem number_inj {m n : Nat} (hm : m < 2 ^ 64) (hn : n < 2 ^ 64)
    (h : Format.block.write (bigEndian 8 m) = Format.block.write (bigEndian 8 n)) : m = n := by
  have hlen : ∀ k, (bigEndian 8 k).length < 2 ^ 64 := fun k => by
    rw [length_bigEndian]
    decide
  have hbytes : bigEndian 8 m = bigEndian 8 n :=
    (Format.readsBack_block.append_inj (hlen m) (hlen n) (congrArg (· ++ []) h)).1
  have hnumber := congrArg ofBigEndian hbytes
  rw [ofBigEndian_bigEndian, ofBigEndian_bigEndian] at hnumber
  rwa [number_mod hm, number_mod hn] at hnumber

/-- The number of a key's kind. -/
def kindNumber : Key → Nat
  | .table _ => 0
  | .row _ _ => 1
  | .nextRow _ => 2

/-- The name in a key. -/
def name : Key → String
  | .table name => name
  | .row name _ => name
  | .nextRow name => name

/-- What follows the name in a key. -/
def tail : Key → Bytes
  | .row _ number => Format.block.write (bigEndian 8 number)
  | _ => []

/-- The bytes of a key are its kind, its name and what follows the name. -/
theorem toBytes_eq (key : Key) :
    key.toBytes = kind key.kindNumber ++ (Format.text.write key.name ++ key.tail) := by
  cases key with
  | table name => simp [toBytes, tables, kindNumber, Key.name, tail]
  | row name number => simp [toBytes, rows, kindNumber, Key.name, tail]
  | nextRow name => simp [toBytes, kindNumber, Key.name, tail]

/-- The number of a kind is written in full. -/
theorem kindNumber_lt (key : Key) : key.kindNumber < 256 ^ 4 := by
  cases key <;> simp [kindNumber]

/-- The name of a key that fits is written in full. -/
theorem Fits.name {key : Key} (h : key.Fits) : Text.Fits key.name := by
  cases key with
  | table name => exact h
  | row name number => exact h.1
  | nextRow name => exact h

/-- No two keys have the same bytes. -/
theorem toBytes_injective {key other : Key} (h : key.Fits) (h' : other.Fits)
    (heq : key.toBytes = other.toBytes) : key = other := by
  -- kind, name and tail are told apart one after the other
  rw [toBytes_eq, toBytes_eq] at heq
  obtain ⟨hkind, hrest⟩ := kind_append_inj key.kindNumber_lt other.kindNumber_lt heq
  obtain ⟨hname, htail⟩ := name_append_inj h.name h'.name hrest
  cases key with
  | table name => cases other <;> simp_all [kindNumber, Key.name]
  | nextRow name => cases other <;> simp_all [kindNumber, Key.name]
  | row name number =>
    cases other with
    | table other => simp [kindNumber] at hkind
    | nextRow other => simp [kindNumber] at hkind
    | row other number' =>
      have hnumber : number = number' := number_inj h.2 h'.2 htail
      rw [hnumber]
      exact congrArg (Key.row · number') hname

/-- The keys of tables are those that begin as the keys of all tables do. -/
theorem tables_prefix_iff (key : Key) : tables <+: key.toBytes ↔ ∃ name, key = .table name := by
  constructor
  · rintro ⟨rest, hrest⟩
    rw [toBytes_eq, tables] at hrest
    obtain ⟨hkind, -⟩ := kind_append_inj (by decide) key.kindNumber_lt hrest
    cases key with
    | table name => exact ⟨name, rfl⟩
    | row name number => simp [kindNumber] at hkind
    | nextRow name => simp [kindNumber] at hkind
  · rintro ⟨name, rfl⟩
    exact List.prefix_append _ _

/-- Whether a key is that of a row of the table called `name`. -/
def IsRowOf (name : String) : Key → Prop
  | .row other _ => other = name
  | _ => False

instance (name : String) : DecidablePred (IsRowOf name)
  | .table _ => .isFalse id
  | .row other _ => inferInstanceAs (Decidable (other = name))
  | .nextRow _ => .isFalse id

/-- The keys of a table's rows are those that begin as the keys of all its rows do. -/
theorem rows_prefix_iff {name : String} {key : Key} (h : Text.Fits name) (h' : key.Fits) :
    rows name <+: key.toBytes ↔ key.IsRowOf name := by
  constructor
  · rintro ⟨rest, hrest⟩
    -- the whole name is read, so a longer name that begins with it is another one
    rw [toBytes_eq, rows, List.append_assoc] at hrest
    obtain ⟨hkind, hnames⟩ := kind_append_inj (by decide) key.kindNumber_lt hrest
    obtain ⟨hname, -⟩ := name_append_inj h h'.name hnames
    cases key with
    | table other => simp [kindNumber] at hkind
    | row other number => exact hname.symm
    | nextRow other => simp [kindNumber] at hkind
  · intro hrow
    cases key with
    | table other => exact hrow.elim
    | row other number => exact hrow ▸ List.prefix_append _ _
    | nextRow other => exact hrow.elim

/-- The keys of a table's rows are in the order of the rows. -/
theorem row_lt_row (name : String) {m n : Nat} (hn : n < 2 ^ 64) (h : m < n) :
    (Key.row name m).toBytes < (Key.row name n).toBytes := by
  have hnumber : bigEndian 8 m < bigEndian 8 n := by
    apply bigEndian_lt
    rwa [number_mod (Nat.lt_trans h hn), number_mod hn]
  simp only [toBytes, Format.block, length_bigEndian]
  exact List.append_left_lt (List.append_left_lt hnumber)

/-- No other order of the rows is that of their keys. -/
theorem row_lt_row_iff (name : String) {m n : Nat} (hm : m < 2 ^ 64) (hn : n < 2 ^ 64) :
    (Key.row name m).toBytes < (Key.row name n).toBytes ↔ m < n := by
  refine ⟨fun hlt => Nat.lt_of_not_le fun hle => ?_, row_lt_row name hn⟩
  rcases Nat.lt_or_eq_of_le hle with hgt | rfl
  · exact List.lt_asymm hlt (row_lt_row name hm hgt)
  · exact List.lt_irrefl _ hlt

/-- The keys of a table's rows are those with its name in which a row is numbered. -/
theorem isRowOf_iff {name : String} {key : Key} :
    key.IsRowOf name ↔ ∃ number, key = .row name number := by
  cases key <;> simp [IsRowOf]

/-- **The bytes of keys tell them apart.** They differ for all keys that fit, of whatever kinds these are.
What the keys of all rows of a table begin with, no other key begins with, also where one name begins with
another, and so with what the keys of all tables begin with. And the rows of a table are in the order of
their keys, also where a number carries over into the next byte. -/
theorem toBytes_separates :
    (∀ key other : Key, key.Fits → other.Fits → (key.toBytes = other.toBytes ↔ key = other)) ∧
    (∀ (name : String) (key : Key), Text.Fits name → key.Fits →
      (rows name <+: key.toBytes ↔ ∃ number, key = .row name number)) ∧
    (∀ key : Key, tables <+: key.toBytes ↔ ∃ name, key = .table name) ∧
    ∀ (name : String) (m n : Nat), m < 2 ^ 64 → n < 2 ^ 64 →
      ((Key.row name m).toBytes < (Key.row name n).toBytes ↔ m < n) := by
  refine ⟨?_, ?_, tables_prefix_iff, fun name m n => row_lt_row_iff name⟩
  · intro key other hkey hother
    exact ⟨toBytes_injective hkey hother, congrArg toBytes⟩
  · intro name key hname hkey
    exact (rows_prefix_iff hname hkey).trans isRowOf_iff

/-- A table and its counter, a name that begins with another, and a number that carries over. -/
theorem toBytes_separates_carry :
    (Key.table "a").toBytes ≠ (Key.nextRow "a").toBytes ∧
      ¬ rows "a" <+: (Key.row "ab" 0).toBytes ∧
      (Key.row "a" 255).toBytes < (Key.row "a" 256).toBytes := by
  obtain ⟨hbytes, hrows, -, horder⟩ := toBytes_separates
  refine ⟨?_, ?_, (horder "a" 255 256 (by decide) (by decide)).2 (by decide)⟩
  · intro hsame
    have hname : Text.Fits "a" := by decide
    cases (hbytes (.table "a") (.nextRow "a") hname hname).1 hsame
  · intro hbegins
    obtain ⟨number, hkey⟩ := (hrows "a" (.row "ab" 0) (by decide) ⟨by decide, by decide⟩).1 hbegins
    exact absurd (Key.row.inj hkey).1 (by decide)

end Key

end SqlStore
