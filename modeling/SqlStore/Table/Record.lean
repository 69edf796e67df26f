import SqlStore.Record
import SqlStore.Table

/-! # Stored tables and rows

The formats of what a table store keeps, and the keys it is kept under:

* **`Table.format`** — a table's name and its columns, each a name and the index of its type;
* **`Row.format`** — a row's slots, each empty or a block of bytes;
* **`rowCounter`** — the number of rows appended since a table was last defined;
* **`Key`** and **`Key.toBytes`** — one key for each table, one for each of its rows, and one for its
  counter;
* **`Key.tables`** and **`Key.rows`** — what the keys of all tables, and of all rows of one table,
  begin with.

The row's number in its key has the most significant byte first, so the order of the keys is the
order of the rows. -/

namespace SqlStore

/-! ## Records -/

/-- A column: its name and the index of its type. -/
def Column.format : Format Column :=
  (Format.text.pair (Format.choice [ColumnType.int, ColumnType.text])).imap
    (fun (name, type) => ⟨name, type⟩) (fun c => (c.name, c.type))

/-- A table: its name and its columns. -/
def Table.format : Format Table :=
  (Format.text.pair (Format.list Column.format)).imap
    (fun (name, columns) => ⟨name, columns⟩) (fun t => (t.name, t.columns))

/-- A row: its slots. -/
def Row.format : Format Row := Format.list (Format.optional Format.block)

/-- The number of rows appended to a table so far, which is the number of its next row. It has eight
bytes and starts again where they overflow. -/
def rowCounter : Format Nat := Format.natural 8

/-! ## Keys -/

/-- A key of the table store. -/
inductive Key where
  /-- The definition of a table. -/
  | table (name : String)
  /-- The row of a table with this number. -/
  | row (name : String) (number : Nat)
  /-- The counter of a table. -/
  | nextRow (name : String)
  deriving DecidableEq, Repr

namespace Key

/-- The number that tells the kinds of key apart. -/
def kind (n : Nat) : Bytes := littleEndian 4 n

/-- What the keys of all tables begin with. -/
def tables : Bytes := kind 0

/-- What the keys of all rows of a table begin with. -/
def rows (name : String) : Bytes := kind 1 ++ Format.text.write name

/-- The bytes of a key. -/
def toBytes : Key → Bytes
  | .table name => tables ++ Format.text.write name
  | .row name number => rows name ++ Format.block.write (bigEndian 8 number)
  | .nextRow name => kind 2 ++ Format.text.write name

end Key

end SqlStore
