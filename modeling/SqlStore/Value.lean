import SqlStore.Numeral
import SqlStore.Text.Utf8
import SqlStore.Token

/-! # Values

The values a table holds and the bytes they are stored as:

* **`ColumnType`** and **`Value`** — signed 32-bit integers and texts;
* **`Value.ofLiteral`** — the value of a literal token: a number is an integer, a string is a text,
  and any other token has none;
* **`Value.toBytes`** and **`Value.ofBytes`** — an integer as four bytes in two's complement, the
  most significant first, and a text as its UTF-8 bytes. The bytes do not tell their type; the
  column they belong to does. -/

namespace SqlStore

/-! ## Types -/

/-- The type of a column. -/
inductive ColumnType where
  | int | text
  deriving DecidableEq, Repr

namespace ColumnType

/-- The name of a type. -/
def name : ColumnType → String
  | .int => "int"
  | .text => "text"

/-- The type with this name. -/
def ofName? (name : String) : Option ColumnType :=
  if name = "int" then some .int
  else if name = "text" then some .text
  else none

/-- A type is found by its name and by no other. -/
theorem ofName?_eq_some_iff {name : String} {type : ColumnType} :
    ofName? name = some type ↔ name = type.name := by
  unfold ofName?
  cases type <;> by_cases h : name = "int" <;> by_cases h' : name = "text" <;>
    simp_all [ColumnType.name]

end ColumnType

/-! ## Values -/

/-- A value of one of the types. -/
inductive Value where
  | int (n : Int32)
  | text (s : String)
  deriving DecidableEq, Repr

/-- How stored bytes fail to be a value of a type. -/
inductive CellFault where
  /-- An integer has four bytes, not `found`. -/
  | width (found : Nat)
  | utf8 (fault : Utf8.Fault)
  deriving DecidableEq, Repr

/-- The text of a fault. -/
def CellFault.message : CellFault → String
  | .width found => s!"integer cell must be 4 bytes, found {found}"
  | .utf8 fault => fault.message

namespace Value

/-- The type of a value. -/
def type : Value → ColumnType
  | .int _ => .int
  | .text _ => .text

/-- The printed form of a value: an integer in decimal, a text as it is. -/
def written : Value → String
  | .int n => toString n.toInt
  | .text s => s

/-- The value of a literal token. Tokens other than numbers and strings have none. -/
def ofLiteral (t : Token) : Except Numeral.Fault (Option Value) :=
  match t.kind with
  | .numeric => (Numeral.read t.value).map fun n => some (.int n)
  | .string => .ok (some (.text t.value))
  | _ => .ok none

/-! ## Stored bytes -/

/-- The number of bytes of a stored integer. -/
def intWidth : Nat := 4

/-- The bytes a value is stored as. -/
def toBytes : Value → Bytes
  | .int n => bigEndian intWidth n.toUInt32.toNat
  | .text s => Utf8.encode s

/-- The value of type `type` that is stored as the given bytes. -/
def ofBytes (type : ColumnType) (bytes : Bytes) : Except CellFault Value :=
  match type with
  | .int =>
    if bytes.length = intWidth then .ok (.int (UInt32.ofNat (ofBigEndian bytes)).toInt32)
    else .error (.width bytes.length)
  | .text =>
    match Utf8.decode bytes with
    | .ok s => .ok (.text s)
    | .error fault => .error (.utf8 fault)

end Value

end SqlStore
