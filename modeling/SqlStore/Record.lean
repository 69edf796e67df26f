import SqlStore.Text.Utf8

/-! # Record formats

How structured values are written as bytes and read back from the front of a byte string:

* **`Record.Fault`** — why bytes are no record;
* **`Format α`** — a writer and a reader of values of type `α`; the reader also gives what follows;
* **`Format.natural`**, **`block`**, **`text`** — numbers of a fixed width, least significant byte
  first, and byte strings and texts with their length in front;
* **`Format.pair`**, **`optional`**, **`list`**, **`imap`**, **`choice`** — formats built from other
  formats.

Lengths and counts are written with eight bytes. Reading goes front to back and stops at the first
fault; a declared length is no fault before the bytes run out. -/

namespace SqlStore

namespace Record

/-- Why bytes are no record. -/
inductive Fault where
  /-- The bytes end inside a number or a tag. -/
  | endOfInput
  /-- The bytes end before the declared length of a byte string. -/
  | shortBlock
  | utf8 (fault : Utf8.Fault)
  /-- The tag of an optional value is neither zero nor one. -/
  | optionTag (found : Nat)
  /-- The index of an alternative is not below `count`. -/
  | choiceIndex (found count : Nat)
  deriving DecidableEq, Repr

/-- The text of a fault. -/
def Fault.message : Fault → String
  | .endOfInput => "io error: unexpected end of file"
  | .shortBlock => "io error: "
  | .utf8 fault => s!"string is not valid utf8: {fault.message}"
  | .optionTag found => s!"tag for enum is not valid, found {found}"
  | .choiceIndex found count =>
    s!"invalid value: integer `{found}`, expected variant index 0 <= i < {count}"

end Record

/-- A way of writing values as bytes and of reading one back from the front of a byte string, which
gives the value and the bytes that follow it. -/
structure Format (α : Type) where
  write : α → Bytes
  read : Bytes → Except Record.Fault (α × Bytes)

namespace Format

/-- The value at the front; what follows it is ignored. -/
def readFront (f : Format α) (bytes : Bytes) : Except Record.Fault α :=
  (f.read bytes).map (·.1)

/-! ## Numbers, byte strings and texts -/

/-- Numbers of `width` bytes, least significant byte first. -/
def natural (width : Nat) : Format Nat where
  write n := littleEndian width n
  read bytes :=
    let front := bytes.take width
    if front.length < width then .error .endOfInput
    else .ok (ofLittleEndian front, bytes.drop width)

/-- Lengths and counts. -/
def count : Format Nat := natural 8

/-- Byte strings with their length in front. -/
def block : Format Bytes where
  write bytes := count.write bytes.length ++ bytes
  read bytes := do
    let (length, rest) ← count.read bytes
    let front := rest.take length
    if front.length < length then .error .shortBlock
    else .ok (front, rest.drop length)

/-- Texts as blocks of UTF-8. -/
def text : Format String where
  write s := block.write (Utf8.encode s)
  read bytes := do
    let (front, rest) ← block.read bytes
    match Utf8.decode front with
    | .ok s => .ok (s, rest)
    | .error fault => .error (.utf8 fault)

/-! ## Formats from formats -/

/-- Two values one after the other. -/
def pair (f : Format α) (g : Format β) : Format (α × β) where
  write x := f.write x.1 ++ g.write x.2
  read bytes := do
    let (a, rest) ← f.read bytes
    let (b, rest) ← g.read rest
    .ok ((a, b), rest)

/-- The values of `f` under another name. -/
def imap (f : Format α) (pack : α → β) (unpack : β → α) : Format β where
  write x := f.write (unpack x)
  read bytes := (f.read bytes).map fun (a, rest) => (pack a, rest)

/-- A value or none: a tag byte, and the value after the tag one. -/
def optional (f : Format α) : Format (Option α) where
  write
    | none => [0]
    | some x => 1 :: f.write x
  read
    | [] => .error .endOfInput
    | tag :: rest =>
      if tag = 0 then .ok (none, rest)
      else if tag = 1 then (f.read rest).map fun (x, rest) => (some x, rest)
      else .error (.optionTag tag.toNat)

/-- Reads `n` values one after the other. -/
def readMany (f : Format α) : Nat → Bytes → Except Record.Fault (List α × Bytes)
  | 0, bytes => .ok ([], bytes)
  | n + 1, bytes => do
    let (x, rest) ← f.read bytes
    let (xs, rest) ← readMany f n rest
    .ok (x :: xs, rest)

/-- Any number of values, their count in front. -/
def list (f : Format α) : Format (List α) where
  write xs := count.write xs.length ++ xs.flatMap f.write
  read bytes := do
    let (n, rest) ← count.read bytes
    readMany f n rest

/-- One of the given alternatives, written as its index with four bytes. -/
def choice [DecidableEq α] (alternatives : List α) : Format α where
  write x := littleEndian 4 (alternatives.idxOf x)
  read bytes := do
    let (index, rest) ← (natural 4).read bytes
    match alternatives[index]? with
    | some x => .ok (x, rest)
    | none => .error (.choiceIndex index alternatives.length)

end Format

end SqlStore
