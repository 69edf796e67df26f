import SqlStore.Proofs.Text.Boundary
import SqlStore.Proofs.Token.SourceBytes

/-! # A lexer on the bytes of a source

A lexer can keep its whole source and a place among the bytes of it. It then has to look at single bytes and
at slices of the source, and every look can go wrong:

* **`AccessFault`** — a look at a byte that is not there, or at a slice that leaves the source or divides a
  character;
* **`Cursor`** — a place among the bytes of a source and the same place as line and column;
* **`ByteLexer.rules`** — one rule for each class of tokens. They read bytes, those for quoted texts
  characters, and the rule for symbols passes over a blank as well;
* **`ByteLexer.next`** — the rules in order, until one of them finds a token or none of them finds anything.
  It has no value if that never happens;
* **`ByteLexer.calls`** — a number of calls one after another. -/

namespace SqlStore

/-- A look at a source to which there is no answer. A rule that could do without one fails all the same. -/
inductive AccessFault where
  /-- There is no such byte. -/
  | byte (place : Nat)
  /-- The slice leaves the source, ends in front of where it begins, or divides a character. -/
  | slice (first last : Nat)
  deriving DecidableEq, Repr

/-- A place in a source: the number of bytes in front of it, and its line and column. -/
structure Cursor where
  pointer : Nat := 0
  loc : Location := {}
  deriving DecidableEq, Repr

/-- The place behind a character of `width` bytes. -/
def Cursor.advance (cur : Cursor) (width : Nat) : Cursor :=
  ⟨cur.pointer + width, cur.loc.right 1⟩

/-- What a rule finds at a place: a token, or nothing but a blank, and the place behind it. -/
structure Found where
  token? : Option Token
  behind : Cursor
  deriving DecidableEq, Repr

namespace ByteLexer

/-! ## Looking at a source -/

/-- The byte at a place; nothing at the end. Beyond the end even asking is a fault. -/
def byte? (source : String) (place : Nat) : Except AccessFault (Option UInt8) :=
  if place ≤ (Utf8.encode source).length then .ok (Utf8.encode source)[place]?
  else .error (.byte place)

/-- The byte at a place that has one. -/
def byte (source : String) (place : Nat) : Except AccessFault UInt8 :=
  match (Utf8.encode source)[place]? with
  | some b => .ok b
  | none => .error (.byte place)

/-- All bytes from a place on. -/
def bytesFrom (source : String) (place : Nat) : Except AccessFault Bytes :=
  if place ≤ (Utf8.encode source).length then .ok ((Utf8.encode source).drop place)
  else .error (.slice place (Utf8.encode source).length)

/-- The characters between two places. -/
def slice (source : String) (first last : Nat) : Except AccessFault (List Char) :=
  if first ≤ last then
    match Utf8.split? first source.toList with
    | none => .error (.slice first last)
    | some (_, rest) =>
      match Utf8.split? (last - first) rest with
      | none => .error (.slice first last)
      | some (cs, _) => .ok cs
  else .error (.slice first last)

/-! ## The rule for each class -/

/-- What stands at a place of a source, as far as one rule can tell. -/
abbrev Rule := String → Cursor → Except AccessFault (Option Found)

/-- The longest of some options. -/
def option (kind : TokenKind) (options : List String) : Rule := fun source start => do
  let bytes ← bytesFrom source start.pointer
  return (longestInBytes options bytes).map fun word =>
    let width := (Utf8.encode word).length
    ⟨some ⟨kind, word, start.loc⟩, ⟨start.pointer + width, start.loc.right width⟩⟩

/-- A reserved word. -/
def keyword : Rule := option .keyword (Keyword.all.map Keyword.spelling)

/-- A blank, or else a symbol. -/
def symbol : Rule := fun source start => do
  match ← byte? source start.pointer with
  | none => return none
  | some b =>
    match start.loc.afterBlank? (Char.ofUInt8 b) with
    | some loc => return some ⟨none, ⟨start.pointer + 1, loc⟩⟩
    | none => option .symbol (Symbol.all.map Symbol.spelling) source start

/-- Reads on after an opening delimiter, with the contents read so far, and gives the place behind the
closing one. -/
def close? (q : Char) (cur : Cursor) (contents : List Char) : List Char → Option (List Char × Cursor)
  | [] => none
  | [c] => if c = q then some (contents, cur.advance c.utf8Size) else none
  | c :: d :: rest =>
    if c = q then
      if d = q then
        close? q ((cur.advance c.utf8Size).advance d.utf8Size) (contents ++ [c]) rest
      else some (contents, cur.advance c.utf8Size)
    else close? q (cur.advance c.utf8Size) (contents ++ [c]) (d :: rest)

/-- A text between two delimiters. -/
def quoted (q : Char) (kind : TokenKind) : Rule := fun source start => do
  match ← slice source start.pointer (Utf8.encode source).length with
  | [] => return none
  | c :: rest =>
    if c = q then
      return (close? q (start.advance q.utf8Size) [] rest).map fun (contents, cur) =>
        ⟨some ⟨kind, String.ofList contents, start.loc⟩, cur⟩
    else return none

/-- A text between single quotes. -/
def string : Rule := quoted '\'' .string

/-- Only in front of the end there is a byte. -/
theorem lt_length_of_byte? {source : String} {place : Nat} {b : UInt8}
    (h : byte? source place = .ok (some b)) : place < (Utf8.encode source).length := by
  rw [byte?] at h
  split at h
  · exact (List.getElem?_eq_some_iff.1 (Except.ok.inj h)).1
  · cases h

/-- The place behind a number that began at `start`, and nothing if there is no number. The flags tell whether
there may be no further point and no further `e`. -/
def numberEnd (source : String) (start : Nat) (point marker : Bool) (cur : Cursor) :
    Except AccessFault (Option Cursor) :=
  match _h : byte? source cur.pointer with
  | .error e => .error e
  | .ok none => .ok (some cur)
  | .ok (some b) =>
    let c := Char.ofUInt8 b
    if cur.pointer = start then
      if c.isDigit ∨ c = '.' then numberEnd source start (c = '.') marker (cur.advance 1)
      else .ok none
    else if c = '.' then
      if point then .ok none else numberEnd source start true marker (cur.advance 1)
    else if c = 'e' then
      if marker then .ok none
      else if cur.pointer + 1 = (Utf8.encode source).length then .ok none
      else do
        let d ← byte source (cur.pointer + 1)
        if Char.ofUInt8 d = '+' ∨ Char.ofUInt8 d = '-' then
          numberEnd source start true true ((cur.advance 1).advance 1)
        else numberEnd source start true true (cur.advance 1)
    else if c.isDigit then numberEnd source start point marker (cur.advance 1)
    else .ok (some cur)
termination_by (Utf8.encode source).length - cur.pointer
decreasing_by
  all_goals
    have hlt := lt_length_of_byte? _h
    simp only [Cursor.advance]
    omega

/-- A number. -/
def numeric : Rule := fun source start => do
  match ← numberEnd source start.pointer false false start with
  | none => return none
  | some cur =>
    if cur.pointer = start.pointer then return none
    else
      let cs ← slice source start.pointer cur.pointer
      return some ⟨some ⟨.numeric, String.ofList cs, start.loc⟩, cur⟩

/-- The place behind a bare name. -/
def nameEnd (source : String) (cur : Cursor) : Except AccessFault Cursor :=
  match _h : byte? source cur.pointer with
  | .error e => .error e
  | .ok none => .ok cur
  | .ok (some b) =>
    if Lexeme.isNamePart (Char.ofUInt8 b) then nameEnd source (cur.advance 1) else .ok cur
termination_by (Utf8.encode source).length - cur.pointer
decreasing_by
  have hlt := lt_length_of_byte? _h
  simp only [Cursor.advance]
  omega

/-- A bare name. -/
def bareName : Rule := fun source start => do
  match ← byte? source start.pointer with
  | none => return none
  | some b =>
    if (Char.ofUInt8 b).isAlpha then
      let cur ← nameEnd source (start.advance 1)
      let cs ← slice source start.pointer cur.pointer
      return some ⟨some ⟨.identifier, String.ofList (cs.map Char.toLower), start.loc⟩, cur⟩
    else return none

/-- A name, between double quotes or bare. -/
def identifier : Rule := fun source start => do
  match ← quoted '"' .identifier source start with
  | some found => return some found
  | none => bareName source start

/-- All rules, in the order in which they are tried. -/
def rules : List Rule := [keyword, symbol, string, numeric, identifier]

/-- What the first rule finds that finds anything. -/
def first? (source : String) (cur : Cursor) : Except AccessFault (Option Found) :=
  rules.findSomeM? fun rule => rule source cur

end ByteLexer

/-! ## One call after another -/

/-- A source that is being read: the place that has been reached, the value of the last token, and whether
reading has failed there. -/
structure ByteLexer where
  source : String
  cursor : Cursor := {}
  last : Option String := none
  failed : Bool := false

namespace ByteLexer

/-- The start of a source. -/
def ofText (source : String) : ByteLexer := { source }

/-- The next token, or the fault that ends the source, and the lexer past it; nothing at the end and behind
a fault. Blanks are passed over one by one. There is no value where this goes on for ever, and a faulty look
at the source ends it at once. -/
def next (l : ByteLexer) :
    Option (Except AccessFault (Option (Except LexError Token) × ByteLexer)) :=
  if l.failed then some (.ok (none, l))
  else if l.cursor.pointer < (Utf8.encode l.source).length then
    match first? l.source l.cursor with
    | .error e => some (.error e)
    | .ok none => some (.ok (some (.error ⟨l.cursor.loc, l.last⟩), { l with failed := true }))
    | .ok (some ⟨some t, cur⟩) =>
      some (.ok (some (.ok t), { l with cursor := cur, last := some t.value }))
    | .ok (some ⟨none, cur⟩) => { l with cursor := cur } |>.next
  else some (.ok (none, l))
partial_fixpoint

/-- The answers to a number of calls and the lexer behind them. -/
def calls (l : ByteLexer) :
    Nat → Option (Except AccessFault (List (Option (Except LexError Token)) × ByteLexer))
  | 0 => some (.ok ([], l))
  | n + 1 =>
    match l.next with
    | none => none
    | some (.error e) => some (.error e)
    | some (.ok (answer, l')) =>
      (l'.calls n).map fun result => result.map fun (answers, l'') => (answer :: answers, l'')

end ByteLexer

end SqlStore
