import SqlStore.Numeral
import SqlStore.Statement
import SqlStore.Token.Stream

/-! # Reading statements from tokens

A text is a list of statements with semicolons between them, more than one or none at all allowed
in every place:

* `create table NAME [ ( NAME TYPE {, NAME TYPE} ) ]`
* `insert into NAME [ values ( EXPRESSION {, EXPRESSION} ) ]`
* `select EXPRESSION {, EXPRESSION} from NAME`

An expression is a chain of literals joined by operators, grouped to the left. One token of
look-ahead decides everything.

* **`ParseError`** — what is wrong, with the token at which it shows;
* **`Parser`** — takes tokens off a stream and may fail, which leaves the stream after the last
  token it took;
* **`Parser.statements`** — the statements up to the end of the stream;
* **`parse`** — the statements of a stream and the stream left behind;
* **`parseText`** — the statements of a text. -/

namespace SqlStore

/-- Why a text is no list of statements. -/
inductive ParseError where
  /-- No token could be read. -/
  | lexical (e : LexError)
  | unexpectedToken (found : Token)
  | endOfInput
  | expectedName (found : Token)
  | expectedType (found : Token)
  | expectedKeyword (expected : Keyword) (found : Token)
  | expectedSymbol (expected : Symbol) (found : Token)
  | unsupportedNumber (literal : Token)
  | unsupportedFilter (keyword : Token)
  deriving DecidableEq, Repr

/-- The text of a fault. -/
def ParseError.message : ParseError → String
  | .lexical e => e.message
  | .unexpectedToken t => s!"parse error [Parser] Unexpected token {t.value} at {t.loc.written}"
  | .endOfInput => "parse error [Parser] Unexpected end of input"
  | .expectedName t =>
    s!"parse error [Parser] Expected ident, got token {t.value} at {t.loc.written}"
  | .expectedType t =>
    s!"parse error [Parser] Expected column type, got token {t.value} at {t.loc.written}"
  | .expectedKeyword k t =>
    s!"parse error [Parser] Expected keyword {k.spelling}, got {t.value} at {t.loc.written}"
  | .expectedSymbol s t =>
    s!"parse error [Parser] Expected token {s.spelling}, got {t.value} at {t.loc.written}"
  | .unsupportedNumber t =>
    s!"parse error [Parser] Numeric literal {t.value} at {t.loc.written} is not a 32-bit integer"
  | .unsupportedFilter t =>
    s!"parse error [Parser] WHERE clauses are not supported (at {t.loc.written})"

/-- A reader of token streams: it takes tokens off the front and keeps the stream where a fault
left it. -/
abbrev Parser := EStateM ParseError TokenStream

namespace Parser

/-! ## Taking tokens -/

/-- The next token, left in the stream; nothing at the end. A lexical fault that comes next is
raised, and stays. -/
def peek : Parser (Option Token) := do
  match ← get with
  | ⟨t :: _, _⟩ => return some t
  | ⟨[], some e⟩ => throw (.lexical e)
  | ⟨[], none⟩ => return none

/-- The next token, taken off the stream. A lexical fault that comes next is raised, and with it the
stream has ended. -/
def next : Parser Token := do
  match ← get with
  | ⟨t :: rest, fault⟩ => set (⟨rest, fault⟩ : TokenStream); return t
  | ⟨[], some e⟩ => set (⟨[], none⟩ : TokenStream); throw (.lexical e)
  | ⟨[], none⟩ => throw .endOfInput

/-- The next token, taken off the stream if it is accepted. A lexical fault that comes next is not,
and stays. -/
def nextIf (accepts : Token → Bool) : Parser (Option Token) := do
  match ← get with
  | ⟨t :: rest, fault⟩ =>
    if accepts t then
      set (⟨rest, fault⟩ : TokenStream)
      return some t
    else return none
  | ⟨[], _⟩ => return none

/-- Takes the keyword `k`. -/
def expectKeyword (k : Keyword) : Parser Unit := do
  let t ← next
  unless t.isKeyword k do throw (.expectedKeyword k t)

/-- Takes the symbol `s`. -/
def expectSymbol (s : Symbol) : Parser Unit := do
  let t ← next
  unless t.isSymbol s do throw (.expectedSymbol s t)

/-! ## Repetition -/

/-- Rounds of `round` for as long as an accepted token comes next, one round at most for each entry
of the first list. -/
def roundsOf (accepts : Token → Bool) (round : Token → Parser α) : List β → Parser (List α)
  | [] => return []
  | _ :: budget => do
    match ← nextIf accepts with
    | none => return []
    | some t => return (← round t) :: (← roundsOf accepts round budget)

/-- Rounds of `round` for as long as an accepted token comes next. Every round takes that token, so
there are no more of them than tokens in the stream. -/
def many (accepts : Token → Bool) (round : Token → Parser α) : Parser (List α) := do
  roundsOf accepts round (← get).tokens

/-- One or more of `item`, with commas between them. -/
def commaSeparated (item : Parser α) : Parser (List α) := do
  return (← item) :: (← many (·.isSymbol .comma) fun _ => item)

/-! ## The grammar -/

/-- The name of a table or a column. -/
def name : Parser Token := do
  let t ← next
  if t.kind = .identifier then return t else throw (.expectedName t)

/-- The name of a type: any word, reserved or not. -/
def typeName : Parser Token := do
  let t ← next
  if t.kind = .keyword ∨ t.kind = .identifier then return t else throw (.expectedType t)

/-- A literal: a name, a string, or a number that is a signed 32-bit integer. -/
def literal : Parser Token := do
  let t ← next
  match t.kind with
  | .identifier => return t
  | .string => return t
  | .numeric =>
    match Numeral.read t.value with
    | .ok _ => return t
    | .error _ => throw (.unsupportedNumber t)
  | _ => throw (.unexpectedToken t)

/-- A chain of literals joined by operators, grouped to the left. -/
def expression : Parser Expression := do
  let first ← literal
  let joined ← many Token.isOperator fun operator => return (operator, ← literal)
  return joined.foldl (fun left (operator, right) => .binary left operator (.literal right))
    (.literal first)

/-- A column of a table definition. -/
def columnDefinition : Parser ColumnDefinition := do
  return { name := ← name, type := ← typeName }

/-- The definition of a table. -/
def createTable : Parser Statement := do
  expectKeyword .create
  expectKeyword .table
  let table ← name
  match ← nextIf (·.isSymbol .openParen) with
  | none => return .createTable table none
  | some _ =>
    let columns ← commaSeparated columnDefinition
    expectSymbol .closeParen
    return .createTable table (some columns)

/-- The insertion of a row. -/
def insert : Parser Statement := do
  expectKeyword .insert
  expectKeyword .into
  let table ← name
  match ← nextIf (·.isKeyword .values) with
  | none => return .insert table none
  | some _ =>
    expectSymbol .openParen
    let values ← commaSeparated expression
    expectSymbol .closeParen
    return .insert table (some values)

/-- The selection of columns. A filter clause is refused. -/
def select : Parser Statement := do
  expectKeyword .select
  let items ← commaSeparated expression
  expectKeyword .from_
  let table ← name
  match ← nextIf (·.isKeyword .where_) with
  | none => return .select items table
  | some t => throw (.unsupportedFilter t)

/-- The statement that begins with the next token `t`, which is still in the stream. -/
def statement (t : Token) : Parser Statement :=
  if t.isKeyword .create then createTable
  else if t.isKeyword .insert then insert
  else if t.isKeyword .select then select
  else throw (.unexpectedToken t)

/-- The statement that stands here; nothing before a semicolon and at the end. -/
def statement? : Parser (Option Statement) := do
  match ← peek with
  | none => return none
  | some t => if t.isSymbol .semicolon then return none else return some (← statement t)

/-- Takes nothing and fails unless the stream has ended. -/
def expectEnd : Parser Unit := do
  match ← peek with
  | none => return ()
  | some t => throw (.unexpectedToken t)

/-- The statements up to the end of the stream, with semicolons between them. -/
def statements : Parser (List Statement) := do
  let first ← statement?
  let others ← many (·.isSymbol .semicolon) fun _ => statement?
  expectEnd
  return (first :: others).filterMap id

end Parser

/-! ## Whole texts -/

/-- The statements of a stream, and the stream left behind. After a fault that is what follows the
last token taken. -/
def parse (stream : TokenStream) : Except ParseError (List Statement) × TokenStream :=
  match Parser.statements.run stream with
  | .ok found rest => (.ok found, rest)
  | .error e rest => (.error e, rest)

/-- The statements of a text. -/
def parseText (text : String) : Except ParseError (List Statement) :=
  (parse (.ofText text)).1

end SqlStore
