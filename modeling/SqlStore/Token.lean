/-! # Tokens

The words of the query language, each with the place where it stands:

* **`Location`** — a line and a column, both counted from zero, columns in characters;
* **`Keyword`** and **`Symbol`** — the reserved words and the punctuation, with their spelling;
* **`TokenKind`** and **`Token`** — a classified piece of text. A token's value is what it means:
  reserved words and bare names in lower case, quoted texts without their quotes. -/

namespace SqlStore

/-! ## Places in a text -/

/-- A place in a text: line and column, both counted from zero. -/
structure Location where
  line : Nat := 0
  column : Nat := 0
  deriving DecidableEq, Repr, Inhabited

/-- The written form of a place, line first. -/
def Location.written (loc : Location) : String := s!"{loc.line}:{loc.column}"

/-- The place `width` characters further on in the same line. -/
def Location.right (loc : Location) (width : Nat) : Location :=
  { loc with column := loc.column + width }

/-- The first place of the next line. -/
def Location.nextLine (loc : Location) : Location :=
  { line := loc.line + 1, column := 0 }

/-! ## Reserved words and punctuation -/

/-- The reserved words. -/
inductive Keyword where
  | select | from_ | where_ | as_ | table | create | insert | into | values | int | text
  deriving DecidableEq, Repr

/-- Every reserved word. -/
def Keyword.all : List Keyword :=
  [.select, .from_, .where_, .as_, .table, .create, .insert, .into, .values, .int, .text]

/-- The lower-case spelling of a reserved word. -/
def Keyword.spelling : Keyword → String
  | .select => "select"
  | .from_ => "from"
  | .where_ => "where"
  | .as_ => "as"
  | .table => "table"
  | .create => "create"
  | .insert => "insert"
  | .into => "into"
  | .values => "values"
  | .int => "int"
  | .text => "text"

/-- Operators and punctuation. -/
inductive Symbol where
  | semicolon | asterisk | comma | openParen | closeParen | concat | equal
  deriving DecidableEq, Repr

/-- Every symbol. -/
def Symbol.all : List Symbol :=
  [.semicolon, .asterisk, .comma, .openParen, .closeParen, .concat, .equal]

/-- The characters a symbol is written with. -/
def Symbol.spelling : Symbol → String
  | .semicolon => ";"
  | .asterisk => "*"
  | .comma => ","
  | .openParen => "("
  | .closeParen => ")"
  | .concat => "||"
  | .equal => "="

/-- `Keyword.all` leaves no reserved word out. -/
theorem Keyword.mem_all (k : Keyword) : k ∈ Keyword.all := by cases k <;> decide

/-! ## Tokens -/

/-- The lexical class of a token. -/
inductive TokenKind where
  | keyword | symbol | identifier | string | numeric
  deriving DecidableEq, Repr

/-- The word for a lexical class. -/
def TokenKind.name : TokenKind → String
  | .keyword => "keyword"
  | .symbol => "symbol"
  | .identifier => "identifier"
  | .string => "string"
  | .numeric => "numeric"

/-- A classified piece of text and the place where it starts. -/
structure Token where
  kind : TokenKind
  value : String
  loc : Location
  deriving DecidableEq, Repr

namespace Token

/-- Whether the token is this reserved word. -/
def isKeyword (t : Token) (k : Keyword) : Bool :=
  t.kind == .keyword && t.value == k.spelling

/-- Whether the token is this symbol. -/
def isSymbol (t : Token) (s : Symbol) : Bool :=
  t.kind == .symbol && t.value == s.spelling

/-- Whether the token joins two operands of an expression. -/
def isOperator (t : Token) : Bool :=
  t.isSymbol .concat || t.isSymbol .equal

end Token

end SqlStore
