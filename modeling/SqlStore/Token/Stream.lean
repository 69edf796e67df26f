import SqlStore.Token.Lexeme

/-! # Reading a text into tokens

A text is read from the front: blanks separate tokens and are dropped, and every other stretch has
to be a lexeme.

* **`Lexer`** — the text not yet read, the place it starts at and the value of the last token;
* **`Lexer.next`** — the next token, or the fault at which reading stops for good;
* **`TokenStream`** — all tokens in order and the fault that ended them, if one did;
* **`tokenize`** — the tokens of a text that has no fault.

`Lexer.length_next_lt` says that a token is taken off the text, which is why reading ends. -/

namespace SqlStore

/-- No lexeme starts at `loc`. The value of the token before it is given as a hint. -/
structure LexError where
  loc : Location
  hint : Option String
  deriving DecidableEq, Repr

/-- The text of a lexical fault. -/
def LexError.message (e : LexError) : String :=
  match e.hint with
  | some hint => s!"unable to lex tokens after {hint} at {e.loc.written}"
  | none => s!"unable to lex tokens at {e.loc.written}"

/-! ## One token at a time -/

/-- A text that is being read: what is left of it, where that stands, and the value of the last
token read. -/
structure Lexer where
  text : List Char
  loc : Location := {}
  last : Option String := none

/-- The place after a blank; nothing for a character that is no blank. Only a newline starts a new
line. -/
def Location.afterBlank? (loc : Location) (c : Char) : Option Location :=
  if c = '\n' then some loc.nextLine
  else if c = ' ' ∨ c = '\t' then some (loc.right 1)
  else none

namespace Lexer

/-- The start of a text. -/
def ofText (text : String) : Lexer := { text := text.toList }

/-- The next token after the blanks in front of it and the lexer past it. Where no lexeme starts,
the fault is answered once and nothing is left to read. -/
def nextFrom (last : Option String) (loc : Location) :
    List Char → Option (Except LexError Token) × Lexer
  | [] => (none, ⟨[], loc, last⟩)
  | c :: rest =>
    match loc.afterBlank? c with
    | some loc => nextFrom last loc rest
    | none =>
      match Lexeme.first? (c :: rest) with
      | some x =>
        (some (.ok ⟨x.kind, x.value, loc⟩),
          ⟨(c :: rest).drop x.width, loc.right x.width, some x.value⟩)
      | none => (some (.error ⟨loc, last⟩), ⟨[], loc, last⟩)

/-- The next token, or the fault that ends the text, and the lexer past it; nothing at the end. -/
def next (l : Lexer) : Option (Except LexError Token) × Lexer :=
  nextFrom l.last l.loc l.text

/-- A token is taken off the text. -/
theorem length_nextFrom_lt {last : Option String} {loc : Location} {text : List Char} {t : Token}
    {l : Lexer} (h : nextFrom last loc text = (some (.ok t), l)) :
    l.text.length < text.length := by
  induction text generalizing loc with
  | nil => simp [nextFrom] at h
  | cons c rest ih =>
    rw [nextFrom] at h
    split at h
    · exact Nat.lt_succ_of_lt (ih h)
    · split at h
      · next x hx =>
        have := Lexeme.first?_width_pos hx
        cases h
        simp only [List.length_drop, List.length_cons]
        omega
      · cases h

/-- A token is taken off the text of a lexer. -/
theorem length_next_lt {l l' : Lexer} {t : Token} (h : l.next = (some (.ok t), l')) :
    l'.text.length < l.text.length :=
  length_nextFrom_lt h

end Lexer

/-! ## A whole text -/

/-- The tokens of a text in order, and the fault that ended them unless the text did. -/
structure TokenStream where
  tokens : List Token
  fault : Option LexError
  deriving DecidableEq, Repr

namespace TokenStream

/-- Everything a lexer still reads. -/
def ofLexer (l : Lexer) : TokenStream :=
  match _h : l.next with
  | (none, _) => ⟨[], none⟩
  | (some (.error e), _) => ⟨[], some e⟩
  | (some (.ok t), l') =>
    let rest := ofLexer l'
    ⟨t :: rest.tokens, rest.fault⟩
termination_by l.text.length
decreasing_by exact Lexer.length_next_lt _h

/-- Everything that is read from a text. -/
def ofText (text : String) : TokenStream := ofLexer (.ofText text)

end TokenStream

/-- The tokens of a text, or the fault at the first place where no lexeme starts. -/
def tokenize (text : String) : Except LexError (List Token) :=
  match TokenStream.ofText text with
  | ⟨tokens, none⟩ => .ok tokens
  | ⟨_, some e⟩ => .error e

end SqlStore
