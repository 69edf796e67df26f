import SqlStore.Token
import SqlStore.Text.Quoted

/-! # Lexemes

What one token looks like at the front of a text, wherever in the query that text stands:

* **`Lexeme`** — the class and the value of a token and the number of characters it takes up;
* **`longestMatch options text`** — the longest of the options that the text opens with, upper and
  lower case of ASCII letters alike;
* **`Lexeme.keyword?`**, **`symbol?`**, **`string?`**, **`numeric?`**, **`identifier?`** — one rule
  for each class;
* **`Lexeme.first?`** — the first of these rules, in this order, that matches.

`first?_width_pos` says that a lexeme is never empty, so reading one makes progress. -/

namespace SqlStore

/-- The class and the value of a token and the number of characters it takes up. -/
structure Lexeme where
  kind : TokenKind
  value : String
  width : Nat
  deriving DecidableEq, Repr

/-! ## The longest option -/

section Pending

-- an option is read as characters, and as bytes where the place in a source is one in its bytes
variable {α : Type} [DecidableEq α]

/-- What is left of the pending options once `c` has been read: those that go on with `c`, without
it. -/
def agreeing (c : α) (pending : List (String × List α)) : List (String × List α) :=
  pending.filterMap fun (option, todo) =>
    match todo with
    | d :: todo => if d = c then some (option, todo) else none
    | [] => none

/-- Reads on, in lower case, while some option may still match. Each pending option comes with what of
it is yet to be read; `best` is the longest option read to its end so far. -/
def longestPending (lower : α → α) (best : Option String) :
    List (String × List α) → List α → Option String
  | _, [] => best
  | pending, c :: text =>
    if pending.isEmpty then best
    else
      let left := agreeing (lower c) pending
      let complete := left.find? fun (_, todo) => todo.isEmpty
      longestPending lower ((complete.map (·.1)).or best) (left.filter fun (_, todo) => !todo.isEmpty)
        text

/-- What is left of an option behind `c` was the option with `c`. -/
theorem mem_agreeing_iff {c : α} {pending : List (String × List α)} {q : String × List α} :
    q ∈ agreeing c pending ↔ (q.1, c :: q.2) ∈ pending := by
  rw [agreeing, List.mem_filterMap]
  constructor
  · rintro ⟨⟨option, todo⟩, hmem, hstep⟩
    cases todo with
    | nil => cases hstep
    | cons d todo =>
      obtain ⟨rfl, heq⟩ := Option.ite_none_right_eq_some.1 hstep
      cases heq
      exact hmem
  · intro h
    exact ⟨_, h, if_pos rfl⟩

/-- Reading on leaves no option that was not pending. -/
theorem mem_of_mem_agreeing {c : α} {pending : List (String × List α)} {q : String × List α}
    (h : q ∈ agreeing c pending) : q.1 ∈ pending.map (·.1) :=
  List.mem_map.2 ⟨_, mem_agreeing_iff.1 h, rfl⟩

/-- What reading on finds was found before or is one of the pending options. -/
theorem longestPending_mem {lower : α → α} {best : Option String} {pending : List (String × List α)}
    {text : List α} {word : String} (h : longestPending lower best pending text = some word) :
    best = some word ∨ word ∈ pending.map (·.1) := by
  induction text generalizing best pending with
  | nil => exact .inl (by simpa [longestPending] using h)
  | cons c text ih =>
    rw [longestPending] at h
    split at h
    · exact .inl h
    · rcases ih h with found | found
      · rcases Option.or_eq_some_iff.1 found with found | ⟨_, found⟩
        · obtain ⟨q, hq, rfl⟩ := Option.map_eq_some_iff.1 found
          exact .inr (mem_of_mem_agreeing (List.mem_of_find?_eq_some hq))
        · exact .inl found
      · obtain ⟨q, hq, rfl⟩ := List.mem_map.1 found
        exact .inr (mem_of_mem_agreeing (List.mem_filter.1 hq).1)

end Pending

/-- The longest non-empty option that the text opens with once its ASCII letters are in lower
case. -/
def longestMatch (options : List String) (text : List Char) : Option String :=
  longestPending Char.toLower none (options.map fun option => (option, option.toList)) text

/-- The longest match is one of the options. -/
theorem longestMatch_mem {options : List String} {text : List Char} {word : String}
    (h : longestMatch options text = some word) : word ∈ options := by
  rcases longestPending_mem h with found | found
  · simp at found
  · simpa using found

namespace Lexeme

/-! ## The rule for each class -/

/-- A reserved word; nothing need separate it from what follows. -/
def keyword? (text : List Char) : Option Lexeme :=
  (longestMatch (Keyword.all.map Keyword.spelling) text).map fun word =>
    ⟨.keyword, word, word.length⟩

/-- An operator or a punctuation mark. -/
def symbol? (text : List Char) : Option Lexeme :=
  (longestMatch (Symbol.all.map Symbol.spelling) text).map fun mark =>
    ⟨.symbol, mark, mark.length⟩

/-- A text between single quotes. -/
def string? (text : List Char) : Option Lexeme :=
  (Quoted.read? '\'' text).map fun (contents, width) =>
    ⟨.string, String.ofList contents, width⟩

/-- Digits, then a point and further digits if there is one. -/
def mantissa (text : List Char) : List Char :=
  let whole := text.takeWhile Char.isDigit
  match text.dropWhile Char.isDigit with
  | '.' :: rest => whole ++ '.' :: rest.takeWhile Char.isDigit
  | _ => whole

/-- The exponent at the front of what follows a mantissa: an `e`, a sign if there is one, and any
number of digits. It is empty where there is no `e`, and missing where the text ends with the
`e`. -/
def exponent? : List Char → Option (List Char)
  | ['e'] => none
  | 'e' :: c :: rest =>
    if c = '+' ∨ c = '-' then some ('e' :: c :: rest.takeWhile Char.isDigit)
    else some ('e' :: (c :: rest).takeWhile Char.isDigit)
  | _ => some []

/-- A number: a mantissa that is not empty and an exponent, not followed by another point or
another `e`. -/
def numeric? (text : List Char) : Option Lexeme :=
  let head := mantissa text
  if head.isEmpty then none
  else
    match exponent? (text.drop head.length) with
    | none => none
    | some tail =>
      let digits := head ++ tail
      match text.drop digits.length with
      | '.' :: _ => none
      | 'e' :: _ => none
      | _ => some ⟨.numeric, String.ofList digits, digits.length⟩

/-- Whether a bare name may go on with this character. -/
def isNamePart (c : Char) : Bool :=
  c.isAlphanum || c == '$' || c == '_'

/-- A bare name: an ASCII letter and the letters, digits, dollar signs and underscores after it. Its
value is in lower case. -/
def bareName? : List Char → Option Lexeme
  | [] => none
  | c :: rest =>
    if c.isAlpha then
      let name := c :: rest.takeWhile isNamePart
      some ⟨.identifier, String.ofList (name.map Char.toLower), name.length⟩
    else none

/-- A name, between double quotes or bare. -/
def identifier? (text : List Char) : Option Lexeme :=
  match Quoted.read? '"' text with
  | some (contents, width) => some ⟨.identifier, String.ofList contents, width⟩
  | none => bareName? text

/-- The lexeme at the front of a text: the first rule that matches decides. -/
def first? (text : List Char) : Option Lexeme :=
  keyword? text <|> symbol? text <|> string? text <|> numeric? text <|> identifier? text

/-- A lexeme is read by one of the rules, if those in front of it do not match. -/
theorem first?_eq_some_iff {text : List Char} {x : Lexeme} : first? text = some x ↔
    keyword? text = some x ∨ keyword? text = none ∧
      (symbol? text = some x ∨ symbol? text = none ∧
        (string? text = some x ∨ string? text = none ∧
          (numeric? text = some x ∨ numeric? text = none ∧ identifier? text = some x))) := by
  simp only [first?, Option.orElse_eq_orElse, ← Option.or_eq_orElse, Option.or_eq_some_iff]

/-! ## Reading a lexeme makes progress -/

/-- A reserved word is not empty. -/
theorem keyword?_width_pos {text : List Char} {x : Lexeme} (h : keyword? text = some x) :
    0 < x.width := by
  obtain ⟨word, hword, rfl⟩ := Option.map_eq_some_iff.1 h
  obtain ⟨k, -, rfl⟩ := List.mem_map.1 (longestMatch_mem hword)
  cases k <;> decide

/-- A symbol is not empty. -/
theorem symbol?_width_pos {text : List Char} {x : Lexeme} (h : symbol? text = some x) :
    0 < x.width := by
  obtain ⟨mark, hmark, rfl⟩ := Option.map_eq_some_iff.1 h
  obtain ⟨s, -, rfl⟩ := List.mem_map.1 (longestMatch_mem hmark)
  cases s <;> decide

/-- A quoted string is not empty. -/
theorem string?_width_pos {text : List Char} {x : Lexeme} (h : string? text = some x) :
    0 < x.width := by
  obtain ⟨⟨cs, width⟩, hread, rfl⟩ := Option.map_eq_some_iff.1 h
  exact Quoted.width_pos_of_read? hread

/-- A number has a mantissa. -/
theorem numeric?_width_pos {text : List Char} {x : Lexeme} (h : numeric? text = some x) :
    0 < x.width := by
  simp only [numeric?] at h
  split at h
  · simp at h
  · next hhead =>
    have : 0 < (mantissa text).length := List.length_pos_iff.2 (by simpa using hhead)
    split at h
    · simp at h
    · split at h
      · simp at h
      · simp at h
      · cases h
        simp only [List.length_append]
        omega

/-- A name is not empty. -/
theorem identifier?_width_pos {text : List Char} {x : Lexeme} (h : identifier? text = some x) :
    0 < x.width := by
  simp only [identifier?] at h
  split at h
  · next hread =>
    cases h
    exact Quoted.width_pos_of_read? hread
  · cases text with
    | nil => simp [bareName?] at h
    | cons c rest =>
      simp only [bareName?, Option.ite_none_right_eq_some, Option.some.injEq] at h
      rw [← h.2]
      simp

/-- A lexeme is never empty. -/
theorem first?_width_pos {text : List Char} {x : Lexeme} (h : first? text = some x) :
    0 < x.width := by
  rcases first?_eq_some_iff.1 h with h | ⟨-, h | ⟨-, h | ⟨-, h | ⟨-, h⟩⟩⟩⟩
  · exact keyword?_width_pos h
  · exact symbol?_width_pos h
  · exact string?_width_pos h
  · exact numeric?_width_pos h
  · exact identifier?_width_pos h

end Lexeme

end SqlStore
