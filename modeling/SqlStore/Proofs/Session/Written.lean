import SqlStore.Proofs.Session.Texts
import SqlStore.Proofs.Token.Spelling
import Mathlib.Data.String.Basic

/-! # Statements written as texts

A table and its rows as the texts of statements, and what these texts are read as:

* **`quoteName`** and **`Value.literal`** — a name between double quotes, an integer in decimal, a text
  between single quotes. Any text can be a name or a value;
* **`Table.createText`**, **`Table.insertText`**, **`Table.selectText`** — the texts that define the
  table, insert a row and select all columns;
* **`parseText_createText`**, **`parseText_insertText`**, **`parseText_selectText`** — each is read as the
  one statement that it stands for. -/

namespace SqlStore

/-! ## Writing -/

/-- A name between double quotes, those in it doubled. -/
def quoteName (name : String) : String := String.ofList (Quoted.enclose '"' name.toList)

/-- A value as a literal: an integer in decimal, a text between single quotes, those in it doubled. -/
def Value.literal : Value → String
  | .int n => toString n.toInt
  | .text s => String.ofList (Quoted.enclose '\'' s.toList)

/-- The text that defines a table. -/
def Table.createText (t : Table) : String :=
  "CREATE TABLE " ++ quoteName t.name ++ " (" ++
    ", ".intercalate (t.columns.map fun c => quoteName c.name ++ " " ++ c.type.name) ++ ")"

/-- The text that inserts a row into a table. -/
def Table.insertText (t : Table) (row : List Value) : String :=
  "INSERT INTO " ++ quoteName t.name ++ " VALUES (" ++ ", ".intercalate (row.map Value.literal) ++ ")"

/-- The text that selects all columns of a table. -/
def Table.selectText (t : Table) : String :=
  "SELECT " ++ ", ".intercalate (t.columns.map fun c => quoteName c.name) ++ " FROM " ++
    quoteName t.name

/-! ## Words -/

namespace Spelled

/-- A reserved word is read as itself, in any letter case. -/
theorem keyword (k : Keyword) (text : List Char) (h : text.map Char.toLower = k.spelling.toList) :
    Spelled text (OneToken fun t => t.isKeyword k = true) := by
  have hfirst : ∀ rest, Bounded rest →
      Lexeme.first? (text ++ rest) = some ⟨.keyword, k.spelling, text.length⟩ :=
    fun rest hrest => Lexeme.first?_keyword k h fun c hc => (hrest.not_part c hc).1
  refine (word hfirst).mono ?_
  rintro ts ⟨t, rfl, hkind, hvalue⟩
  exact ⟨t, rfl, Token.isKeyword_iff.2 ⟨hkind, hvalue⟩⟩

/-- A quoted name is read as the name. -/
theorem quotedName (name : String) :
    Spelled (quoteName name).toList (OneToken fun t => t.kind = .identifier ∧ t.value = name) := by
  rw [quoteName, String.toList_ofList]
  refine word fun rest hrest => ?_
  have hquote : rest.head? ≠ some '"' := fun hhead => (hrest.not_part _ hhead).2.1.1 rfl
  rw [Lexeme.first?_quotedName _ hquote, String.ofList_toList]

/-- The name of a type is read as a word. -/
theorem typeName (type : ColumnType) :
    Spelled type.name.toList (OneToken fun t => t.kind = .keyword ∧ t.value = type.name) := by
  obtain ⟨k, hk⟩ : ∃ k : Keyword, k.spelling = type.name := by
    cases type
    · exact ⟨.int, rfl⟩
    · exact ⟨.text, rfl⟩
  have hlower : type.name.toList.map Char.toLower = k.spelling.toList := by
    rw [hk]
    cases type <;> rfl
  refine (keyword k _ hlower).mono ?_
  rintro ts ⟨t, rfl, ht⟩
  exact ⟨t, rfl, hk ▸ Token.isKeyword_iff.1 ht⟩

/-- A value without a sign is read as a literal that has it. -/
theorem literal {v : Value} (hv : v.Unsigned) :
    Spelled v.literal.toList (OneToken fun t => t.IsLiteral ∧ t.value? = some v) := by
  cases v with
  | int n =>
    have hdigits : ∀ c ∈ (toString n.toInt).toList, c.isDigit = true := by
      rw [Numeral.toList_decimal hv]
      exact Numeral.isDigit_of_mem_decimal
    have hne : (toString n.toInt).toList ≠ [] := by
      rw [Numeral.toList_decimal hv]
      exact Nat.toDigits_ne_nil
    refine (word fun rest hrest => Lexeme.first?_digits hne hdigits hrest).mono ?_
    rintro ts ⟨t, rfl, hkind, hvalue⟩
    have hread : Numeral.read t.value = .ok n := by
      rw [hvalue, String.ofList_toList]
      exact Numeral.read_decimal hv
    refine ⟨t, rfl, .inr (.inr ⟨hkind, n, hread⟩), ?_⟩
    rw [Token.value?, hkind]
    simp only [hread]
    rfl
  | text s =>
    rw [Value.literal, String.toList_ofList]
    have hfirst : ∀ rest, Bounded rest → Lexeme.first? (Quoted.enclose '\'' s.toList ++ rest)
        = some ⟨.string, s, (Quoted.enclose '\'' s.toList).length⟩ := by
      intro rest hrest
      have hquote : rest.head? ≠ some '\'' := fun hhead => (hrest.not_part _ hhead).2.1.2 rfl
      rw [Lexeme.first?_quotedText _ hquote, String.ofList_toList]
    refine (word hfirst).mono ?_
    rintro ts ⟨t, rfl, hkind, hvalue⟩
    refine ⟨t, rfl, .inr (.inl hkind), ?_⟩
    rw [Token.value?, hkind, hvalue]

/-- A blank may stand between two texts. -/
theorem andThen {text text' : List Char} {Words Words' : List Token → Prop} (h : Spelled text Words)
    (h' : Spelled text' Words') : Spelled (text ++ ' ' :: text') (InOrder Words Words') :=
  h.append (.cons (by decide) text') h'.blank

/-! ## Lists -/

/-- Whether tokens are such for which `P` holds, with parentheses around them. -/
def InParens (P : List Token → Prop) (ts : List Token) : Prop :=
  ∃ openParen inner closeParen, ts = openParen :: (inner ++ [closeParen]) ∧
    openParen.isSymbol .openParen = true ∧ P inner ∧ closeParen.isSymbol .closeParen = true

/-- Parentheses may stand around a text. -/
theorem parens {text : List Char} {Words : List Token → Prop} (h : Spelled text Words) :
    Spelled ('(' :: (text ++ [')'])) (InParens Words) := by
  have hclose : Spelled [')'] _ := mark (s := .closeParen) nil
  have hinner := h.append (.cons (by decide) []) hclose
  have hopen : Spelled ('(' :: (text ++ [')'])) _ := mark (s := .openParen) hinner
  refine hopen.mono ?_
  rintro _ ⟨_, _, rfl, ⟨o, rfl, ho⟩, inner, _, rfl, hwords, _, _, rfl, ⟨c, rfl, hc⟩, rfl⟩
  exact ⟨o, inner, c, rfl, ho, hwords, hc⟩

/-- Written items with commas between them are read as a list of the items. -/
theorem commaList {α β : Type} {write : α → String} {Item : List Token → β → Prop} {R : α → β → Prop}
    {xs : List α} (hne : xs ≠ [])
    (hitem : ∀ x ∈ xs, Spelled (write x).toList fun ts => ∃ y, Item ts y ∧ R x y) :
    Spelled (", ".intercalate (xs.map write)).toList
      fun ts => ∃ ys, Grammar.CommaList Item ts ys ∧ List.Forall₂ R xs ys := by
  rw [String.toList_intercalate, List.map_map]
  induction xs with
  | nil => exact absurd rfl hne
  | cons x xs ih =>
    have hfirst := hitem x List.mem_cons_self
    rw [List.map_cons]
    by_cases hxs : xs = []
    · subst hxs
      rw [List.map_nil, List.intercalate_singleton]
      refine hfirst.mono ?_
      rintro ts ⟨y, hy, hR⟩
      exact ⟨[y], .one hy, .cons hR .nil⟩
    · -- behind the first item stand a comma, a blank and the others
      have hrest := ih hxs fun y hy => hitem y (List.mem_cons_of_mem x hy)
      rw [List.intercalate_cons_of_ne_nil (by simpa using hxs), List.append_assoc]
      have hcomma := hfirst.append (.cons (by decide) _) (mark (s := .comma) hrest.blank)
      refine hcomma.mono ?_
      rintro _ ⟨front, _, rfl, ⟨y, hy, hR⟩, _, back, rfl, ⟨comma, rfl, hc⟩, ys, hys, hRs⟩
      exact ⟨y :: ys, .cons hy hc hys, .cons hR hRs⟩

end Spelled

/-! ## Statements -/

/-- Whether a definition in a statement is that of a column. -/
def ColumnDefinition.Defines (c : Column) (d : ColumnDefinition) : Prop :=
  d.name.value = c.name ∧ d.type.value = c.type.name

/-- Whether an expression is a literal that has a value. -/
def Expression.Denotes (v : Value) : Expression → Prop
  | .literal t => t.IsLiteral ∧ t.value? = some v
  | .binary _ _ _ => False

/-- Whether an expression is the name of a column. -/
def Expression.Names (c : Column) : Expression → Prop
  | .literal t => t.kind = .identifier ∧ t.value = c.name
  | .binary _ _ _ => False

/-- A text that is read as the tokens of one statement is read as this statement. -/
theorem parseText_of_spelled {text : String} {P : Statement → Prop}
    (h : Spelled text.toList fun ts => ∃ statement, Grammar.Clause ts statement ∧ P statement) :
    ∃ statement, parseText text = .ok [statement] ∧ P statement := by
  obtain ⟨ts, hts, statement, hclause, hP⟩ := h.ofText
  rw [String.ofList_toList] at hts
  refine ⟨statement, (parse_eq_ok_iff _ _).2 ⟨?_, ?_⟩, hP⟩ <;> rw [hts]
  exact .last hclause

namespace Table

/-- Whether a statement defines a table. -/
def IsCreatedBy (t : Table) : Statement → Prop
  | .createTable name (some definitions) =>
    name.value = t.name ∧ List.Forall₂ ColumnDefinition.Defines t.columns definitions
  | _ => False

/-- Whether a statement inserts a row of values into a table. -/
def TakesRow (t : Table) (row : List Value) : Statement → Prop
  | .insert table (some values) => table.value = t.name ∧ List.Forall₂ Expression.Denotes row values
  | _ => False

/-- Whether a statement selects all columns of a table. -/
def IsSelectedBy (t : Table) : Statement → Prop
  | .select items table => table.value = t.name ∧ List.Forall₂ Expression.Names t.columns items
  | _ => False

variable {t : Table}

/-- The text that defines a table is read as its definition. -/
theorem parseText_createText (hne : t.columns ≠ []) :
    ∃ statement, parseText t.createText = .ok [statement] ∧ t.IsCreatedBy statement := by
  have hcolumn : ∀ c ∈ t.columns, Spelled (quoteName c.name ++ " " ++ c.type.name).toList
      fun ts => ∃ d, Grammar.Column ts d ∧ ColumnDefinition.Defines c d := by
    intro c _
    rw [String.toList_append, String.toList_append, List.append_assoc]
    refine ((Spelled.quotedName c.name).andThen (Spelled.typeName c.type)).mono ?_
    rintro _ ⟨_, _, rfl, ⟨name, rfl, hname, hvalue⟩, type, rfl, htype, htypeName⟩
    exact ⟨⟨name, type⟩, .mk hname (.inl htype), hvalue, htypeName⟩
  have htext := (Spelled.keyword .create "CREATE".toList rfl).andThen
    ((Spelled.keyword .table "TABLE".toList rfl).andThen
      ((Spelled.quotedName t.name).andThen (Spelled.commaList hne hcolumn).parens))
  have hsame : t.createText.toList = "CREATE".toList ++ ' ' :: ("TABLE".toList ++ ' ' ::
      ((quoteName t.name).toList ++ ' ' :: '(' :: ((", ".intercalate
        (t.columns.map fun c => quoteName c.name ++ " " ++ c.type.name)).toList ++ [')']))) := by
    unfold createText
    simp only [String.toList_append, String.reduceToList, List.cons_append, List.nil_append,
      List.append_assoc]
  apply parseText_of_spelled
  rw [hsame]
  refine htext.mono ?_
  rintro _ ⟨_, _, rfl, ⟨create, rfl, hcreate⟩, _, _, rfl, ⟨table, rfl, htable⟩, _, _, rfl,
    ⟨name, rfl, hname, hvalue⟩, openParen, inner, closeParen, rfl, hopen,
    ⟨definitions, hlist, hdefinitions⟩, hclose⟩
  exact ⟨_, .createTableWith hcreate htable hname hopen hlist hclose, hvalue, hdefinitions⟩

/-- The text that inserts a row is read as its insertion. -/
theorem parseText_insertText {row : List Value} (hne : row ≠ []) (hrow : ∀ v ∈ row, v.Unsigned) :
    ∃ statement, parseText (t.insertText row) = .ok [statement] ∧ t.TakesRow row statement := by
  have hvalue : ∀ v ∈ row, Spelled v.literal.toList
      fun ts => ∃ e, Grammar.Chain ts e ∧ Expression.Denotes v e := by
    intro v hv
    refine (Spelled.literal (hrow v hv)).mono ?_
    rintro _ ⟨token, rfl, hliteral, hdenotes⟩
    exact ⟨.literal token, .literal hliteral, hliteral, hdenotes⟩
  have htext := (Spelled.keyword .insert "INSERT".toList rfl).andThen
    ((Spelled.keyword .into "INTO".toList rfl).andThen
      ((Spelled.quotedName t.name).andThen
        ((Spelled.keyword .values "VALUES".toList rfl).andThen
          (Spelled.commaList hne hvalue).parens)))
  have hsame : (t.insertText row).toList = "INSERT".toList ++ ' ' :: ("INTO".toList ++ ' ' ::
      ((quoteName t.name).toList ++ ' ' :: ("VALUES".toList ++ ' ' :: '(' :: ((", ".intercalate
        (row.map Value.literal)).toList ++ [')'])))) := by
    unfold insertText
    simp only [String.toList_append, String.reduceToList, List.cons_append, List.nil_append,
      List.append_assoc]
  apply parseText_of_spelled
  rw [hsame]
  refine htext.mono ?_
  rintro _ ⟨_, _, rfl, ⟨insert, rfl, hinsert⟩, _, _, rfl, ⟨into, rfl, hinto⟩, _, _, rfl,
    ⟨name, rfl, hname, hvalue⟩, _, _, rfl, ⟨values, rfl, hvalues⟩, openParen, inner, closeParen, rfl,
    hopen, ⟨expressions, hlist, hexpressions⟩, hclose⟩
  exact ⟨_, .insertValues hinsert hinto hname hvalues hopen hlist hclose, hvalue, hexpressions⟩

/-- The text that selects all columns is read as their selection. -/
theorem parseText_selectText (hne : t.columns ≠ []) :
    ∃ statement, parseText t.selectText = .ok [statement] ∧ t.IsSelectedBy statement := by
  have hitem : ∀ c ∈ t.columns, Spelled (quoteName c.name).toList
      fun ts => ∃ e, Grammar.Chain ts e ∧ Expression.Names c e := by
    intro c _
    refine (Spelled.quotedName c.name).mono ?_
    rintro _ ⟨token, rfl, hname⟩
    exact ⟨.literal token, .literal (.inl hname.1), hname⟩
  have htext := (Spelled.keyword .select "SELECT".toList rfl).andThen
    ((Spelled.commaList hne hitem).andThen
      ((Spelled.keyword .from_ "FROM".toList rfl).andThen (Spelled.quotedName t.name)))
  have hsame : t.selectText.toList = "SELECT".toList ++ ' ' :: ((", ".intercalate
      (t.columns.map fun c => quoteName c.name)).toList ++ ' ' :: ("FROM".toList ++ ' ' ::
        (quoteName t.name).toList)) := by
    unfold selectText
    simp only [String.toList_append, String.reduceToList, List.cons_append, List.nil_append,
      List.append_assoc]
  apply parseText_of_spelled
  rw [hsame]
  refine htext.mono ?_
  rintro _ ⟨_, _, rfl, ⟨select, rfl, hselect⟩, _, _, rfl, ⟨items, hlist, hitems⟩, _, _, rfl,
    ⟨from_, rfl, hfrom⟩, name, rfl, hname, hvalue⟩
  exact ⟨_, .select hselect hlist hfrom hname, hvalue, hitems⟩

end Table

end SqlStore
