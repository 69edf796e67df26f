import SqlStore.Numeral
import SqlStore.Statement
import Mathlib.Data.List.Forall2

/-! # The grammar of statements

Which tokens are which statements, without saying how they are read:

* **`Grammar.Chain`**, **`Grammar.CommaList`**, **`Grammar.Column`** — expressions, lists with commas
  and column definitions;
* **`Grammar.Clause`** — a statement;
* **`Grammar.Script`** — statements with one or more semicolons between them and any number of
  semicolons in front and behind;
* **`Word`** and **`Statement.words`** — a statement written out again: its own tokens, and between
  them reserved words and symbols.

`Script.segments` says that the stretches of tokens between semicolons are the statements, and
`Clause.words` that each stretch is its statement written out. -/

namespace SqlStore

/-- Whether a token is a literal: a name, a string or a signed 32-bit integer. -/
def Token.IsLiteral (t : Token) : Prop :=
  t.kind = .identifier ∨ t.kind = .string ∨ t.kind = .numeric ∧ ∃ n, Numeral.read t.value = .ok n

/-! ## Symbols and reserved words -/

/-- Symbols are told apart by their spelling. -/
theorem Symbol.spelling_injective {a b : Symbol} (h : a.spelling = b.spelling) : a = b := by
  cases a <;> cases b <;> first | rfl | exact absurd h (by decide)

/-- Reserved words are told apart by their spelling. -/
theorem Keyword.spelling_injective {a b : Keyword} (h : a.spelling = b.spelling) : a = b := by
  cases a <;> cases b <;> first | rfl | exact absurd h (by decide)

namespace Token

/-- A token is a symbol if its kind and its value say so. -/
theorem isSymbol_iff {t : Token} {s : Symbol} :
    t.isSymbol s = true ↔ t.kind = .symbol ∧ t.value = s.spelling := by
  rw [isSymbol, Bool.and_eq_true, beq_iff_eq, beq_iff_eq]

/-- A token is a reserved word if its kind and its value say so. -/
theorem isKeyword_iff {t : Token} {k : Keyword} :
    t.isKeyword k = true ↔ t.kind = .keyword ∧ t.value = k.spelling := by
  rw [isKeyword, Bool.and_eq_true, beq_iff_eq, beq_iff_eq]

/-- A token of another kind is no symbol. -/
theorem isSymbol_of_kind {t : Token} (h : t.kind ≠ .symbol) (s : Symbol) : t.isSymbol s = false := by
  rw [Bool.eq_false_iff, Ne, isSymbol_iff]
  exact fun hs => h hs.1

/-- A token of another kind is no reserved word. -/
theorem isKeyword_of_kind {t : Token} (h : t.kind ≠ .keyword) (k : Keyword) :
    t.isKeyword k = false := by
  rw [Bool.eq_false_iff, Ne, isKeyword_iff]
  exact fun hk => h hk.1

/-- A symbol is no other symbol. -/
theorem isSymbol_of_ne {t : Token} {s other : Symbol} (h : t.isSymbol s = true) (hne : s ≠ other) :
    t.isSymbol other = false := by
  rw [Bool.eq_false_iff, Ne, isSymbol_iff]
  intro hother
  exact hne (Symbol.spelling_injective ((isSymbol_iff.1 h).2.symm.trans hother.2))

/-- A reserved word is no other reserved word. -/
theorem isKeyword_of_ne {t : Token} {k other : Keyword} (h : t.isKeyword k = true)
    (hne : k ≠ other) : t.isKeyword other = false := by
  rw [Bool.eq_false_iff, Ne, isKeyword_iff]
  intro hother
  exact hne (Keyword.spelling_injective ((isKeyword_iff.1 h).2.symm.trans hother.2))

/-- A symbol is no reserved word. -/
theorem isKeyword_of_isSymbol {t : Token} {s : Symbol} (h : t.isSymbol s = true) (k : Keyword) :
    t.isKeyword k = false :=
  isKeyword_of_kind (by rw [(isSymbol_iff.1 h).1]; decide) k

/-- A reserved word is no symbol. -/
theorem isSymbol_of_isKeyword {t : Token} {k : Keyword} (h : t.isKeyword k = true) (s : Symbol) :
    t.isSymbol s = false :=
  isSymbol_of_kind (by rw [(isKeyword_iff.1 h).1]; decide) s

/-- A literal is no symbol. -/
theorem IsLiteral.isSymbol {t : Token} (h : t.IsLiteral) (s : Symbol) : t.isSymbol s = false := by
  apply isSymbol_of_kind
  rcases h with hkind | hkind | ⟨hkind, -⟩ <;> rw [hkind] <;> decide

/-- An operator is neither a semicolon nor a comma nor a parenthesis. -/
theorem isSymbol_of_isOperator {t : Token} (h : t.isOperator = true) {s : Symbol}
    (hconcat : s ≠ .concat) (hequal : s ≠ .equal) : t.isSymbol s = false := by
  rcases Bool.or_eq_true_iff.1 h with hs | hs
  · exact isSymbol_of_ne hs hconcat.symm
  · exact isSymbol_of_ne hs hequal.symm

/-- No other symbol is an operator. -/
theorem isOperator_of_isSymbol {t : Token} {s : Symbol} (h : t.isSymbol s = true)
    (hconcat : s ≠ .concat) (hequal : s ≠ .equal) : t.isOperator = false := by
  rw [isOperator, isSymbol_of_ne h hconcat, isSymbol_of_ne h hequal]
  rfl

/-- No reserved word is an operator. -/
theorem isOperator_of_isKeyword {t : Token} {k : Keyword} (h : t.isKeyword k = true) :
    t.isOperator = false := by
  rw [isOperator, isSymbol_of_isKeyword h, isSymbol_of_isKeyword h]
  rfl

end Token

/-! ## The grammar -/

namespace Grammar

/-- A chain of literals joined by operators, grouped to the left. -/
inductive Chain : List Token → Expression → Prop
  | literal {t : Token} (ht : t.IsLiteral) : Chain [t] (.literal t)
  | join {ts : List Token} {left : Expression} {operator t : Token} (hleft : Chain ts left)
      (hoperator : operator.isOperator = true) (ht : t.IsLiteral) :
      Chain (ts ++ [operator, t]) (.binary left operator (.literal t))

/-- One or more items with commas between them. -/
inductive CommaList {α : Type} (Item : List Token → α → Prop) : List Token → List α → Prop
  | one {ts : List Token} {x : α} (hx : Item ts x) : CommaList Item ts [x]
  | cons {ts : List Token} {x : α} {comma : Token} {rest : List Token} {xs : List α} (hx : Item ts x)
      (hcomma : comma.isSymbol .comma = true) (hxs : CommaList Item rest xs) :
      CommaList Item (ts ++ comma :: rest) (x :: xs)

/-- A column definition: a name and a type, which is any name or reserved word. -/
inductive Column : List Token → ColumnDefinition → Prop
  | mk {name type : Token} (hname : name.kind = .identifier)
      (htype : type.kind = .keyword ∨ type.kind = .identifier) : Column [name, type] ⟨name, type⟩

/-- A statement. -/
inductive Clause : List Token → Statement → Prop
  | createTable {create table name : Token} (hcreate : create.isKeyword .create = true)
      (htable : table.isKeyword .table = true) (hname : name.kind = .identifier) :
      Clause [create, table, name] (.createTable name none)
  | createTableWith {create table name openParen closeParen : Token} {ts : List Token}
      {columns : List ColumnDefinition} (hcreate : create.isKeyword .create = true)
      (htable : table.isKeyword .table = true) (hname : name.kind = .identifier)
      (hopen : openParen.isSymbol .openParen = true) (hcolumns : CommaList Column ts columns)
      (hclose : closeParen.isSymbol .closeParen = true) :
      Clause (create :: table :: name :: openParen :: (ts ++ [closeParen]))
        (.createTable name (some columns))
  | insert {insert into name : Token} (hinsert : insert.isKeyword .insert = true)
      (hinto : into.isKeyword .into = true) (hname : name.kind = .identifier) :
      Clause [insert, into, name] (.insert name none)
  | insertValues {insert into name values openParen closeParen : Token} {ts : List Token}
      {expressions : List Expression} (hinsert : insert.isKeyword .insert = true)
      (hinto : into.isKeyword .into = true) (hname : name.kind = .identifier)
      (hvalues : values.isKeyword .values = true) (hopen : openParen.isSymbol .openParen = true)
      (hexpressions : CommaList Chain ts expressions)
      (hclose : closeParen.isSymbol .closeParen = true) :
      Clause (insert :: into :: name :: values :: openParen :: (ts ++ [closeParen]))
        (.insert name (some expressions))
  | select {select from_ name : Token} {ts : List Token} {items : List Expression}
      (hselect : select.isKeyword .select = true) (hitems : CommaList Chain ts items)
      (hfrom : from_.isKeyword .from_ = true) (hname : name.kind = .identifier) :
      Clause (select :: (ts ++ [from_, name])) (.select items name)

/-- Statements with one or more semicolons between them and any number in front and behind. -/
inductive Script : List Token → List Statement → Prop
  | nil : Script [] []
  | semicolon {semicolon : Token} {ts : List Token} {statements : List Statement}
      (hsemicolon : semicolon.isSymbol .semicolon = true) (hrest : Script ts statements) :
      Script (semicolon :: ts) statements
  | last {ts : List Token} {statement : Statement} (hstatement : Clause ts statement) :
      Script ts [statement]
  | cons {ts : List Token} {statement : Statement} {semicolon : Token} {rest : List Token}
      {statements : List Statement} (hstatement : Clause ts statement)
      (hsemicolon : semicolon.isSymbol .semicolon = true) (hrest : Script rest statements) :
      Script (ts ++ semicolon :: rest) (statement :: statements)

end Grammar

/-! ## Statements written out -/

/-- A word of a statement that is written out: a reserved word or a symbol, which may stand anywhere,
or one of the statement's own tokens. -/
inductive Word where
  | keyword (k : Keyword)
  | symbol (s : Symbol)
  | token (t : Token)
  deriving DecidableEq, Repr

/-- Whether a token is what a word asks for. -/
def Word.Matches : Word → Token → Prop
  | .keyword k, t => t.isKeyword k = true
  | .symbol s, t => t.isSymbol s = true
  | .token expected, t => t = expected

/-- The words of items with commas between them. -/
def commaWords {α : Type} (words : α → List Word) (items : List α) : List Word :=
  [Word.symbol .comma].intercalate (items.map words)

/-- An expression written out. -/
def Expression.words : Expression → List Word
  | .literal t => [.token t]
  | .binary left operator right => left.words ++ .token operator :: right.words

/-- A column definition written out. -/
def ColumnDefinition.words (d : ColumnDefinition) : List Word := [.token d.name, .token d.type]

/-- A statement written out. -/
def Statement.words : Statement → List Word
  | .createTable name columns =>
    [.keyword .create, .keyword .table, .token name] ++
      match columns with
      | none => []
      | some columns =>
        .symbol .openParen :: (commaWords ColumnDefinition.words columns ++ [.symbol .closeParen])
  | .insert table values =>
    [.keyword .insert, .keyword .into, .token table] ++
      match values with
      | none => []
      | some values =>
        .keyword .values :: .symbol .openParen ::
          (commaWords Expression.words values ++ [.symbol .closeParen])
  | .select items table =>
    .keyword .select :: (commaWords Expression.words items ++ [.keyword .from_, .token table])

/-- Whether an expression is a chain grouped to the left, with literals on every right side. -/
def Expression.LeftNested : Expression → Prop
  | .literal t => t.IsLiteral
  | .binary left operator right =>
    left.LeftNested ∧ operator.isOperator = true ∧ ∃ t, right = .literal t ∧ t.IsLiteral

/-- The expressions in a statement. -/
def Statement.expressions : Statement → List Expression
  | .createTable _ _ => []
  | .insert _ values => values.getD []
  | .select items _ => items

namespace Grammar

/-- A chain is its expression written out. -/
theorem Chain.words {ts : List Token} {e : Expression} (h : Chain ts e) :
    List.Forall₂ Word.Matches e.words ts := by
  induction h with
  | literal ht => exact .cons rfl .nil
  | join hleft hoperator ht ih => exact List.rel_append ih (.cons rfl (.cons rfl .nil))

/-- A chain is grouped to the left. -/
theorem Chain.leftNested {ts : List Token} {e : Expression} (h : Chain ts e) : e.LeftNested := by
  induction h with
  | literal ht => exact ht
  | join hleft hoperator ht ih => exact ⟨ih, hoperator, _, rfl, ht⟩

/-- A column is its definition written out. -/
theorem Column.words {ts : List Token} {d : ColumnDefinition} (h : Column ts d) :
    List.Forall₂ Word.Matches d.words ts := by
  cases h with
  | mk hname htype => exact .cons rfl (.cons rfl .nil)

section CommaList

variable {α : Type} {Item : List Token → α → Prop} {ts : List Token} {xs : List α}

/-- A list with commas has items. -/
theorem CommaList.ne_nil (h : CommaList Item ts xs) : xs ≠ [] := by
  cases h <;> exact List.cons_ne_nil _ _

/-- A list with commas is its items written out if each of them is. -/
theorem CommaList.words (h : CommaList Item ts xs) {words : α → List Word}
    (hitem : ∀ {ts x}, Item ts x → List.Forall₂ Word.Matches (words x) ts) :
    List.Forall₂ Word.Matches (commaWords words xs) ts := by
  induction h with
  | one hx =>
    rw [commaWords, List.map_singleton, List.intercalate_singleton]
    exact hitem hx
  | cons hx hcomma hxs ih =>
    rw [commaWords, List.map_cons, List.intercalate_cons_of_ne_nil (by simpa using hxs.ne_nil),
      List.append_assoc]
    exact List.rel_append (hitem hx) (.cons hcomma ih)

/-- Every item of a list with commas has tokens of its own among those of the list. -/
theorem CommaList.sublist_of_mem (h : CommaList Item ts xs) :
    ∀ x ∈ xs, ∃ words, words.Sublist ts ∧ Item words x := by
  induction h with
  | one hx =>
    intro x hmem
    obtain rfl := List.mem_singleton.1 hmem
    exact ⟨_, .refl _, hx⟩
  | cons hx hcomma hxs ih =>
    intro x hmem
    rcases List.mem_cons.1 hmem with rfl | hmem
    · exact ⟨_, List.sublist_append_left _ _, hx⟩
    · obtain ⟨words, hwords, hitem⟩ := ih x hmem
      exact ⟨words, (hwords.cons _).trans (List.sublist_append_right _ _), hitem⟩

/-- Every item of a list with commas has tokens of its own. -/
theorem CommaList.of_mem (h : CommaList Item ts xs) : ∀ x ∈ xs, ∃ words, Item words x := by
  intro x hmem
  obtain ⟨words, -, hitem⟩ := h.sublist_of_mem x hmem
  exact ⟨words, hitem⟩

/-- A list with commas has no more items than tokens if no item is empty. -/
theorem CommaList.length_le (h : CommaList Item ts xs)
    (hitem : ∀ {ts x}, Item ts x → 0 < ts.length) : xs.length ≤ ts.length := by
  induction h with
  | one hx => exact hitem hx
  | cons hx hcomma hxs ih =>
    rw [List.length_cons, List.length_append, List.length_cons]
    omega

/-- A list with commas has no semicolon if its items have none. -/
theorem CommaList.no_semicolon (h : CommaList Item ts xs)
    (hitem : ∀ {ts x}, Item ts x → ∀ t ∈ ts, t.isSymbol .semicolon = false) :
    ∀ t ∈ ts, t.isSymbol .semicolon = false := by
  induction h with
  | one hx => exact hitem hx
  | cons hx hcomma hxs ih =>
    intro t ht
    rcases List.mem_append.1 ht with ht | ht
    · exact hitem hx t ht
    · rcases List.mem_cons.1 ht with rfl | ht
      · exact Token.isSymbol_of_ne hcomma (by decide)
      · exact ih t ht

end CommaList

/-- A statement's tokens are the statement written out. -/
theorem Clause.words {ts : List Token} {statement : Statement} (h : Clause ts statement) :
    List.Forall₂ Word.Matches statement.words ts := by
  cases h with
  | createTable hcreate htable hname => exact .cons hcreate (.cons htable (.cons rfl .nil))
  | createTableWith hcreate htable hname hopen hcolumns hclose =>
    have hwords := hcolumns.words Column.words
    exact .cons hcreate (.cons htable (.cons rfl (.cons hopen
      (List.rel_append hwords (.cons hclose .nil)))))
  | insert hinsert hinto hname => exact .cons hinsert (.cons hinto (.cons rfl .nil))
  | insertValues hinsert hinto hname hvalues hopen hexpressions hclose =>
    have hwords := hexpressions.words Chain.words
    exact .cons hinsert (.cons hinto (.cons rfl (.cons hvalues (.cons hopen
      (List.rel_append hwords (.cons hclose .nil))))))
  | select hselect hitems hfrom hname =>
    have hwords := hitems.words Chain.words
    exact .cons hselect (List.rel_append hwords (.cons hfrom (.cons rfl .nil)))

/-- The expressions of a statement are grouped to the left. -/
theorem Clause.leftNested {ts : List Token} {statement : Statement} (h : Clause ts statement) :
    ∀ e ∈ statement.expressions, e.LeftNested := by
  -- every member of a list of expressions is a chain of its own
  have hlist : ∀ {ts : List Token} {expressions : List Expression}, CommaList Chain ts expressions →
      ∀ e ∈ expressions, e.LeftNested := by
    intro ts expressions hexpressions e he
    obtain ⟨words, hwords⟩ := hexpressions.of_mem e he
    exact hwords.leftNested
  cases h with
  | insertValues hinsert hinto hname hvalues hopen hexpressions hclose => exact hlist hexpressions
  | select hselect hitems hfrom hname => exact hlist hitems
  | _ => exact List.forall_mem_nil _

/-! ## The stretches between semicolons -/

/-- The stretches of tokens between semicolons, the empty ones left out. -/
def segments (ts : List Token) : List (List Token) :=
  (ts.splitOnP (·.isSymbol .semicolon)).filter fun segment => !segment.isEmpty

/-- A chain has no semicolon. -/
theorem Chain.no_semicolon {ts : List Token} {e : Expression} (h : Chain ts e) :
    ∀ t ∈ ts, t.isSymbol .semicolon = false := by
  induction h with
  | literal ht => simpa using ht.isSymbol .semicolon
  | join hleft hoperator ht ih =>
    intro t hmem
    rcases List.mem_append.1 hmem with hmem | hmem
    · exact ih t hmem
    · rcases List.mem_pair.1 hmem with rfl | rfl
      · exact Token.isSymbol_of_isOperator hoperator (by decide) (by decide)
      · exact ht.isSymbol _

/-- A column has no semicolon. -/
theorem Column.no_semicolon {ts : List Token} {d : ColumnDefinition} (h : Column ts d) :
    ∀ t ∈ ts, t.isSymbol .semicolon = false := by
  cases h with
  | mk hname htype =>
    intro t ht
    apply Token.isSymbol_of_kind
    rcases List.mem_pair.1 ht with rfl | rfl
    · rw [hname]
      decide
    · rcases htype with htype | htype <;> rw [htype] <;> decide

/-- A name is no symbol. -/
theorem name_no_semicolon {t : Token} (h : t.kind = .identifier) :
    t.isSymbol .semicolon = false :=
  Token.isSymbol_of_kind (by rw [h]; decide) _

/-- A statement has no semicolon. -/
theorem Clause.no_semicolon {ts : List Token} {statement : Statement} (h : Clause ts statement) :
    ∀ t ∈ ts, t.isSymbol .semicolon = false := by
  cases h with
  | createTable hcreate htable hname =>
    simp [Token.isSymbol_of_isKeyword hcreate, Token.isSymbol_of_isKeyword htable,
      name_no_semicolon hname]
  | createTableWith hcreate htable hname hopen hcolumns hclose =>
    have hinner := hcolumns.no_semicolon Column.no_semicolon
    simp only [List.forall_mem_cons, List.forall_mem_append]
    exact ⟨Token.isSymbol_of_isKeyword hcreate _, Token.isSymbol_of_isKeyword htable _,
      name_no_semicolon hname, Token.isSymbol_of_ne hopen (by decide), hinner,
      Token.isSymbol_of_ne hclose (by decide), List.forall_mem_nil _⟩
  | insert hinsert hinto hname =>
    simp [Token.isSymbol_of_isKeyword hinsert, Token.isSymbol_of_isKeyword hinto,
      name_no_semicolon hname]
  | insertValues hinsert hinto hname hvalues hopen hexpressions hclose =>
    have hinner := hexpressions.no_semicolon Chain.no_semicolon
    simp only [List.forall_mem_cons, List.forall_mem_append]
    exact ⟨Token.isSymbol_of_isKeyword hinsert _, Token.isSymbol_of_isKeyword hinto _,
      name_no_semicolon hname, Token.isSymbol_of_isKeyword hvalues _,
      Token.isSymbol_of_ne hopen (by decide), hinner, Token.isSymbol_of_ne hclose (by decide),
      List.forall_mem_nil _⟩
  | select hselect hitems hfrom hname =>
    have hinner := hitems.no_semicolon Chain.no_semicolon
    simp only [List.forall_mem_cons, List.forall_mem_append]
    exact ⟨Token.isSymbol_of_isKeyword hselect _, hinner, Token.isSymbol_of_isKeyword hfrom _,
      name_no_semicolon hname, List.forall_mem_nil _⟩

/-- A statement has tokens. -/
theorem Clause.ne_nil {ts : List Token} {statement : Statement} (h : Clause ts statement) :
    ts ≠ [] := by
  cases h <;> exact List.cons_ne_nil _ _

/-- The statements of a script are the stretches between its semicolons. -/
theorem Script.segments {ts : List Token} {statements : List Statement} (h : Script ts statements) :
    List.Forall₂ Clause (segments ts) statements := by
  induction h with
  | nil => exact .nil
  | semicolon hsemicolon hrest ih =>
    rw [Grammar.segments, List.splitOnP_cons_eq_if_modifyHead, if_pos hsemicolon]
    exact ih
  | last hstatement =>
    rw [Grammar.segments, List.splitOnP_eq_singleton hstatement.no_semicolon,
      List.filter_cons_of_pos (by simpa using hstatement.ne_nil)]
    exact .cons hstatement .nil
  | cons hstatement hsemicolon hrest ih =>
    rw [Grammar.segments,
      List.splitOnP_append_cons_of_forall_mem hstatement.no_semicolon _ hsemicolon,
      List.filter_cons_of_pos (by simpa using hstatement.ne_nil)]
    exact .cons hstatement ih

/-- Whether the stretches between semicolons are the statements written out. -/
def WrittenOut (ts : List Token) (statements : List Statement) : Prop :=
  List.Forall₂ (fun segment statement => List.Forall₂ Word.Matches statement.words segment)
    (segments ts) statements

/-- A script is its statements written out, with semicolons around them. -/
theorem Script.writtenOut {ts : List Token} {statements : List Statement} (h : Script ts statements) :
    WrittenOut ts statements :=
  h.segments.imp fun _ _ => Clause.words

/-- Every statement of a script has tokens of its own among those of the script. -/
theorem Script.sublist_of_mem {ts : List Token} {statements : List Statement}
    (h : Script ts statements) :
    ∀ statement ∈ statements, ∃ words, words.Sublist ts ∧ Clause words statement := by
  induction h with
  | nil => exact List.forall_mem_nil _
  | semicolon hsemicolon hrest ih =>
    intro statement hmem
    obtain ⟨words, hwords, hclause⟩ := ih statement hmem
    exact ⟨words, hwords.cons _, hclause⟩
  | last hstatement =>
    intro statement hmem
    obtain rfl := List.mem_singleton.1 hmem
    exact ⟨_, .refl _, hstatement⟩
  | cons hstatement hsemicolon hrest ih =>
    intro statement hmem
    rcases List.mem_cons.1 hmem with rfl | hmem
    · exact ⟨_, List.sublist_append_left _ _, hstatement⟩
    · obtain ⟨words, hwords, hclause⟩ := ih statement hmem
      exact ⟨words, (hwords.cons _).trans (List.sublist_append_right _ _), hclause⟩

/-- Every statement of a script has tokens of its own. -/
theorem Script.of_mem {ts : List Token} {statements : List Statement} (h : Script ts statements) :
    ∀ statement ∈ statements, ∃ words, Clause words statement := by
  intro statement hmem
  obtain ⟨words, -, hclause⟩ := h.sublist_of_mem statement hmem
  exact ⟨words, hclause⟩

end Grammar

end SqlStore
