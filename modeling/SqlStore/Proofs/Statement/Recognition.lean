import SqlStore.Proofs.Statement.Reads
import SqlStore.Proofs.Token.Pieces

/-! # The parser recognises the grammar

* **`reads_expression`**, **`reads_createTable`**, **`reads_insert`**, **`reads_select`** — the parser
  of each part reads the words of that part of the grammar;
* **`run_statements`** — the statements of a stream are read exactly if its tokens are a script;
* **`parseText_recognises`** — a text is read as statements exactly if all of it can be read into
  tokens and the tokens are these statements. -/

namespace SqlStore

namespace Parser

open Grammar

/-! ## Single tokens -/

/-- A name is taken. -/
theorem reads_name : name.Reads (Single (·.kind = .identifier) id) fun _ => True := by
  apply reads_next
  · exact ⟨⟨.identifier, "", {}⟩, rfl⟩
  · intro t s ht
    simp only [if_pos ht]
    rfl
  · intro t ht
    simp only [if_neg ht]
    exact ⟨.expectedName t, rfl, fun _ => rfl⟩

/-- The name of a type is taken. -/
theorem reads_typeName :
    typeName.Reads (Single (fun t => t.kind = .keyword ∨ t.kind = .identifier) id) fun _ => True := by
  apply reads_next
  · exact ⟨⟨.identifier, "", {}⟩, .inr rfl⟩
  · intro t s ht
    simp only [if_pos ht]
    rfl
  · intro t ht
    simp only [if_neg ht]
    exact ⟨.expectedType t, rfl, fun _ => rfl⟩

/-- A literal is taken. -/
theorem reads_literal : literal.Reads (Single Token.IsLiteral id) fun _ => True := by
  apply reads_next
  · exact ⟨⟨.identifier, "", {}⟩, .inl rfl⟩
  -- case on the kind of the token; a number has to be readable as well
  · rintro t s (hkind | hkind | ⟨hkind, n, hn⟩)
    · simp only [hkind]
      rfl
    · simp only [hkind]
      rfl
    · simp only [hkind, hn]
      rfl
  · intro t ht
    cases hkind : t.kind with
    | keyword => exact ⟨.unexpectedToken t, rfl, fun _ => rfl⟩
    | symbol => exact ⟨.unexpectedToken t, rfl, fun _ => rfl⟩
    | identifier => exact absurd (.inl hkind) ht
    | string => exact absurd (.inr (.inl hkind)) ht
    | numeric =>
      cases hread : Numeral.read t.value with
      | ok n => exact absurd (.inr (.inr ⟨hkind, n, hread⟩)) ht
      | error fault => exact ⟨.unsupportedNumber t, rfl, fun _ => rfl⟩

/-! ## Expressions and columns -/

/-- The operand that an operator joins to the expression before it. -/
def join (left : Expression) (operand : Token × Token) : Expression :=
  .binary left operand.1 (.literal operand.2)

/-- An operator and the literal behind it. -/
def Operand (operator : Token) (ts : List Token) (operand : Token × Token) : Prop :=
  operand.2.IsLiteral ∧ ts = [operand.2] ∧ operand.1 = operator

/-- A chain is a literal and operands joined to it from left to right. -/
theorem chain_iff {ts : List Token} {e : Expression} :
    Chain ts e ↔ ∃ (t : Token) (back : List Token) (operands : List (Token × Token)),
      t.IsLiteral ∧ Rounds Token.isOperator Operand back operands ∧
        e = operands.foldl join (.literal t) ∧ ts = t :: back := by
  constructor
  · intro h
    induction h with
    | @literal t ht => exact ⟨t, [], [], ht, .nil, rfl, rfl⟩
    | @join ts left operator t hleft hoperator ht ih =>
      obtain ⟨first, back, operands, hfirst, hoperands, rfl, rfl⟩ := ih
      refine ⟨first, back ++ [operator, t], operands ++ [(operator, t)], hfirst,
        hoperands.concat hoperator ⟨ht, rfl, rfl⟩, ?_, rfl⟩
      rw [List.foldl_append]
      rfl
  · rintro ⟨t, back, operands, ht, hoperands, rfl, rfl⟩
    -- the chain read so far grows by one operand in every round
    have hgrow : ∀ {front left}, Chain front left →
        Chain (front ++ back) (operands.foldl join left) := by
      induction hoperands with
      | nil =>
        intro front left hleft
        rwa [List.append_nil]
      | @cons operator words rest operand operands hoperator hwords hrest ih =>
        intro front left hleft
        obtain ⟨hliteral, rfl, hsame⟩ := hwords
        rw [List.foldl_cons]
        have hjoined : Chain (front ++ [operator, operand.2]) (join left operand) := by
          rw [← hsame]
          exact .join hleft (by rwa [hsame]) hliteral
        have hchain := ih hjoined
        rwa [List.append_assoc] at hchain
    exact hgrow (.literal ht)

/-- A chain of literals is read, up to a token that is no operator. -/
theorem reads_expression : expression.Reads Chain fun t => t.isOperator = false := by
  have hoperand : ∀ operator, Reads (do return (operator, ← literal)) (Operand operator)
      fun _ => True := by
    intro operator
    refine (reads_literal.map (operator, ·)).mono (fun ts operand => ?_) fun _ => id
    constructor
    · rintro ⟨_, ⟨t, ht, rfl, rfl⟩, rfl⟩
      exact ⟨ht, rfl, rfl⟩
    · rintro ⟨ht, rfl, rfl⟩
      exact ⟨operand.2, ⟨_, ht, rfl, rfl⟩, rfl⟩
  have hmany : Reads (many Token.isOperator fun operator => return (operator, ← literal)) _ _ :=
    reads_many hoperand fun _ _ => trivial
  have hraw := reads_literal.andThen fun first => hmany.map fun operands =>
    operands.foldl join (.literal first)
  refine hraw.mono (fun ts e => ?_) fun _ hend => ⟨trivial, hend⟩
  rw [chain_iff, inTurn_single_iff]
  constructor
  · rintro ⟨t, back, ht, ⟨operands, hoperands, rfl⟩, rfl⟩
    exact ⟨t, back, operands, ht, hoperands, rfl, rfl⟩
  · rintro ⟨t, back, operands, ht, hoperands, rfl, rfl⟩
    exact ⟨t, back, ht, ⟨operands, hoperands, rfl⟩, rfl⟩

/-- A list of expressions with commas between them is read. -/
theorem reads_expressions : (commaSeparated expression).Reads (CommaList Chain)
    fun t => t.isOperator = false ∧ t.isSymbol .comma = false := by
  apply reads_commaSeparated reads_expression
  intro t ht
  exact Token.isOperator_of_isSymbol ht (by decide) (by decide)

/-- A column definition is read. -/
theorem reads_columnDefinition : columnDefinition.Reads Column fun _ => True := by
  have hraw := reads_name.andThen fun name => reads_typeName.map fun type =>
    ({ name, type } : ColumnDefinition)
  refine hraw.mono (fun ts d => ?_) fun _ => id
  rw [inTurn_single_iff]
  constructor
  · rintro ⟨name, _, hname, ⟨_, ⟨type, htype, rfl, rfl⟩, rfl⟩, rfl⟩
    exact .mk hname htype
  · rintro ⟨hname, htype⟩
    exact ⟨_, _, hname, ⟨_, ⟨_, htype, rfl, rfl⟩, rfl⟩, rfl⟩

/-! ## Statements -/

/-- The definition of a table is read. -/
theorem reads_createTable : createTable.Reads
    (fun ts statement => (∃ name columns, statement = .createTable name columns) ∧
      Clause ts statement)
    fun t => t.isSymbol .openParen = false := by
  have hcolumns := reads_commaSeparated reads_columnDefinition fun _ _ => trivial
  -- the parser word by word, as it is written
  have hraw : createTable.Reads _ _ := (reads_expectKeyword .create).andThen fun _ =>
    (reads_expectKeyword .table).andThen fun _ => reads_name.andThen fun table =>
      reads_optional rfl fun _ => hcolumns.closed
        (fun t ht => ⟨trivial, Token.isSymbol_of_ne ht (by decide)⟩)
        fun columns => Statement.createTable table (some columns)
  refine hraw.mono (fun ts statement => ?_) fun t ht => ⟨trivial, ht⟩
  simp only [inTurn_single_iff]
  constructor
  · rintro ⟨create, _, hcreate, ⟨table, _, htable, ⟨name, back, hname, hback, rfl⟩, rfl⟩, rfl⟩
    -- with or without columns
    rcases hback with ⟨rfl, rfl⟩ | ⟨openParen, _, hopen, ⟨inner, columns, close, hinner, hclose,
      rfl, rfl⟩, rfl⟩
    · exact ⟨⟨_, _, rfl⟩, .createTable hcreate htable hname⟩
    · exact ⟨⟨_, _, rfl⟩, .createTableWith hcreate htable hname hopen hinner hclose⟩
  · rintro ⟨⟨name, columns, rfl⟩, h⟩
    cases h with
    | createTable hcreate htable hname =>
      exact ⟨_, _, hcreate, ⟨_, _, htable, ⟨_, _, hname, .inl ⟨rfl, rfl⟩, rfl⟩, rfl⟩, rfl⟩
    | createTableWith hcreate htable hname hopen hinner hclose =>
      refine ⟨_, _, hcreate, ⟨_, _, htable, ⟨_, _, hname, .inr ?_, rfl⟩, rfl⟩, rfl⟩
      exact ⟨_, _, hopen, ⟨_, _, _, hinner, hclose, rfl, rfl⟩, rfl⟩

/-- The insertion of a row is read. -/
theorem reads_insert : insert.Reads
    (fun ts statement => (∃ table values, statement = .insert table values) ∧ Clause ts statement)
    fun t => t.isKeyword .values = false := by
  -- the closing parenthesis ends the last expression
  have hvalues : ∀ t : Token, t.isSymbol .closeParen = true →
      t.isOperator = false ∧ t.isSymbol .comma = false := by
    intro t ht
    exact ⟨Token.isOperator_of_isSymbol ht (by decide) (by decide),
      Token.isSymbol_of_ne ht (by decide)⟩
  have hraw : insert.Reads _ _ := (reads_expectKeyword .insert).andThen fun _ =>
    (reads_expectKeyword .into).andThen fun _ => reads_name.andThen fun table =>
      reads_optional rfl fun _ => (reads_expectSymbol .openParen).andThen fun _ =>
        reads_expressions.closed hvalues fun values => Statement.insert table (some values)
  refine hraw.mono (fun ts statement => ?_) fun t ht => ⟨trivial, ht⟩
  simp only [inTurn_single_iff]
  constructor
  · rintro ⟨insert, _, hinsert, ⟨into, _, hinto, ⟨name, back, hname, hback, rfl⟩, rfl⟩, rfl⟩
    -- with or without values
    rcases hback with ⟨rfl, rfl⟩ | ⟨values, _, hvalues, ⟨openParen, _, hopen,
      ⟨inner, expressions, close, hinner, hclose, rfl, rfl⟩, rfl⟩, rfl⟩
    · exact ⟨⟨_, _, rfl⟩, .insert hinsert hinto hname⟩
    · exact ⟨⟨_, _, rfl⟩, .insertValues hinsert hinto hname hvalues hopen hinner hclose⟩
  · rintro ⟨⟨name, values, rfl⟩, h⟩
    cases h with
    | insert hinsert hinto hname =>
      exact ⟨_, _, hinsert, ⟨_, _, hinto, ⟨_, _, hname, .inl ⟨rfl, rfl⟩, rfl⟩, rfl⟩, rfl⟩
    | insertValues hinsert hinto hname hvalues hopen hinner hclose =>
      refine ⟨_, _, hinsert, ⟨_, _, hinto, ⟨_, _, hname, .inr ?_, rfl⟩, rfl⟩, rfl⟩
      exact ⟨_, _, hvalues, ⟨_, _, hopen, ⟨_, _, _, hinner, hclose, rfl, rfl⟩, rfl⟩, rfl⟩

/-- The selection of columns is read. -/
theorem reads_select : select.Reads
    (fun ts statement => (∃ items table, statement = .select items table) ∧ Clause ts statement)
    fun t => t.isKeyword .where_ = false := by
  have hraw : select.Reads _ _ := (reads_expectKeyword .select).andThen fun _ =>
    reads_expressions.bind (fun items => (reads_expectKeyword .from_).andThen fun _ =>
      reads_name.andThen fun table => reads_excluded rfl fun t =>
        ⟨.unsupportedFilter t, rfl, rfl⟩)
    fun {items ts statement rest} hwords hrest t ht => by
      -- the word behind the expressions is neither an operator nor a comma
      obtain ⟨from_, _, hkeyword, -, rfl⟩ := inTurn_single_iff.1 hwords
      obtain rfl := Option.some.inj ht
      exact ⟨Token.isOperator_of_isKeyword hkeyword, Token.isSymbol_of_isKeyword hkeyword _⟩
  refine hraw.mono (fun ts statement => ?_) fun _ => id
  rw [inTurn_single_iff]
  constructor
  · rintro ⟨select, _, hselect, ⟨inner, items, _, hitems, hrest, rfl⟩, rfl⟩
    obtain ⟨from_, _, hfrom, htable, rfl⟩ := inTurn_single_iff.1 hrest
    obtain ⟨name, _, hname, ⟨rfl, rfl⟩, rfl⟩ := inTurn_single_iff.1 htable
    exact ⟨⟨_, _, rfl⟩, .select hselect hitems hfrom hname⟩
  · rintro ⟨⟨items, name, rfl⟩, h⟩
    cases h with
    | select hselect hitems hfrom hname =>
      refine ⟨_, _, hselect, ⟨_, _, _, hitems, ?_, rfl⟩, rfl⟩
      refine inTurn_single_iff.2 ⟨_, _, hfrom, ?_, rfl⟩
      exact inTurn_single_iff.2 ⟨_, _, hname, ⟨rfl, rfl⟩, rfl⟩

/-- The statement that begins with a certain token is read by way of it, and another token is
refused. -/
theorem verdict_statement (t : Token) (rest : List Token) (fault : Option LexError) :
    Verdict (statement t) Clause ⟨t :: rest, fault⟩ := by
  -- the first token decides which kind of statement is read
  unfold statement
  split
  · exact (reads_createTable.verdict _).mono fun _ _ => And.right
  · split
    · exact (reads_insert.verdict _).mono fun _ _ => And.right
    · split
      · exact (reads_select.verdict _).mono fun _ _ => And.right
      · have hviable : Viable Clause [] := reads_select.viable.mono fun _ _ h => ⟨_, h.2⟩
        exact .refused [] hviable rfl ⟨[t], List.suffix_rfl, fun _ _ => rfl⟩

/-- A statement in front of a semicolon or the end is read by way of its first token. -/
theorem statement_complete {ts : List Token} {found : Statement} (h : Clause ts found)
    {rest : List Token} (hrest : ∀ t ∈ rest.head?, t.isSymbol .semicolon = true) :
    ∃ t words, ts = t :: words ∧ t.isSymbol .semicolon = false ∧
      (statement t).run ⟨ts ++ rest, none⟩ = .ok found ⟨rest, none⟩ := by
  have hcreate : ∀ {t words}, t.isKeyword .create = true → Clause (t :: words) found →
      (∃ name columns, found = .createTable name columns) →
      (statement t).run ⟨t :: words ++ rest, none⟩ = .ok found ⟨rest, none⟩ := by
    intro t words ht hclause hfound
    rw [statement, if_pos ht]
    exact reads_createTable.complete ⟨hfound, hclause⟩ fun t ht =>
      Token.isSymbol_of_ne (hrest t ht) (by decide)
  have hinsert : ∀ {t words}, t.isKeyword .insert = true → Clause (t :: words) found →
      (∃ table values, found = .insert table values) →
      (statement t).run ⟨t :: words ++ rest, none⟩ = .ok found ⟨rest, none⟩ := by
    intro t words ht hclause hfound
    rw [statement, Token.isKeyword_of_ne ht (by decide), if_neg Bool.false_ne_true, if_pos ht]
    exact reads_insert.complete ⟨hfound, hclause⟩ fun t ht =>
      Token.isKeyword_of_isSymbol (hrest t ht) _
  have hselect : ∀ {t words}, t.isKeyword .select = true → Clause (t :: words) found →
      (∃ items table, found = .select items table) →
      (statement t).run ⟨t :: words ++ rest, none⟩ = .ok found ⟨rest, none⟩ := by
    intro t words ht hclause hfound
    rw [statement, Token.isKeyword_of_ne ht (by decide), if_neg Bool.false_ne_true,
      Token.isKeyword_of_ne ht (by decide), if_neg Bool.false_ne_true, if_pos ht]
    exact reads_select.complete ⟨hfound, hclause⟩ fun t ht =>
      Token.isKeyword_of_isSymbol (hrest t ht) _
  -- the first word of a statement is that of its kind
  cases id h with
  | createTable ht _ _ =>
    exact ⟨_, _, rfl, Token.isSymbol_of_isKeyword ht _, hcreate ht h ⟨_, _, rfl⟩⟩
  | createTableWith ht _ _ _ _ _ =>
    exact ⟨_, _, rfl, Token.isSymbol_of_isKeyword ht _, hcreate ht h ⟨_, _, rfl⟩⟩
  | insert ht _ _ =>
    exact ⟨_, _, rfl, Token.isSymbol_of_isKeyword ht _, hinsert ht h ⟨_, _, rfl⟩⟩
  | insertValues ht _ _ _ _ _ _ =>
    exact ⟨_, _, rfl, Token.isSymbol_of_isKeyword ht _, hinsert ht h ⟨_, _, rfl⟩⟩
  | select ht _ _ _ =>
    exact ⟨_, _, rfl, Token.isSymbol_of_isKeyword ht _, hselect ht h ⟨_, _, rfl⟩⟩

/-! ## Scripts -/

/-- The words between two semicolons: a statement or nothing. -/
def Segment (ts : List Token) : Option Statement → Prop
  | none => ts = []
  | some found => Clause ts found

/-- What stands between semicolons is read. -/
theorem reads_statement? : statement?.Reads Segment fun t => t.isSymbol .semicolon = true where
  toPinpoints := by
    have hnone : Segment [] none := rfl
    refine pinpoints_peek rfl hnone fun t rest fault => ?_
    dsimp only
    split
    · refine (Verdict.pure none _).mono ?_
      rintro _ _ ⟨rfl, rfl⟩
      exact hnone
    · refine ((verdict_statement t rest fault).map some).mono ?_
      rintro _ _ ⟨found, hfound, rfl⟩
      exact hfound
  complete {ts o rest} hsegment hrest := by
    cases o with
    | none =>
      obtain rfl : ts = [] := hsegment
      cases rest with
      | nil => rfl
      | cons t rest =>
        have ht : t.isSymbol .semicolon = true := hrest t rfl
        refine run_bind_eq_ok_iff.2 ⟨some t, _, rfl, ?_⟩
        simp only [ht]
        rfl
    | some found =>
      obtain ⟨t, words, rfl, ht, hrun⟩ := statement_complete hsegment hrest
      refine run_bind_eq_ok_iff.2 ⟨some t, _, rfl, ?_⟩
      simp only [ht]
      exact run_bind_eq_ok_iff.2 ⟨found, _, hrun, rfl⟩

/-- Statements with semicolons between them are segments behind semicolons. -/
theorem script_iff {ts : List Token} {found : List Statement} :
    Script ts found ↔ ∃ front first back others, Segment front first ∧
      Rounds (·.isSymbol .semicolon) (fun _ => Segment) back others ∧
        found = (first :: others).filterMap id ∧ ts = front ++ back := by
  constructor
  · intro h
    induction h with
    | nil => exact ⟨[], none, [], [], rfl, .nil, rfl, rfl⟩
    | @semicolon semi ts found hsemi hrest ih =>
      obtain ⟨front, first, back, others, hfirst, hothers, rfl, rfl⟩ := ih
      exact ⟨[], none, semi :: (front ++ back), first :: others, rfl, .cons hsemi hfirst hothers,
        rfl, rfl⟩
    | @last ts found hfound =>
      exact ⟨ts, some found, [], [], hfound, .nil, rfl, (List.append_nil ts).symm⟩
    | @cons ts statement semi rest found hfound hsemi hrest ih =>
      obtain ⟨front, first, back, others, hfirst, hothers, rfl, rfl⟩ := ih
      exact ⟨ts, some statement, semi :: (front ++ back), first :: others, hfound,
        .cons hsemi hfirst hothers, rfl, rfl⟩
  · rintro ⟨front, first, back, others, hfirst, hothers, rfl, rfl⟩
    -- the first segment moves on to the next semicolon
    induction hothers generalizing front first with
    | nil =>
      rw [List.append_nil]
      cases first with
      | none =>
        obtain rfl : front = [] := hfirst
        exact .nil
      | some found => exact .last hfirst
    | @cons semi ts rest second others hsemi hsecond hothers ih =>
      have hrest := ih ts second hsecond
      cases first with
      | none =>
        obtain rfl : front = [] := hfirst
        exact .semicolon hsemi hrest
      | some found => exact .cons hfirst hsemi hrest

/-- The end of a stream is where no token and no fault is left. -/
theorem run_expectEnd {s s' : TokenStream} {a : Unit} :
    expectEnd.run s = .ok a s' ↔ s = ⟨[], none⟩ ∧ s' = s := by
  constructor
  · intro h
    obtain ⟨next?, s₁, hpeek, hbody⟩ := run_bind_eq_ok_iff.1 h
    obtain ⟨tokens, fault⟩ := s
    cases tokens with
    | cons t rest =>
      cases hpeek
      cases hbody
    | nil =>
      cases fault with
      | some e => cases hpeek
      | none =>
        cases hpeek
        cases hbody
        exact ⟨rfl, rfl⟩
  · rintro ⟨rfl, rfl⟩
    rfl

/-- The statements of a stream are read exactly if its tokens are a script and there is no fault. -/
theorem run_statements {s s' : TokenStream} {found : List Statement} :
    statements.run s = .ok found s' ↔
      Script s.tokens found ∧ s.fault = none ∧ s' = ⟨[], none⟩ := by
  have hmany : Reads (many (·.isSymbol .semicolon) fun _ => statement?)
      (Rounds (·.isSymbol .semicolon) fun _ => Segment) _ :=
    reads_many (fun _ => reads_statement?) fun _ ht => ht
  constructor
  · intro h
    obtain ⟨first, s₁, hfirst, hbody⟩ := run_bind_eq_ok_iff.1 h
    obtain ⟨others, s₂, hothers, hbody⟩ := run_bind_eq_ok_iff.1 hbody
    obtain ⟨_, s₃, hend, hpure⟩ := run_bind_eq_ok_iff.1 hbody
    cases hpure
    obtain ⟨rfl, rfl⟩ := run_expectEnd.1 hend
    obtain ⟨back, hback, rfl⟩ := hmany.sound hothers
    obtain ⟨front, hfront, rfl⟩ := reads_statement?.sound hfirst
    refine ⟨script_iff.2 ⟨front, first, back, others, hfront, hback, rfl, ?_⟩, rfl, rfl⟩
    simp only [List.append_nil]
  · rintro ⟨hscript, hfault, rfl⟩
    obtain ⟨tokens, fault⟩ := s
    obtain rfl : fault = none := hfault
    obtain ⟨front, first, back, others, hfront, hback, rfl, rfl⟩ := script_iff.1 hscript
    have hothers : (many (·.isSymbol .semicolon) fun _ => statement?).run ⟨back ++ [], none⟩
        = .ok others ⟨[], none⟩ := hmany.complete hback (by simp)
    -- the first segment is followed by a semicolon or by the end
    have hhead : ∀ t ∈ (back ++ []).head?, t.isSymbol .semicolon = true :=
      hback.forall_head? (fun _ ht => ht) (by simp)
    rw [List.append_nil] at hothers hhead
    have hfirst := reads_statement?.complete hfront hhead
    refine run_bind_eq_ok_iff.2 ⟨first, _, hfirst, ?_⟩
    refine run_bind_eq_ok_iff.2 ⟨others, _, hothers, ?_⟩
    exact run_bind_eq_ok_iff.2 ⟨(), _, rfl, rfl⟩

end Parser

/-! ## Whole texts -/

open Grammar

/-- A stream is read as statements exactly if it has no fault and its tokens are a script. -/
theorem parse_eq_ok_iff (stream : TokenStream) (found : List Statement) :
    (parse stream).1 = .ok found ↔ stream.fault = none ∧ Script stream.tokens found := by
  unfold parse
  constructor
  · intro h
    cases hrun : Parser.statements.run stream with
    | ok others rest =>
      simp only [hrun] at h
      obtain rfl := Except.ok.inj h
      obtain ⟨hscript, hfault, -⟩ := Parser.run_statements.1 hrun
      exact ⟨hfault, hscript⟩
    | error e rest =>
      simp only [hrun] at h
      cases h
  · rintro ⟨hfault, hscript⟩
    have hrun := Parser.run_statements.2 ⟨hscript, hfault, rfl⟩
    simp only [hrun]

/-- The tokens of a script determine its statements. -/
theorem Grammar.Script.unique {ts : List Token} {found other : List Statement}
    (h : Script ts found) (h' : Script ts other) : found = other := by
  -- the parser has one answer, and it recognises both
  have hfound := (parse_eq_ok_iff ⟨ts, none⟩ found).2 ⟨rfl, h⟩
  have hother := (parse_eq_ok_iff ⟨ts, none⟩ other).2 ⟨rfl, h'⟩
  exact Except.ok.inj (hfound.symm.trans hother)

/-- A text is read as statements if all of it can be read into tokens and they are a script of the
statements. -/
theorem parseText_eq_ok_iff {text : String} {found : List Statement} :
    parseText text = .ok found ↔ ∃ ts, tokenize text = .ok ts ∧ Script ts found := by
  rw [parseText, parse_eq_ok_iff]
  constructor
  · rintro ⟨hfault, hscript⟩
    exact ⟨_, tokenize_eq_ok_iff.2 (by rw [← hfault]), hscript⟩
  · rintro ⟨ts, hts, hscript⟩
    rw [tokenize_eq_ok_iff.1 hts]
    exact ⟨rfl, hscript⟩

/-- A text is read as statements exactly if all of it can be read into tokens and these are the
statements with semicolons around them. The tokens then determine the statements, between semicolons
they are the statements written out, and every expression is grouped to the left. A text with a
lexical fault is never read. -/
theorem parseText_recognises (text : String) (found : List Statement) :
    (parseText text = .ok found ↔ ∃ ts, tokenize text = .ok ts ∧ Script ts found) ∧
      (parseText text = .ok found → ∃ ts, tokenize text = .ok ts ∧
        (∀ other, Script ts other → other = found) ∧
        WrittenOut ts found ∧
        ∀ statement ∈ found, ∀ e ∈ statement.expressions, e.LeftNested) ∧
      ∀ fault, tokenize text = .error fault → parseText text ≠ .ok found := by
  have hiff : parseText text = .ok found ↔ ∃ ts, tokenize text = .ok ts ∧ Script ts found :=
    parseText_eq_ok_iff
  refine ⟨hiff, fun h => ?_, fun fault hfault h => ?_⟩
  · obtain ⟨ts, hts, hscript⟩ := hiff.1 h
    refine ⟨ts, hts, fun other hother => hother.unique hscript, ?_, ?_⟩
    · exact hscript.writtenOut
    · intro statement hstatement
      obtain ⟨words, hclause⟩ := hscript.of_mem statement hstatement
      exact hclause.leftNested
  · obtain ⟨ts, hts, -⟩ := hiff.1 h
    rw [hfault] at hts
    cases hts

/-- Between semicolons a selection is the statement written out, its chain grouped to the left, and a
text that ends in an open quote is not read. -/
theorem parseText_recognises_chain :
    (∃ ts, tokenize ";select a||'x'=1 from t;;" = .ok ts ∧
      WrittenOut ts
        [.select [.binary (.binary (.literal ⟨.identifier, "a", ⟨0, 8⟩⟩) ⟨.symbol, "||", ⟨0, 9⟩⟩
            (.literal ⟨.string, "x", ⟨0, 11⟩⟩)) ⟨.symbol, "=", ⟨0, 14⟩⟩
            (.literal ⟨.numeric, "1", ⟨0, 15⟩⟩)] ⟨.identifier, "t", ⟨0, 22⟩⟩]) ∧
      parseText "select 'a" ≠ .ok [] := by
  have hparse : parseText ";select a||'x'=1 from t;;"
      = .ok [.select [.binary (.binary (.literal ⟨.identifier, "a", ⟨0, 8⟩⟩) ⟨.symbol, "||", ⟨0, 9⟩⟩
          (.literal ⟨.string, "x", ⟨0, 11⟩⟩)) ⟨.symbol, "=", ⟨0, 14⟩⟩
          (.literal ⟨.numeric, "1", ⟨0, 15⟩⟩)] ⟨.identifier, "t", ⟨0, 22⟩⟩] := by
    rw [parseText, TokenStream.ofText, TokenStream.ofLexer_eq_upTo (n := 30) (by decide)]
    decide +kernel
  have hfault : tokenize "select 'a" = .error ⟨⟨0, 7⟩, some "select"⟩ := by
    rw [tokenize, TokenStream.ofText, TokenStream.ofLexer_eq_upTo (n := 30) (by decide)]
    decide +kernel
  obtain ⟨ts, hts, -, hwords, -⟩ := (parseText_recognises _ _).2.1 hparse
  exact ⟨⟨ts, hts, hwords⟩, (parseText_recognises _ _).2.2 _ hfault⟩

end SqlStore
