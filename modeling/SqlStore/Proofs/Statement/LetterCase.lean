import SqlStore.Proofs.Numeral
import SqlStore.Proofs.Statement.Recognition
import SqlStore.Proofs.Token.LetterCase
import SqlStore.Proofs.Token.Sizes

/-! # Statements in either letter case

* **`LiteralNumbers`** — tokens of which every number is a literal and has no name behind it;
* **`Grammar.Script.literalNumbers`** — the tokens of statements are such, since between a literal and a
  name there is always a reserved word or a symbol;
* **`parseText_recased`** — letters outside quotes may change their case in a text that is read: its
  statements stay the same, with the values and the places of their tokens. -/

namespace SqlStore

/-! ## Numbers among tokens -/

/-- Whether every number among tokens is a literal and none stands directly in front of a name. -/
structure LiteralNumbers (ts : List Token) : Prop where
  literal : ∀ t ∈ ts, t.kind = .numeric → t.IsLiteral
  apart : ts.IsChain Token.Apart

/-- Whether a token is a reserved word or a symbol. -/
def Token.IsMark (t : Token) : Prop := t.kind = .keyword ∨ t.kind = .symbol

namespace Token

variable {t : Token}

/-- A reserved word is a mark. -/
theorem isMark_of_isKeyword {k : Keyword} (h : t.isKeyword k = true) : t.IsMark :=
  .inl (isKeyword_iff.1 h).1

/-- A symbol is a mark. -/
theorem isMark_of_isSymbol {s : Symbol} (h : t.isSymbol s = true) : t.IsMark :=
  .inr (isSymbol_iff.1 h).1

/-- An operator is a mark. -/
theorem isMark_of_isOperator (h : t.isOperator = true) : t.IsMark :=
  (Bool.or_eq_true_iff.1 h).elim isMark_of_isSymbol isMark_of_isSymbol

/-- A mark is neither a number nor a name. -/
theorem IsMark.kind_ne (h : t.IsMark) : t.kind ≠ .numeric ∧ t.kind ≠ .identifier := by
  rcases h with h | h <;> rw [h] <;> decide

end Token

namespace LiteralNumbers

variable {t : Token} {ts rest : List Token}

/-- There are no numbers among no tokens. -/
theorem nil : LiteralNumbers [] := ⟨List.forall_mem_nil _, .nil⟩

/-- A single token may be a literal. -/
theorem single (h : t.kind = .numeric → t.IsLiteral) : LiteralNumbers [t] :=
  ⟨List.forall_mem_singleton.2 h, .singleton t⟩

/-- A token that is no number may stand in front. -/
theorem cons (ht : t.kind ≠ .numeric) (h : LiteralNumbers ts) : LiteralNumbers (t :: ts) where
  literal := List.forall_mem_cons.2 ⟨fun hkind => absurd hkind ht, h.literal⟩
  apart := List.isChain_cons.2 ⟨fun _ _ hkind => absurd hkind ht, h.apart⟩

/-- A name may stand in front. -/
theorem name (ht : t.kind = .identifier) (h : LiteralNumbers ts) : LiteralNumbers (t :: ts) :=
  h.cons (by rw [ht]; decide)

/-- A mark may stand in front. -/
theorem mark (ht : t.IsMark) (h : LiteralNumbers ts) : LiteralNumbers (t :: ts) :=
  h.cons ht.kind_ne.1

/-- A reserved word may stand in front. -/
theorem keyword {k : Keyword} (ht : t.isKeyword k = true) (h : LiteralNumbers ts) :
    LiteralNumbers (t :: ts) :=
  h.mark (Token.isMark_of_isKeyword ht)

/-- A symbol may stand in front. -/
theorem symbol {s : Symbol} (ht : t.isSymbol s = true) (h : LiteralNumbers ts) :
    LiteralNumbers (t :: ts) :=
  h.mark (Token.isMark_of_isSymbol ht)

/-- With a mark between them, tokens may stand behind any others. -/
theorem append_mark (h : LiteralNumbers ts) (ht : t.IsMark) (hrest : LiteralNumbers rest) :
    LiteralNumbers (ts ++ t :: rest) where
  literal := List.forall_mem_append.2 ⟨h.literal, (hrest.mark ht).literal⟩
  apart := by
    refine List.isChain_append.2 ⟨h.apart, (hrest.mark ht).apart, fun _ _ next hnext _ => ?_⟩
    obtain rfl := Option.some.inj hnext
    exact ht.kind_ne.2

/-- The numbers of a text that are literals are digits only. -/
theorem plain {text : String} (h : LiteralNumbers ts) (hts : tokenize text = .ok ts) :
    PlainNumbers ts where
  digits t ht hkind := by
    have htext : t ∈ (TokenStream.ofText text).tokens := by
      rw [tokenize_eq_ok_iff.1 hts]
      exact ht
    obtain ⟨hplus, hminus⟩ := TokenStream.no_sign_of_mem htext hkind
    rcases h.literal t ht hkind with hname | hstring | ⟨-, n, hn⟩
    · simp [hkind] at hname
    · simp [hkind] at hstring
    · exact Numeral.isDigit_of_read hplus hminus hn
  apart := h.apart

end LiteralNumbers

/-! ## Numbers of statements -/

namespace Grammar

/-- The numbers of a chain are literals, each with an operator behind it or nothing. -/
theorem Chain.literalNumbers {ts : List Token} {e : Expression} (h : Chain ts e) :
    LiteralNumbers ts := by
  induction h with
  | literal ht => exact .single fun _ => ht
  | join hleft hoperator ht ih =>
    exact ih.append_mark (Token.isMark_of_isOperator hoperator) (.single fun _ => ht)

/-- A column has no numbers. -/
theorem Column.literalNumbers {ts : List Token} {d : ColumnDefinition} (h : Column ts d) :
    LiteralNumbers ts := by
  cases h with
  | mk hname htype =>
    refine .name hname (.cons ?_ .nil)
    rcases htype with htype | htype <;> rw [htype] <;> decide

/-- Between the items of a list with commas there are commas. -/
theorem CommaList.literalNumbers {α : Type} {Item : List Token → α → Prop} {ts : List Token}
    {xs : List α} (h : CommaList Item ts xs)
    (hitem : ∀ {ts x}, Item ts x → LiteralNumbers ts) : LiteralNumbers ts := by
  induction h with
  | one hx => exact hitem hx
  | cons hx hcomma hxs ih => exact (hitem hx).append_mark (Token.isMark_of_isSymbol hcomma) ih

/-- The numbers of a statement are literals, and behind each list of them there is a parenthesis or a
reserved word. -/
theorem Clause.literalNumbers {ts : List Token} {statement : Statement} (h : Clause ts statement) :
    LiteralNumbers ts := by
  cases h with
  | createTable hcreate htable hname => exact .keyword hcreate (.keyword htable (.name hname .nil))
  | createTableWith hcreate htable hname hopen hcolumns hclose =>
    have hinner := (hcolumns.literalNumbers Column.literalNumbers).append_mark
      (Token.isMark_of_isSymbol hclose) .nil
    exact .keyword hcreate (.keyword htable (.name hname (.symbol hopen hinner)))
  | insert hinsert hinto hname => exact .keyword hinsert (.keyword hinto (.name hname .nil))
  | insertValues hinsert hinto hname hvalues hopen hexpressions hclose =>
    have hinner := (hexpressions.literalNumbers Chain.literalNumbers).append_mark
      (Token.isMark_of_isSymbol hclose) .nil
    exact .keyword hinsert (.keyword hinto (.name hname (.keyword hvalues (.symbol hopen hinner))))
  | select hselect hitems hfrom hname =>
    have hinner := (hitems.literalNumbers Chain.literalNumbers).append_mark
      (Token.isMark_of_isKeyword hfrom) (.name hname .nil)
    exact .keyword hselect hinner

/-- The numbers of a script are literals, and none stands in front of a name. -/
theorem Script.literalNumbers {ts : List Token} {statements : List Statement}
    (h : Script ts statements) : LiteralNumbers ts := by
  induction h with
  | nil => exact .nil
  | semicolon hsemicolon hrest ih => exact ih.symbol hsemicolon
  | last hstatement => exact hstatement.literalNumbers
  | cons hstatement hsemicolon hrest ih =>
    exact hstatement.literalNumbers.append_mark (Token.isMark_of_isSymbol hsemicolon) ih

end Grammar

/-! ## Whole texts -/

/-- If letters of a text that is read as statements change their case, those in quoted strings and quoted
names excepted, the new text is read into the same tokens, with their values and places, and as the same
statements. -/
theorem parseText_recased {a b : String} (hab : RecasedText a b) {statements : List Statement}
    (ha : parseText a = .ok statements) :
    tokenize b = tokenize a ∧ parseText b = .ok statements := by
  obtain ⟨ts, hts, hscript⟩ := parseText_eq_ok_iff.1 ha
  have hb := hab.tokenize hts (hscript.literalNumbers.plain hts)
  exact ⟨hb.trans hts.symm, parseText_eq_ok_iff.2 ⟨ts, hb, hscript⟩⟩

/-- Reserved words and names change their case, a string and a quoted name do not, and a number stands
directly in front of a reserved word. -/
theorem parseText_recased_quotes :
    let a := "Select Ab,'It',7From\"T\""
    let b := "sELECT aB,'It',7fROM\"T\""
    let statement := Statement.select [.literal ⟨.identifier, "ab", ⟨0, 7⟩⟩,
      .literal ⟨.string, "It", ⟨0, 10⟩⟩, .literal ⟨.numeric, "7", ⟨0, 15⟩⟩] ⟨.identifier, "T", ⟨0, 20⟩⟩
    RecasedText a b ∧ parseText a = .ok [statement] ∧ tokenize b = tokenize a ∧
      parseText b = .ok [statement] := by
  intro a b statement
  have ha : parseText a = .ok [statement] := by
    rw [parseText, TokenStream.ofText, TokenStream.ofLexer_eq_upTo (n := 30) (by decide)]
    decide +kernel
  have hab : RecasedText a b := by
    let pieces : List Piece := [
      .lexeme ['S', 'e', 'l', 'e', 'c', 't'] ⟨.keyword, "select", ⟨0, 0⟩⟩, .blank ' ',
      .lexeme ['A', 'b'] ⟨.identifier, "ab", ⟨0, 7⟩⟩, .lexeme [','] ⟨.symbol, ",", ⟨0, 9⟩⟩,
      .lexeme ['\'', 'I', 't', '\''] ⟨.string, "It", ⟨0, 10⟩⟩, .lexeme [','] ⟨.symbol, ",", ⟨0, 14⟩⟩,
      .lexeme ['7'] ⟨.numeric, "7", ⟨0, 15⟩⟩,
      .lexeme ['F', 'r', 'o', 'm'] ⟨.keyword, "from", ⟨0, 16⟩⟩,
      .lexeme ['"', 'T', '"'] ⟨.identifier, "T", ⟨0, 20⟩⟩]
    have hread : ReadFrom [] [] pieces := by
      refine ⟨Piece.readAt_of_first? ?_ ?_, .inl rfl, Piece.readAt_of_first? ?_ ?_,
        Piece.readAt_of_first? ?_ ?_, Piece.readAt_of_first? ?_ ?_, Piece.readAt_of_first? ?_ ?_,
        Piece.readAt_of_first? ?_ ?_, Piece.readAt_of_first? ?_ ?_, Piece.readAt_of_first? ?_ ?_,
        trivial⟩ <;> decide +kernel
    refine ⟨pieces, ⟨by decide +kernel, fun _ _ _ hpieces => hread.readAt hpieces⟩, ?_⟩
    have hb : b.toList = ['s', 'E', 'L', 'E', 'C', 'T'] ++ ' ' :: (['a', 'B'] ++ ([','] ++
        (['\'', 'I', 't', '\''] ++ ([','] ++ (['7'] ++ (['f', 'R', 'O', 'M'] ++
          (['"', 'T', '"'] ++ []))))))) := by decide +kernel
    rw [hb]
    refine .lexeme ?_ ?_ (.blank ' ' (.lexeme ?_ ?_ (.lexeme ?_ ?_ (.lexeme ?_ ?_ (.lexeme ?_ ?_
      (.lexeme ?_ ?_ (.lexeme ?_ ?_ (.lexeme ?_ ?_ .nil)))))))) <;> decide +kernel
  exact ⟨hab, ha, parseText_recased hab ha⟩

end SqlStore
