import SqlStore.Proofs.Token.Concatenation
import SqlStore.Proofs.Token.Sizes

/-! # Tokens written out again

* **`Token.written`** — the characters of a token by itself: names and strings between quotes, those in
  them doubled, and any other token by its value;
* **`printed`** — tokens written one after the other, each with its blanks behind it;
* **`Token.IsReread`** — whether a written token is read as itself in front of any separator.
  `TokenStream.isReread_of_mem` says that all tokens of a text are;
* **`tokenize_printed`** — tokens of a text that are written again are read again, whatever the blanks
  are. -/

namespace SqlStore

/-! ## Writing -/

/-- The characters a token is written with. -/
def Token.written (t : Token) : List Char :=
  match t.kind with
  | .identifier => Quoted.enclose '"' t.value.toList
  | .string => Quoted.enclose '\'' t.value.toList
  | _ => t.value.toList

/-- What a token says, wherever it stands. -/
def Token.word (t : Token) : TokenKind × String := (t.kind, t.value)

/-- Blanks, and then tokens, each of them with blanks behind it. -/
def printed (lead : List Char) (ts : List Token) (gaps : List (List Char)) : String :=
  String.ofList (lead ++ (List.zipWith (fun t gap => t.written ++ gap) ts gaps).flatten)

/-! ## Reading one token again -/

/-- Whether a written token is read as itself in front of any separator. -/
def Token.IsReread (t : Token) : Prop :=
  ∀ rest, Separated rest →
    Lexeme.first? (t.written ++ rest) = some ⟨t.kind, t.value, t.written.length⟩

namespace Token

variable {t : Token}

/-- A name is read again, whatever it is. -/
theorem isReread_of_identifier (h : t.kind = .identifier) : t.IsReread := by
  intro rest hrest
  have hwritten : t.written = Quoted.enclose '"' t.value.toList := by rw [written, h]
  have hquote : rest.head? ≠ some '"' := fun hhead => (hrest.not_part _ hhead).2.1.1 rfl
  rw [hwritten, Lexeme.first?_quotedName _ hquote, String.ofList_toList, h]

/-- A string is read again, whatever it is. -/
theorem isReread_of_string (h : t.kind = .string) : t.IsReread := by
  intro rest hrest
  have hwritten : t.written = Quoted.enclose '\'' t.value.toList := by rw [written, h]
  have hquote : rest.head? ≠ some '\'' := fun hhead => (hrest.not_part _ hhead).2.1.2 rfl
  rw [hwritten, Lexeme.first?_quotedText _ hquote, String.ofList_toList, h]

/-- A reserved word is read again. -/
theorem isReread_of_keyword (h : t.kind = .keyword) {k : Keyword} (hk : t.value = k.spelling) :
    t.IsReread := by
  intro rest hrest
  have hwritten : t.written = k.spelling.toList := by rw [written, h, hk]
  have hlower : k.spelling.toList.map Char.toLower = k.spelling.toList := by
    cases k <;> rfl
  rw [hwritten, Lexeme.first?_keyword k hlower fun c hc => (hrest.not_part c hc).1.1, h, hk]

/-- A symbol is read again. -/
theorem isReread_of_symbol (h : t.kind = .symbol) {s : Symbol} (hs : t.value = s.spelling) :
    t.IsReread := by
  intro rest _
  have hwritten : t.written = s.spelling.toList := by rw [written, h, hs]
  rw [hwritten, Lexeme.first?_symbol, h, hs]

/-- A number is read again, also one that is a point or ends with its exponent. -/
theorem isReread_of_numeric (h : t.kind = .numeric) {head tail : List Char}
    (hhead : Lexeme.IsMantissa head) (htail : Lexeme.IsExponent tail)
    (hvalue : t.value = String.ofList (head ++ tail)) : t.IsReread := by
  intro rest hrest
  have hwritten : t.written = head ++ tail := by rw [written, h, hvalue, String.toList_ofList]
  have hnumeric := Lexeme.numeric?_append hhead htail (hrest.endsNumber tail)
  rw [hwritten, Lexeme.first?_of_numeric? hnumeric, h, hvalue]

end Token

/-- Every token of a text is read again where it is written. -/
theorem TokenStream.isReread_of_mem {text : String} {t : Token} (h : t ∈ (ofText text).tokens) :
    t.IsReread := by
  obtain ⟨before, slice, behind, -, -, hfirst⟩ := exists_slice h
  have hrule := Lexeme.rule_of_first? hfirst
  -- by the rule that matched
  cases hkind : t.kind with
  | identifier => exact Token.isReread_of_identifier hkind
  | string => exact Token.isReread_of_string hkind
  | keyword =>
    rw [hkind] at hrule
    obtain ⟨word, hword, hlexeme⟩ := Option.map_eq_some_iff.1 hrule
    obtain ⟨k, -, hk⟩ := List.mem_map.1 (longestMatch_mem hword)
    have hvalue : word = t.value := congrArg Lexeme.value hlexeme
    exact Token.isReread_of_keyword hkind (hvalue.symm.trans hk.symm)
  | symbol =>
    rw [hkind] at hrule
    obtain ⟨mark, hmark, hlexeme⟩ := Option.map_eq_some_iff.1 hrule
    obtain ⟨s, -, hs⟩ := List.mem_map.1 (longestMatch_mem hmark)
    have hvalue : mark = t.value := congrArg Lexeme.value hlexeme
    exact Token.isReread_of_symbol hkind (hvalue.symm.trans hs.symm)
  | numeric =>
    rw [hkind] at hrule
    obtain ⟨head, tail, rest, -, hhead, htail, -, hlexeme⟩ := Lexeme.exists_of_numeric? hrule
    exact Token.isReread_of_numeric hkind hhead htail (congrArg Lexeme.value hlexeme)

/-! ## Reading tokens again -/

/-- Blanks are passed over, wherever they stand and whatever follows them. -/
theorem Lexer.nextFrom_skip {cs : List Char} (hcs : ∀ c ∈ cs, IsBlank c) (loc : Location) :
    ∃ loc', ∀ last rest, nextFrom last loc (cs ++ rest) = nextFrom last loc' rest := by
  induction cs generalizing loc with
  | nil => exact ⟨loc, fun _ _ => rfl⟩
  | cons c cs ih =>
    obtain ⟨after, hafter⟩ : ∃ after, loc.afterBlank? c = some after := by
      rcases hcs c List.mem_cons_self with rfl | rfl | rfl <;> exact ⟨_, rfl⟩
    obtain ⟨loc', hnext⟩ := ih (fun d hd => hcs d (List.mem_cons_of_mem c hd)) after
    refine ⟨loc', fun last rest => ?_⟩
    rw [List.cons_append, nextFrom]
    simp only [hafter, hnext]

/-- Whether there are blanks behind a token. -/
def IsGap (gap : List Char) : Prop := gap ≠ [] ∧ ∀ c ∈ gap, IsBlank c

/-- A gap separates a token from what follows. -/
theorem IsGap.separated {gap : List Char} (h : IsGap gap) (rest : List Char) :
    Separated (gap ++ rest) := by
  obtain ⟨c, gap, rfl⟩ := List.exists_cons_of_ne_nil h.1
  exact ⟨c, rfl, .inl (h.2 c List.mem_cons_self)⟩

namespace TokenStream

/-- What is read behind blanks is read with them too. -/
theorem ofLexer_skip {cs : List Char} (hcs : ∀ c ∈ cs, IsBlank c) (rest : List Char) (loc : Location)
    (last : Option String) : ∃ loc', ofLexer ⟨cs ++ rest, loc, last⟩ = ofLexer ⟨rest, loc', last⟩ := by
  obtain ⟨loc', hnext⟩ := Lexer.nextFrom_skip hcs loc
  have hsame : (⟨cs ++ rest, loc, last⟩ : Lexer).next = (⟨rest, loc', last⟩ : Lexer).next :=
    hnext last rest
  exact ⟨loc', ofLexer_congr hsame⟩

/-- Written tokens are read again, the blanks between them passed over. -/
theorem ofLexer_written {ts : List Token} (hts : ∀ t ∈ ts, t.IsReread) {gaps : List (List Char)}
    (hgaps : ∀ gap ∈ gaps, IsGap gap) (hlength : gaps.length = ts.length) (loc : Location)
    (last : Option String) :
    ∃ ts', ofLexer ⟨(List.zipWith (fun t gap => t.written ++ gap) ts gaps).flatten, loc, last⟩
        = ⟨ts', none⟩ ∧ ts'.map Token.word = ts.map Token.word := by
  -- induction on the tokens, each with its blanks; the place moves on
  induction ts generalizing gaps loc last with
  | nil => exact ⟨[], ofLexer_of_none rfl, rfl⟩
  | cons t ts ih =>
    cases gaps with
    | nil => cases hlength
    | cons gap gaps =>
      have hgap := hgaps gap List.mem_cons_self
      let others := (List.zipWith (fun t gap => t.written ++ gap) ts gaps).flatten
      have hnext : (⟨t.written ++ (gap ++ others), loc, last⟩ : Lexer).next = _ :=
        Lexer.nextFrom_front (hts t List.mem_cons_self _ (hgap.separated others)) last loc
      obtain ⟨loc', hskip⟩ := ofLexer_skip hgap.2 others (loc.right t.written.length) (some t.value)
      obtain ⟨ts', hread, hwords⟩ := ih (fun u hu => hts u (List.mem_cons_of_mem t hu))
        (fun gap' hgap' => hgaps gap' (List.mem_cons_of_mem gap hgap')) (Nat.succ.inj hlength) loc'
        (some t.value)
      refine ⟨⟨t.kind, t.value, loc⟩ :: ts', ?_, ?_⟩
      · rw [List.zipWith_cons_cons, List.flatten_cons, List.append_assoc, ofLexer_of_token hnext,
          hskip, hread]
      · rw [List.map_cons, List.map_cons, hwords]
        rfl

end TokenStream

/-- The tokens of a text, written one after the other with any blanks in front of them and with some
behind each, are read again: the same classes and values in the same order. -/
theorem tokenize_printed {text : String} {ts : List Token} (h : tokenize text = .ok ts)
    {lead : List Char} (hlead : ∀ c ∈ lead, IsBlank c) {gaps : List (List Char)}
    (hgaps : ∀ gap ∈ gaps, IsGap gap) (hlength : gaps.length = ts.length) :
    ∃ ts', tokenize (printed lead ts gaps) = .ok ts' ∧ ts'.map Token.word = ts.map Token.word := by
  have hts : ∀ t ∈ ts, t.IsReread := by
    intro t ht
    have hmem : t ∈ (TokenStream.ofText text).tokens := by rwa [tokenize_eq_ok_iff.1 h]
    exact TokenStream.isReread_of_mem hmem
  let body := (List.zipWith (fun t gap => t.written ++ gap) ts gaps).flatten
  obtain ⟨loc, hskip⟩ := TokenStream.ofLexer_skip hlead body {} none
  obtain ⟨ts', hread, hwords⟩ := TokenStream.ofLexer_written hts hgaps hlength loc none
  refine ⟨ts', tokenize_eq_ok_iff.2 ?_, hwords⟩
  rw [TokenStream.ofText, Lexer.ofText, printed, String.toList_ofList]
  exact hskip.trans hread

/-- A point, a number that ends with the sign of its exponent, an empty name, a name that spells a reserved
word and a string with a quote in it are read again with other blanks between them. -/
theorem tokenize_printed_hardTokens :
    ∃ ts, tokenize "\t. 1e+\n\"\" \"select\"\t\n|| 'don''t' select\n" = .ok ts ∧
      ts.map Token.word = [(.numeric, "."), (.numeric, "1e+"), (.identifier, ""),
        (.identifier, "select"), (.symbol, "||"), (.string, "don't"), (.keyword, "select")] := by
  have htokens : tokenize ". 1e+ \"\" \"select\"||'don''t'SELECT"
      = .ok [⟨.numeric, ".", ⟨0, 0⟩⟩, ⟨.numeric, "1e+", ⟨0, 2⟩⟩, ⟨.identifier, "", ⟨0, 6⟩⟩,
          ⟨.identifier, "select", ⟨0, 9⟩⟩, ⟨.symbol, "||", ⟨0, 17⟩⟩, ⟨.string, "don't", ⟨0, 19⟩⟩,
          ⟨.keyword, "select", ⟨0, 27⟩⟩] := by
    rw [tokenize, TokenStream.ofText, TokenStream.ofLexer_eq_upTo (n := 40) (by decide)]
    decide +kernel
  have hlead : ∀ c ∈ ['\t'], IsBlank c := by simp [IsBlank]
  have hgaps : ∀ gap ∈ [[' '], ['\n'], [' '], ['\t', '\n'], [' '], [' '], ['\n']], IsGap gap := by
    simp [IsGap, IsBlank]
  obtain ⟨ts, hread, hwords⟩ := tokenize_printed htokens hlead hgaps rfl
  refine ⟨ts, ?_, hwords⟩
  rw [← hread]
  rfl

end SqlStore
