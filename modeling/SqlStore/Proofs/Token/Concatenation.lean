import SqlStore.Proofs.Token.Spelling

/-! # Texts one behind the other

What is read from a text that goes on behind a blank or a semicolon:

* **`Separated`** — texts that begin with a blank or a semicolon, which go on with no token;
* **`Lexeme.first?_separated`** — in front of such a text a lexeme stays what it is;
* **`TokenStream.ofLexer_append`** — a text that is read to its end is read in front of such a text too,
  and the rest is read from where it ends;
* **`Location.behind`** and **`TokenStream.ofLexer_behind`** — from another place the same is read, every
  place moved on;
* **`tokenize_append_semicolon`** — the tokens of two texts with a semicolon between them. -/

namespace SqlStore

/-- Whether a text begins with a blank or a semicolon. -/
def Separated (text : List Char) : Prop := ∃ c ∈ text.head?, IsBlank c ∨ c = ';'

/-- A separator goes on no word, no quoted text and no symbol. -/
theorem Separated.not_part {text : List Char} (h : Separated text) : ∀ c ∈ text.head?,
    (c.toLower.isAlpha = false ∧ Lexeme.isNamePart c = false) ∧ (c ≠ '"' ∧ c ≠ '\'') ∧
      c.toLower ≠ '|' := by
  obtain ⟨c, hc, hcases⟩ := h
  intro d hd
  obtain rfl := Option.some.inj (hc.symm.trans hd)
  rcases hcases with (rfl | rfl | rfl) | rfl <;> decide

/-- A separator ends every number. -/
theorem Separated.endsNumber {text : List Char} (h : Separated text) (exponent : List Char) :
    Lexeme.EndsNumber exponent text := by
  obtain ⟨c, hc, hcases⟩ := h
  have hplain : (c.isDigit = false ∧ c ≠ '.' ∧ c ≠ 'e') ∧ c ≠ '+' ∧ c ≠ '-' := by
    rcases hcases with (rfl | rfl | rfl) | rfl <;> decide
  refine ⟨fun d hd => ?_, fun _ => ⟨c, hc, hplain.2⟩⟩
  obtain rfl := Option.some.inj (hc.symm.trans hd)
  exact hplain.1

namespace Lexeme

/-! ## Lexemes in front of a separator -/

/-- A character that no option has behind its first one ends the longest match of a text that has
begun. -/
theorem longestMatch_cons_append {options : List String} {rest : List Char}
    (h : ∀ option ∈ options, ∀ c ∈ rest.head?, c.toLower ∉ option.toList.tail) (d : Char)
    (word : List Char) : longestMatch options (d :: word ++ rest) = longestMatch options (d :: word) := by
  rw [longestMatch, longestMatch, List.cons_append, longestPending, longestPending]
  split
  · rfl
  · apply longestPending_append
    intro q hq c hc
    -- what is pending behind the first character is the tail of an option
    have hpending := mem_agreeing_iff.1 (List.mem_filter.1 hq).1
    obtain ⟨option, hoption, hcons⟩ := List.mem_map.1 hpending
    have htail : option.toList.tail = q.2 := congrArg (·.2.tail) hcons
    exact not_append_prefix (htail ▸ h option hoption c hc)

variable {text rest : List Char} {x : Lexeme}

/-- No symbol goes on with a separator. -/
theorem symbol?_separated (hne : text ≠ []) (hrest : Separated rest) :
    symbol? (text ++ rest) = symbol? text := by
  obtain ⟨d, word, rfl⟩ := List.exists_cons_of_ne_nil hne
  rw [symbol?, longestMatch_cons_append, symbol?]
  intro option hoption c hc hmem
  obtain ⟨s, -, rfl⟩ := List.mem_map.1 hoption
  have hbar : s.spelling.toList.tail.all (· == '|') = true := by
    cases s <;> rfl
  have hc' : c.toLower = '|' := by simpa using List.all_eq_true.1 hbar _ hmem
  exact (hrest.not_part c hc).2.2 hc'

/-- A quoted text that is closed stays what it is. -/
theorem read?_separated {q : Char} (hq : q = '"' ∨ q = '\'') {cs : List Char} {width : Nat}
    (h : Quoted.read? q text = some (cs, width)) (hrest : Separated rest) :
    Quoted.read? q (text ++ rest) = some (cs, width) := by
  obtain ⟨behind, rfl, hbehind, rfl⟩ := Quoted.append_of_read? h
  rw [List.append_assoc]
  refine Quoted.read?_enclose ?_ cs
  -- behind the closing delimiter stands what stood there, or the separator
  cases behind with
  | nil =>
    intro hhead
    have hquote := (hrest.not_part q hhead).2.1
    rcases hq with rfl | rfl
    · exact hquote.1 rfl
    · exact hquote.2 rfl
  | cons c behind => exact hbehind

/-- A number stays what it is. -/
theorem numeric?_separated (h : numeric? text = some x) (hrest : Separated rest) :
    numeric? (text ++ rest) = some x := by
  obtain ⟨head, tail, behind, rfl, hhead, htail, hends, rfl⟩ := exists_of_numeric? h
  rw [List.append_assoc]
  refine numeric?_append hhead htail ?_
  cases behind with
  | nil => exact hrest.endsNumber tail
  | cons c behind => exact hends.congr rfl

/-- A bare name stays what it is. -/
theorem bareName?_separated (h : bareName? text = some x) (hrest : Separated rest) :
    bareName? (text ++ rest) = some x := by
  cases text with
  | nil => cases h
  | cons c cs =>
    have hrun : (cs ++ rest).takeWhile isNamePart = cs.takeWhile isNamePart := by
      -- the name ends where it did, or with the text
      have hsplit : cs.takeWhile isNamePart ++ (cs.dropWhile isNamePart ++ rest) = cs ++ rest := by
        rw [← List.append_assoc, List.takeWhile_append_dropWhile]
      have hnext : ∀ d ∈ (cs.dropWhile isNamePart ++ rest).head?, isNamePart d = false := by
        have hhead := head?_dropWhile (p := isNamePart) cs
        cases hdrop : cs.dropWhile isNamePart with
        | nil => exact fun d hd => (hrest.not_part d hd).1.2
        | cons d others =>
          rw [hdrop] at hhead
          exact hhead
      rw [← hsplit, (takeWhile_append_run (fun d hd => List.mem_takeWhile_imp hd) hnext).1]
    rwa [List.cons_append, bareName?, hrun, ← bareName?]

/-- A name begins with a letter or a double quote. -/
theorem head?_of_identifier? (h : identifier? text = some x) :
    ∃ c cs, text = c :: cs ∧ (c = '"' ∨ c.isAlpha = true) := by
  unfold identifier? at h
  split at h
  · next hread =>
    obtain ⟨behind, rfl, -, -⟩ := Quoted.append_of_read? hread
    exact ⟨'"', _, rfl, .inl rfl⟩
  · cases text with
    | nil => cases h
    | cons c cs =>
      rw [bareName?, Option.ite_none_right_eq_some] at h
      exact ⟨c, cs, rfl, .inr h.1⟩

/-- A name stays what it is. -/
theorem identifier?_separated (h : identifier? text = some x) (hrest : Separated rest) :
    identifier? (text ++ rest) = some x := by
  unfold identifier? at h
  split at h
  · next contents width hread =>
    rw [identifier?, read?_separated (.inl rfl) hread hrest]
    exact h
  · -- a bare name does not begin with a quote
    have hbare := bareName?_separated h hrest
    cases text with
    | nil => cases h
    | cons c cs =>
      rw [bareName?, Option.ite_none_right_eq_some] at h
      have hquote : c ≠ '"' := by
        rintro rfl
        exact absurd h.1 (by decide)
      rw [List.cons_append] at hbare ⊢
      rw [identifier?, Quoted.read?, if_neg hquote]
      exact hbare

/-- In front of a separator a lexeme stays what it is. -/
theorem first?_separated (h : first? text = some x) (hrest : Separated rest) :
    first? (text ++ rest) = some x := by
  have hne : text ≠ [] := by
    rintro rfl
    cases h
  have hkeyword : keyword? (text ++ rest) = keyword? text :=
    keyword?_append (fun c hc => (hrest.not_part c hc).1.1) text
  have hsymbol : symbol? (text ++ rest) = symbol? text := symbol?_separated hne hrest
  rcases first?_eq_some_iff.1 h with hword | ⟨hword, hmark | ⟨hmark, hread | ⟨-, hread | ⟨-, hread⟩⟩⟩⟩
  · exact first?_eq_some_iff.2 (.inl (hkeyword.trans hword))
  · exact first?_eq_some_iff.2 (.inr ⟨hkeyword.trans hword, .inl (hsymbol.trans hmark)⟩)
  · -- the string is closed
    obtain ⟨⟨contents, width⟩, hquoted, rfl⟩ := Option.map_eq_some_iff.1 hread
    have hstring : string? (text ++ rest) = some ⟨.string, String.ofList contents, width⟩ := by
      rw [string?, read?_separated (.inr rfl) hquoted hrest, Option.map_some]
    exact first?_eq_some_iff.2
      (.inr ⟨hkeyword.trans hword, .inr ⟨hsymbol.trans hmark, .inl hstring⟩⟩)
  · exact first?_of_numeric? (numeric?_separated hread hrest)
  · -- what a name begins with begins neither a string nor a number
    have hname := identifier?_separated hread hrest
    obtain ⟨c, cs, rfl, hc⟩ := head?_of_identifier? hread
    have hother : c ≠ '\'' ∧ c.isDigit = false ∧ c ≠ '.' := by
      rcases hc with rfl | hletter
      · decide
      · refine ⟨?_, ?_, ?_⟩
        · rintro rfl
          exact absurd hletter (by decide)
        · rw [Bool.eq_false_iff]
          intro hdigit
          rw [isAlpha_of_isDigit hdigit] at hletter
          cases hletter
        · rintro rfl
          exact absurd hletter (by decide)
    exact first?_eq_some_iff.2 (.inr ⟨hkeyword.trans hword, .inr ⟨hsymbol.trans hmark,
      .inr ⟨string?_eq_none hother.1 _, .inr ⟨numeric?_eq_none hother.2.1 hother.2.2 _, hname⟩⟩⟩⟩)

end Lexeme

/-! ## Reading on behind a text -/

namespace Lexer

variable {last : Option String} {loc : Location} {text rest : List Char}

/-- A token that is read in a text is read if the text goes on behind a separator. -/
theorem nextFrom_separated {t : Token} {l : Lexer} (h : nextFrom last loc text = (some (.ok t), l))
    (hrest : Separated rest) :
    nextFrom last loc (text ++ rest) = (some (.ok t), { l with text := l.text ++ rest }) := by
  induction text generalizing loc with
  | nil => cases h
  | cons c text ih =>
    rw [List.cons_append, nextFrom]
    rw [nextFrom] at h
    cases hblank : loc.afterBlank? c with
    | some after =>
      simp only [hblank] at h
      exact ih h
    | none =>
      simp only [hblank] at h
      cases hfirst : Lexeme.first? (c :: text) with
      | none =>
        simp only [hfirst] at h
        cases h
      | some x =>
        simp only [hfirst] at h
        cases h
        obtain ⟨slice, behind, hslice, hspells⟩ := Lexeme.first?_spells hfirst
        have hread := Lexeme.first?_separated hfirst hrest
        rw [List.cons_append] at hread
        simp only [hread]
        rw [← List.cons_append, hslice, hspells.width, List.append_assoc, List.drop_left,
          List.drop_left]

/-- Where a text without further tokens ends, what follows it is read. -/
theorem nextFrom_append {l : Lexer} (h : nextFrom last loc text = (none, l)) :
    nextFrom last loc (text ++ rest) = nextFrom l.last l.loc rest := by
  induction text generalizing loc with
  | nil =>
    cases h
    rfl
  | cons c text ih =>
    rw [List.cons_append, nextFrom]
    rw [nextFrom] at h
    cases hblank : loc.afterBlank? c with
    | some after =>
      simp only [hblank] at h
      exact ih h
    | none =>
      simp only [hblank] at h
      split at h <;> cases h

/-- A lexer after all its calls. -/
def drained (l : Lexer) : Lexer :=
  match _h : l.next with
  | (none, l') => l'
  | (some (.error _), l') => l'
  | (some (.ok _), l') => l'.drained
termination_by l.text.length
decreasing_by exact length_next_lt _h

/-- A lexer at its end has made all its calls with the next one. -/
theorem drained_of_none {l l' : Lexer} (h : l.next = (none, l')) : l.drained = l' := by
  rw [drained]
  split
  · next h' => rw [h] at h'; cases h'; rfl
  · next h' => rw [h] at h'; cases h'
  · next h' => rw [h] at h'; cases h'

/-- A lexer makes all its calls behind a token. -/
theorem drained_of_token {l l' : Lexer} {t : Token} (h : l.next = (some (.ok t), l')) :
    l.drained = l'.drained := by
  rw [drained]
  split
  · next h' => rw [h] at h'; cases h'
  · next h' => rw [h] at h'; cases h'
  · next h' => rw [h] at h'; cases h'; rfl

end Lexer

/-- A text that is read to its end is read in front of a separator too, and what the separator begins is
read from where the text ends. -/
theorem TokenStream.ofLexer_append {l : Lexer} {rest : List Char} (h : (ofLexer l).fault = none)
    (hrest : Separated rest) :
    ofLexer { l with text := l.text ++ rest }
      = ⟨(ofLexer l).tokens ++ (ofLexer { l.drained with text := rest }).tokens,
          (ofLexer { l.drained with text := rest }).fault⟩ := by
  -- induction as the lexer reads
  induction hlength : l.text.length using Nat.strongRecOn generalizing l with
  | ind n ih =>
    rcases hnext : l.next with ⟨_ | e | t, l'⟩
    · have hend : Lexer.nextFrom l.last l.loc (l.text ++ rest)
          = Lexer.nextFrom l'.last l'.loc rest := Lexer.nextFrom_append hnext
      have hsame : ({ l with text := l.text ++ rest } : Lexer).next
          = ({ l' with text := rest } : Lexer).next := hend
      rw [ofLexer_of_none hnext, Lexer.drained_of_none hnext, ofLexer_congr hsame]
      rfl
    · rw [ofLexer_of_error hnext] at h
      cases h
    · have hshorter := Lexer.length_next_lt hnext
      rw [ofLexer_of_token hnext] at h
      have hread : ({ l with text := l.text ++ rest } : Lexer).next
          = (some (.ok t), { l' with text := l'.text ++ rest }) := Lexer.nextFrom_separated hnext hrest
      rw [ofLexer_of_token hnext, ofLexer_of_token hread, Lexer.drained_of_token hnext,
        ih _ (hlength ▸ hshorter) h rfl]
      rfl

/-! ## Reading from another place -/

/-- The place that is `loc` if places are counted from `base`: columns are moved on in its line only. -/
def Location.behind (base loc : Location) : Location :=
  if loc.line = 0 then ⟨base.line, base.column + loc.column⟩ else ⟨base.line + loc.line, loc.column⟩

/-- A place further on in its line is moved on with it. -/
theorem Location.behind_right (base loc : Location) (width : Nat) :
    base.behind (loc.right width) = (base.behind loc).right width := by
  unfold behind right
  by_cases hline : loc.line = 0
  · simp [hline, Nat.add_assoc]
  · simp [hline]

/-- The next line is moved on with its line. -/
theorem Location.behind_nextLine (base loc : Location) :
    base.behind loc.nextLine = (base.behind loc).nextLine := by
  unfold behind nextLine
  by_cases hline : loc.line = 0
  · simp [hline]
  · simp [hline, Nat.add_assoc]

/-- The place behind a blank is moved on with the blank. -/
theorem Location.behind_afterBlank? (base loc : Location) (c : Char) :
    (base.behind loc).afterBlank? c = (loc.afterBlank? c).map base.behind := by
  unfold afterBlank?
  split
  · rw [Option.map_some, behind_nextLine]
  · split
    · rw [Option.map_some, behind_right]
    · rfl

/-- A token at another place. -/
def Token.moved (f : Location → Location) (t : Token) : Token := { t with loc := f t.loc }

/-- A fault of a text that stands behind a place and behind an earlier value. -/
def LexError.behind (base : Location) (before : Option String) (e : LexError) : LexError :=
  ⟨base.behind e.loc, e.hint.or before⟩

/-- A lexer of a text that stands behind a place and behind an earlier value. -/
def Lexer.behind (base : Location) (before : Option String) (l : Lexer) : Lexer :=
  ⟨l.text, base.behind l.loc, l.last.or before⟩

/-- From another place the same is read there. -/
theorem Lexer.nextFrom_behind (base : Location) (before last : Option String) (loc : Location)
    (text : List Char) :
    nextFrom (last.or before) (base.behind loc) text
      = ((nextFrom last loc text).1.map fun answer =>
            (answer.map (Token.moved base.behind)).mapError (LexError.behind base before),
          (nextFrom last loc text).2.behind base before) := by
  induction text generalizing loc with
  | nil => rfl
  | cons c text ih =>
    rw [nextFrom, nextFrom, Location.behind_afterBlank?]
    cases loc.afterBlank? c with
    | some after => exact ih after
    | none =>
      cases Lexeme.first? (c :: text) with
      | none => rfl
      | some x => simp [Lexer.behind, Location.behind_right, Except.map, Except.mapError, Token.moved]

/-- From another place the same tokens are read there, and the same fault. -/
theorem TokenStream.ofLexer_behind (base : Location) (before : Option String) (l : Lexer) :
    ofLexer (l.behind base before)
      = ⟨(ofLexer l).tokens.map (Token.moved base.behind),
          (ofLexer l).fault.map (LexError.behind base before)⟩ := by
  induction hlength : l.text.length using Nat.strongRecOn generalizing l with
  | ind n ih =>
    have hmoved : (l.behind base before).next = _ :=
      Lexer.nextFrom_behind base before l.last l.loc l.text
    rcases hnext : l.next with ⟨_ | e | t, l'⟩ <;>
      rw [← Lexer.next, hnext] at hmoved
    · rw [ofLexer_of_none hnext, ofLexer_of_none hmoved]
      rfl
    · rw [ofLexer_of_error hnext, ofLexer_of_error hmoved]
      rfl
    · have hshorter := Lexer.length_next_lt hnext
      rw [ofLexer_of_token hnext, ofLexer_of_token hmoved, ih _ (hlength ▸ hshorter) l' rfl]
      rfl

/-! ## Two texts -/

/-- Two texts with a semicolon between them are read as the tokens of the first, the semicolon, and the
tokens of the second moved on to where it stands. -/
theorem tokenize_append_semicolon {a b : String} {ts ts' : List Token} (ha : tokenize a = .ok ts)
    (hb : tokenize b = .ok ts') :
    ∃ (semicolon : Token) (base : Location), semicolon.isSymbol .semicolon = true ∧
      tokenize (a ++ ";" ++ b) = .ok (ts ++ semicolon :: ts'.map (Token.moved base.behind)) := by
  have hfirst : TokenStream.ofLexer (.ofText a) = ⟨ts, none⟩ := tokenize_eq_ok_iff.1 ha
  have hsecond : TokenStream.ofLexer (.ofText b) = ⟨ts', none⟩ := tokenize_eq_ok_iff.1 hb
  let l := (Lexer.ofText a).drained
  let base := l.loc.right 1
  -- the semicolon is read where the first text ends, and the second text is read behind it
  have hnext : ({ l with text := ';' :: b.toList } : Lexer).next
      = (some (.ok ⟨.symbol, ";", l.loc⟩), (Lexer.ofText b).behind base (some ";")) :=
    Lexer.nextFrom_front (Lexeme.first?_symbol .semicolon b.toList) l.last l.loc
  have hrest : TokenStream.ofLexer { l with text := ';' :: b.toList }
      = ⟨⟨.symbol, ";", l.loc⟩ :: ts'.map (Token.moved base.behind), none⟩ := by
    rw [TokenStream.ofLexer_of_token hnext, TokenStream.ofLexer_behind, hsecond]
    rfl
  have hseparated : Separated (';' :: b.toList) := ⟨';', rfl, .inr rfl⟩
  have hboth := TokenStream.ofLexer_append (l := .ofText a) (by rw [hfirst]) hseparated
  refine ⟨⟨.symbol, ";", l.loc⟩, base, rfl, tokenize_eq_ok_iff.2 ?_⟩
  have htext : Lexer.ofText (a ++ ";" ++ b)
      = { Lexer.ofText a with text := (Lexer.ofText a).text ++ ';' :: b.toList } := by
    simp [Lexer.ofText]
  rw [TokenStream.ofText, htext, hboth, hfirst, hrest]

end SqlStore
