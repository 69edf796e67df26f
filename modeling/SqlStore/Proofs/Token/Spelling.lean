import SqlStore.Proofs.Token.Pieces

/-! # Texts spelled out

Which tokens are read from a text that is put together word by word:

* **`Bounded`** — what may stand behind a word without joining it: nothing, or a text that begins with a
  blank, a comma or a parenthesis;
* **`Lexeme.first?_keyword`**, **`first?_symbol`**, **`first?_quotedName`**, **`first?_quotedText`**,
  **`first?_of_numeric?`** — the lexeme of each kind of word, in front of all that does not go on with
  it;
* **`Spelled text Words`** — in front of anything that bounds it, the text is read as tokens for which
  `Words` holds. `Spelled.append`, `Spelled.blank` and `Spelled.mark` put such texts together;
* **`Spelled.ofText`** — a spelled text by itself has these tokens and no fault. -/

namespace SqlStore

/-- Whether a text is empty or begins with a character that ends a word. -/
def Bounded (text : List Char) : Prop := ∀ c ∈ text.head?, c ∈ [' ', ',', '(', ')']

/-- Behind a bounded text that is not empty nothing matters. -/
theorem Bounded.append {text rest : List Char} (h : Bounded text) (hrest : Bounded rest) :
    Bounded (text ++ rest) := by
  cases text with
  | nil => exact hrest
  | cons c text => exact h

/-- A text is bounded if it begins with a character that ends a word. -/
theorem Bounded.cons {c : Char} (h : c ∈ [' ', ',', '(', ')']) (text : List Char) :
    Bounded (c :: text) := by
  intro d hd
  exact Option.some.inj hd ▸ h

/-- A bound is no letter, no quote, and no part of a number. -/
theorem Bounded.not_part {text : List Char} (h : Bounded text) : ∀ c ∈ text.head?,
    c.toLower.isAlpha = false ∧ (c ≠ '"' ∧ c ≠ '\'') ∧ c.isDigit = false ∧ c ≠ '.' ∧ c ≠ 'e' := by
  intro c hc
  have hmem := h c hc
  simp only [List.mem_cons, List.not_mem_nil, or_false] at hmem
  rcases hmem with rfl | rfl | rfl | rfl <;> decide

/-- Reserved words are spelled in letters. -/
theorem Keyword.isAlpha_of_mem {k : Keyword} {c : Char} (h : c ∈ k.spelling.toList) :
    c.isAlpha = true := by
  have hall : k.spelling.toList.all Char.isAlpha = true := by
    cases k <;> rfl
  exact List.all_eq_true.1 hall c h

namespace Lexeme

/-! ## Reserved words and marks -/

/-- Without pending options reading on finds nothing more. -/
theorem longestPending_nil {α : Type} [DecidableEq α] (lower : α → α) (best : Option String)
    (text : List α) : longestPending lower best [] text = best := by
  cases text <;> rfl

/-- Upper and lower case are read alike. -/
theorem longestPending_congr {text text' : List Char}
    (h : text.map Char.toLower = text'.map Char.toLower) (best : Option String)
    (pending : List (String × List Char)) :
    longestPending Char.toLower best pending text = longestPending Char.toLower best pending text' := by
  induction text generalizing text' best pending with
  | nil =>
    obtain rfl : text' = [] := List.map_eq_nil_iff.1 h.symm
    rfl
  | cons c text ih =>
    cases text' with
    | nil => cases h
    | cons d text' =>
      obtain ⟨hc, htext⟩ := List.cons.inj h
      rw [longestPending, longestPending, hc]
      split
      · rfl
      · exact ih htext _ _

/-- What no pending option goes on with behind the text read so far ends the reading. -/
theorem longestPending_append {α : Type} [DecidableEq α] {lower : α → α}
    {pending : List (String × List α)} {text rest : List α}
    (h : ∀ q ∈ pending, ∀ c ∈ rest.head?, ¬ text.map lower ++ [lower c] <+: q.2)
    (best : Option String) :
    longestPending lower best pending (text ++ rest) = longestPending lower best pending text := by
  -- induction on the text; what stays pending goes on as it did before
  induction text generalizing best pending with
  | nil =>
    cases rest with
    | nil => rfl
    | cons c rest =>
      have hleft : agreeing (lower c) pending = [] := by
        refine List.eq_nil_iff_forall_not_mem.2 fun q hq => ?_
        exact h _ (mem_agreeing_iff.1 hq) c rfl (List.prefix_append [lower c] q.2)
      have hnil : longestPending lower best pending [] = best := rfl
      rw [List.nil_append, hnil, longestPending, hleft]
      split
      · rfl
      · exact longestPending_nil _ _ _
  | cons d text ih =>
    rw [List.cons_append, longestPending, longestPending]
    split
    · rfl
    · refine ih (fun q hq c hc hfront => ?_) _
      exact h _ (mem_agreeing_iff.1 (List.mem_filter.1 hq).1) c hc (List.cons_prefix_cons.2 ⟨rfl, hfront⟩)

/-- A character that is not in an option does not go on with it. -/
theorem not_append_prefix {option text : List Char} {c : Char} (h : c ∉ option) :
    ¬ text ++ [c] <+: option :=
  fun hfront => h (hfront.subset List.mem_concat_self)

/-- A character that no option has ends the longest match. -/
theorem longestMatch_append {options : List String} {rest : List Char}
    (h : ∀ option ∈ options, ∀ c ∈ rest.head?, c.toLower ∉ option.toList) (word : List Char) :
    longestMatch options (word ++ rest) = longestMatch options word := by
  apply longestPending_append
  intro q hq c hc
  obtain ⟨option, hoption, rfl⟩ := List.mem_map.1 hq
  exact not_append_prefix (h option hoption c hc)

/-- Only letters go on a reserved word. -/
theorem keyword?_append {rest : List Char} (h : ∀ c ∈ rest.head?, c.toLower.isAlpha = false)
    (word : List Char) : keyword? (word ++ rest) = keyword? word := by
  rw [keyword?, longestMatch_append, keyword?]
  intro option hoption c hc hmem
  obtain ⟨k, -, rfl⟩ := List.mem_map.1 hoption
  have hletter := h c hc
  rw [Keyword.isAlpha_of_mem hmem] at hletter
  cases hletter

/-- A reserved word in any letter case is read in front of anything but a letter. -/
theorem first?_keyword (k : Keyword) {text rest : List Char}
    (h : text.map Char.toLower = k.spelling.toList)
    (hrest : ∀ c ∈ rest.head?, c.toLower.isAlpha = false) :
    first? (text ++ rest) = some ⟨.keyword, k.spelling, text.length⟩ := by
  have hlower : text.map Char.toLower = k.spelling.toList.map Char.toLower := by
    rw [h]
    cases k <;> rfl
  have hspelling : longestMatch (Keyword.all.map Keyword.spelling) k.spelling.toList
      = some k.spelling := by
    cases k <;> rfl
  have hlength : text.length = k.spelling.length := by
    rw [← List.length_map Char.toLower, h, String.length_toList]
  have hkeyword : keyword? (text ++ rest) = some ⟨.keyword, k.spelling, text.length⟩ := by
    rw [keyword?_append hrest, keyword?, longestMatch, longestPending_congr hlower, hlength]
    exact congrArg (Option.map _) hspelling
  rw [first?, hkeyword]
  rfl

/-- No reserved word is read where no letter stands. -/
theorem keyword?_eq_none {c : Char} (h : c.toLower.isAlpha = false) (text : List Char) :
    keyword? (c :: text) = none :=
  keyword?_append (by rintro d ⟨⟩; exact h) []

/-- No symbol is read where a character stands that no symbol has. -/
theorem symbol?_eq_none {c : Char} (h : ∀ s : Symbol, c.toLower ∉ s.spelling.toList)
    (text : List Char) : symbol? (c :: text) = none := by
  have hmark : ∀ mark ∈ Symbol.all.map Symbol.spelling, ∀ d ∈ (c :: text).head?,
      d.toLower ∉ mark.toList := by
    rintro mark hmem d ⟨⟩
    obtain ⟨s, -, rfl⟩ := List.mem_map.1 hmem
    exact h s
  rw [symbol?, ← List.nil_append (c :: text), longestMatch_append hmark]
  rfl

/-- A symbol is read whatever stands behind it. -/
theorem first?_symbol (s : Symbol) (rest : List Char) :
    first? (s.spelling.toList ++ rest) = some ⟨.symbol, s.spelling, s.spelling.toList.length⟩ := by
  -- its characters are read, and no longer symbol is pending
  have hsymbol : symbol? (s.spelling.toList ++ rest)
      = (longestPending Char.toLower (some s.spelling) [] rest).map fun mark => ⟨.symbol, mark, mark.length⟩ := by
    cases s <;> rfl
  have hkeyword : keyword? (s.spelling.toList ++ rest) = none := by
    cases s <;> exact keyword?_eq_none (by decide) _
  rw [first?, hkeyword, hsymbol, longestPending_nil, Option.map_some, String.length_toList]
  rfl

/-! ## Quoted words -/

/-- No string is read where no single quote stands. -/
theorem string?_eq_none {c : Char} (h : c ≠ '\'') (text : List Char) :
    string? (c :: text) = none := by
  rw [string?, Quoted.read?, if_neg h, Option.map_none]

/-- No number is read where neither a digit nor a point stands. -/
theorem numeric?_eq_none {c : Char} (hdigit : c.isDigit = false) (hpoint : c ≠ '.')
    (text : List Char) : numeric? (c :: text) = none := by
  refine Option.eq_none_iff_forall_ne_some.2 fun x hx => ?_
  obtain ⟨head, tail, behind, htext, hhead, -, -, -⟩ := exists_of_numeric? hx
  obtain ⟨d, head, rfl⟩ := List.exists_cons_of_ne_nil hhead.ne_nil
  obtain rfl : c = d := (List.cons.inj htext).1
  rcases hhead.head? c rfl with hd | hd
  · rw [hdigit] at hd
    cases hd
  · exact hpoint hd

/-- A name between double quotes is read up to its closing quote. -/
theorem first?_quotedName (cs : List Char) {rest : List Char} (hrest : rest.head? ≠ some '"') :
    first? (Quoted.enclose '"' cs ++ rest)
      = some ⟨.identifier, String.ofList cs, (Quoted.enclose '"' cs).length⟩ := by
  have hkeyword : keyword? (Quoted.enclose '"' cs ++ rest) = none := keyword?_eq_none (by decide) _
  have hsymbol : symbol? (Quoted.enclose '"' cs ++ rest) = none :=
    symbol?_eq_none (by intro s; cases s <;> decide) _
  have hstring : string? (Quoted.enclose '"' cs ++ rest) = none := string?_eq_none (by decide) _
  have hnumeric : numeric? (Quoted.enclose '"' cs ++ rest) = none :=
    numeric?_eq_none (by decide) (by decide) _
  have hname : identifier? (Quoted.enclose '"' cs ++ rest)
      = some ⟨.identifier, String.ofList cs, (Quoted.enclose '"' cs).length⟩ := by
    rw [identifier?, Quoted.read?_enclose hrest]
  rw [first?, hkeyword, hsymbol, hstring, hnumeric, hname]
  rfl

/-- A text between single quotes is read up to its closing quote. -/
theorem first?_quotedText (cs : List Char) {rest : List Char} (hrest : rest.head? ≠ some '\'') :
    first? (Quoted.enclose '\'' cs ++ rest)
      = some ⟨.string, String.ofList cs, (Quoted.enclose '\'' cs).length⟩ := by
  have hkeyword : keyword? (Quoted.enclose '\'' cs ++ rest) = none := keyword?_eq_none (by decide) _
  have hsymbol : symbol? (Quoted.enclose '\'' cs ++ rest) = none :=
    symbol?_eq_none (by intro s; cases s <;> decide) _
  have hstring : string? (Quoted.enclose '\'' cs ++ rest)
      = some ⟨.string, String.ofList cs, (Quoted.enclose '\'' cs).length⟩ := by
    rw [string?, Quoted.read?_enclose hrest, Option.map_some]
  rw [first?, hkeyword, hsymbol, hstring]
  rfl

/-! ## Numbers -/

/-- A digit has no other letter case. -/
theorem toLower_of_isDigit {c : Char} (h : c.isDigit = true) : c.toLower = c := by
  rw [Char.isDigit_iff_toNat] at h
  have hle : c.val.toNat ≤ 57 := h.2
  refine dif_neg fun hupper => ?_
  have hlow : 65 ≤ c.val.toNat := UInt32.le_iff_toNat_le.1 hupper.1
  omega

/-- Digits are ASCII characters. -/
theorem toNat_lt_of_isDigit {c : Char} (h : c.isDigit = true) : c.toNat < 128 :=
  Nat.lt_of_le_of_lt (Char.isDigit_iff_toNat.1 h).2 (by decide)

/-- A digit is no letter. -/
theorem isAlpha_of_isDigit {c : Char} (h : c.isDigit = true) : c.isAlpha = false := by
  rw [Char.isDigit_iff_toNat] at h
  have hle : c.val.toNat ≤ 57 := h.2
  -- both ranges of letters begin behind the digits
  have hupper : ¬ c.isUpper = true := by
    intro hletter
    have hrange := of_decide_eq_true hletter
    have hlow : 65 ≤ c.val.toNat := UInt32.le_iff_toNat_le.1 hrange.1
    omega
  have hlower : ¬ c.isLower = true := by
    intro hletter
    have hrange := Bool.and_eq_true_iff.1 hletter
    have hlow : 97 ≤ c.val.toNat := UInt32.le_iff_toNat_le.1 (of_decide_eq_true hrange.1)
    omega
  exact Bool.eq_false_iff.2 fun hletter => (Bool.or_eq_true_iff.1 hletter).elim hupper hlower

/-- A digit or a point begins no reserved word, no symbol and no string. -/
theorem not_part_of_number {c : Char} (h : c.isDigit = true ∨ c = '.') :
    c.toLower.isAlpha = false ∧ (∀ s : Symbol, c.toLower ∉ s.spelling.toList) ∧ c ≠ '\'' := by
  rcases h with h | rfl
  · rw [toLower_of_isDigit h]
    refine ⟨isAlpha_of_isDigit h, fun s hs => ?_, ?_⟩
    · have hall : s.spelling.toList.all (fun c => !c.isDigit) = true := by
        cases s <;> rfl
      have hmark := List.all_eq_true.1 hall _ hs
      rw [h] at hmark
      cases hmark
    · rintro rfl
      exact absurd h (by decide)
  · exact ⟨by decide, fun s => by cases s <;> decide, by decide⟩

/-- What is read as a number is the lexeme there. -/
theorem first?_of_numeric? {text : List Char} {x : Lexeme} (h : numeric? text = some x) :
    first? text = some x := by
  obtain ⟨head, tail, behind, rfl, hhead, -⟩ := exists_of_numeric? h
  obtain ⟨c, head, rfl⟩ := List.exists_cons_of_ne_nil hhead.ne_nil
  obtain ⟨hletter, hmark, hquote⟩ := not_part_of_number (hhead.head? c rfl)
  have hkeyword : keyword? (c :: head ++ tail ++ behind) = none := keyword?_eq_none hletter _
  have hsymbol : symbol? (c :: head ++ tail ++ behind) = none := symbol?_eq_none hmark _
  have hstring : string? (c :: head ++ tail ++ behind) = none := string?_eq_none hquote _
  rw [first?, hkeyword, hsymbol, hstring, h]
  rfl

/-- No lexeme is read where a character stands that begins none. -/
theorem first?_eq_none {c : Char} (hletter : c.isAlpha = false ∧ c.toLower.isAlpha = false)
    (hmark : ∀ s : Symbol, c.toLower ∉ s.spelling.toList) (hquote : c ≠ '\'' ∧ c ≠ '"')
    (hnumber : c.isDigit = false ∧ c ≠ '.') (text : List Char) : first? (c :: text) = none := by
  have hkeyword : keyword? (c :: text) = none := keyword?_eq_none hletter.2 text
  have hsymbol : symbol? (c :: text) = none := symbol?_eq_none hmark text
  have hstring : string? (c :: text) = none := string?_eq_none hquote.1 text
  have hnumeric : numeric? (c :: text) = none := numeric?_eq_none hnumber.1 hnumber.2 text
  have hname : identifier? (c :: text) = none := by
    rw [identifier?, Quoted.read?, if_neg hquote.2]
    exact if_neg (Bool.eq_false_iff.1 hletter.1)
  rw [first?, hkeyword, hsymbol, hstring, hnumeric, hname]
  rfl

/-- No lexeme is read where a blank stands. -/
theorem first?_blank {c : Char} (h : IsBlank c) (text : List Char) : first? (c :: text) = none := by
  rcases h with rfl | rfl | rfl <;>
    exact first?_eq_none (by decide) (by intro s; cases s <;> decide) (by decide) (by decide) text

/-- Digits are read up to their bound. -/
theorem first?_digits {ds rest : List Char} (hne : ds ≠ []) (hds : ∀ d ∈ ds, d.isDigit = true)
    (hrest : Bounded rest) : first? (ds ++ rest) = some ⟨.numeric, String.ofList ds, ds.length⟩ := by
  have hends : EndsNumber [] rest :=
    ⟨fun c hc => (hrest.not_part c hc).2.2, fun hbare => by cases hbare⟩
  have hnumeric := numeric?_append (.digits hne hds) .none hends
  rw [List.append_nil] at hnumeric
  exact first?_of_numeric? hnumeric

end Lexeme

/-- A lexeme at the front of a text is read as a token. -/
theorem Lexer.nextFrom_front {kind : TokenKind} {value : String} {text rest : List Char}
    (h : Lexeme.first? (text ++ rest) = some ⟨kind, value, text.length⟩) (last : Option String)
    (loc : Location) : nextFrom last loc (text ++ rest)
      = (some (.ok ⟨kind, value, loc⟩), ⟨rest, loc.right text.length, some value⟩) := by
  have hblank : ∀ c ∈ (text ++ rest).head?, ¬ IsBlank c := by
    intro c hc hblank
    obtain ⟨others, hothers⟩ := List.head?_eq_some_iff.1 hc
    rw [hothers, Lexeme.first?_blank hblank] at h
    cases h
  rw [nextFrom_lexeme hblank h, List.drop_left]

/-! ## Texts word by word -/

/-- Whether a text is read as tokens for which `Words` holds, wherever it stands and whatever bounds
it. -/
def Spelled (text : List Char) (Words : List Token → Prop) : Prop :=
  ∀ rest, Bounded rest → ∀ loc last, ∃ ts loc' last', Words ts ∧
    TokenStream.ofLexer ⟨text ++ rest, loc, last⟩
      = ⟨ts ++ (TokenStream.ofLexer ⟨rest, loc', last'⟩).tokens,
          (TokenStream.ofLexer ⟨rest, loc', last'⟩).fault⟩

/-- Whether tokens are one token for which `P` holds. -/
def OneToken (P : Token → Prop) (ts : List Token) : Prop := ∃ t, ts = [t] ∧ P t

/-- Whether tokens are such for which `P` holds, and behind them such for which `Q` holds. -/
def InOrder (P Q : List Token → Prop) (ts : List Token) : Prop :=
  ∃ front back, ts = front ++ back ∧ P front ∧ Q back

namespace Spelled

variable {text text' : List Char} {Words Words' : List Token → Prop}

/-- What is read as some tokens is read as tokens of a wider kind. -/
theorem mono (h : Spelled text Words) (himp : ∀ ts, Words ts → Words' ts) : Spelled text Words' := by
  intro rest hrest loc last
  obtain ⟨ts, loc', last', hts, hread⟩ := h rest hrest loc last
  exact ⟨ts, loc', last', himp ts hts, hread⟩

/-- A lexeme with a bound behind it is read as one token. -/
theorem word {kind : TokenKind} {value : String} (hfirst : ∀ rest, Bounded rest →
      Lexeme.first? (text ++ rest) = some ⟨kind, value, text.length⟩) :
    Spelled text (OneToken fun t => t.kind = kind ∧ t.value = value) := by
  intro rest hrest loc last
  have hnext := Lexer.nextFrom_front (hfirst rest hrest) last loc
  exact ⟨[⟨kind, value, loc⟩], _, _, ⟨_, rfl, rfl, rfl⟩, TokenStream.ofLexer_of_token hnext⟩

/-- Texts that are bounded by each other are read one after the other. -/
theorem append (h : Spelled text Words) (hbound : Bounded text') (h' : Spelled text' Words') :
    Spelled (text ++ text') (InOrder Words Words') := by
  intro rest hrest loc last
  obtain ⟨front, loc₁, last₁, hfront, hread⟩ := h _ (hbound.append hrest) loc last
  obtain ⟨back, loc₂, last₂, hback, hread'⟩ := h' rest hrest loc₁ last₁
  refine ⟨front ++ back, loc₂, last₂, ⟨front, back, rfl, hfront, hback⟩, ?_⟩
  rw [List.append_assoc, hread, hread', List.append_assoc]

/-- A blank in front is passed over. -/
theorem blank (h : Spelled text Words) : Spelled (' ' :: text) Words := by
  intro rest hrest loc last
  obtain ⟨ts, loc', last', hts, hread⟩ := h rest hrest (loc.right 1) last
  refine ⟨ts, loc', last', hts, ?_⟩
  -- the lexer goes on as if it stood behind the blank
  have hnext : (⟨' ' :: text ++ rest, loc, last⟩ : Lexer).next
      = (⟨text ++ rest, loc.right 1, last⟩ : Lexer).next := rfl
  rw [TokenStream.ofLexer_congr hnext, hread]

/-- A symbol needs no bound behind it. -/
theorem mark {s : Symbol} (h : Spelled text Words) :
    Spelled (s.spelling.toList ++ text) (InOrder (OneToken (·.isSymbol s = true)) Words) := by
  intro rest hrest loc last
  have hnext : (⟨s.spelling.toList ++ (text ++ rest), loc, last⟩ : Lexer).next = _ :=
    Lexer.nextFrom_front (Lexeme.first?_symbol s _) last loc
  obtain ⟨ts, loc', last', hts, hread⟩ :=
    h rest hrest (loc.right s.spelling.toList.length) (some s.spelling)
  refine ⟨⟨.symbol, s.spelling, loc⟩ :: ts, loc', last', ⟨[_], ts, rfl, ⟨_, rfl, ?_⟩, hts⟩, ?_⟩
  · simp [Token.isSymbol]
  · rw [List.append_assoc, TokenStream.ofLexer_of_token hnext, hread]
    rfl

/-- Nothing is read from no text. -/
theorem nil : Spelled [] (· = []) := fun _ _ loc last => ⟨[], loc, last, rfl, rfl⟩

/-- A spelled text is read to its end. -/
theorem ofText (h : Spelled text Words) :
    ∃ ts, TokenStream.ofText (String.ofList text) = ⟨ts, none⟩ ∧ Words ts := by
  obtain ⟨ts, loc, last, hts, hread⟩ := h [] (fun c hc => by cases hc) {} none
  refine ⟨ts, ?_, hts⟩
  have hend : TokenStream.ofLexer ⟨[], loc, last⟩ = ⟨[], none⟩ := TokenStream.ofLexer_of_none rfl
  rw [hend, List.append_nil, List.append_nil] at hread
  rw [TokenStream.ofText, Lexer.ofText, String.toList_ofList]
  exact hread

end Spelled

end SqlStore
