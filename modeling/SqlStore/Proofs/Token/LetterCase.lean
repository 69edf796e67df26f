import SqlStore.Proofs.Token.Spelling
import Mathlib.Data.List.Chain

/-! # Letter case outside quotes

What is read from a text if letters outside its quoted tokens are written in the other case:

* **`Recased pieces text`** — the characters of the pieces, letters outside quotes in either case, and
  **`RecasedText a b`** — `b` is made so of the pieces of `a`;
* **`PlainNumbers`** — tokens whose numbers are digits only and have no name behind them. Another number
  may have an `e`, which is no exponent as a capital letter;
* **`Lexeme.first?_recased`** — a lexeme stays what it is;
* **`Reading.tokenize`** — the pieces of a text have its tokens, and **`RecasedText.tokenize`** — so does
  the text in the other case, at the same places. -/

namespace SqlStore

/-- Whether a text is made of the characters of pieces, letters in either case: blanks and quoted slices
are kept, and in any other slice each letter may change its case. -/
inductive Recased : List Piece → List Char → Prop
  | nil : Recased [] []
  | blank (c : Char) {pieces : List Piece} {text : List Char} (hrest : Recased pieces text) :
      Recased (.blank c :: pieces) (c :: text)
  | lexeme {slice slice' : List Char} {t : Token} {pieces : List Piece} {text : List Char}
      (hcase : slice'.map Char.toLower = slice.map Char.toLower)
      (hquoted : (Lexeme.delimiter? t.kind slice).isSome = true → slice' = slice)
      (hrest : Recased pieces text) : Recased (.lexeme slice t :: pieces) (slice' ++ text)

/-- Upper and lower case are all that is different. -/
theorem Recased.map_toLower {pieces : List Piece} {text : List Char} (h : Recased pieces text) :
    text.map Char.toLower = (charsOf pieces).map Char.toLower := by
  induction h with
  | nil => rfl
  | blank c hrest ih => exact congrArg (c.toLower :: ·) ih
  | lexeme hcase hquoted hrest ih =>
    rw [List.map_append, hcase, ih, ← List.map_append]
    rfl

/-! ## Characters in either case -/

/-- A character that is no letter stays as it is in lower case. -/
theorem toLower_eq_self {c : Char} (h : c.isAlpha = false) : c.toLower = c := by
  obtain ⟨hupper, -⟩ := Bool.or_eq_false_iff.1 h
  exact dif_neg (of_decide_eq_false hupper)

/-- A letter is one in lower case, and nothing else is. -/
theorem isAlpha_toLower (c : Char) : c.toLower.isAlpha = c.isAlpha := by
  by_cases hupper : c.isUpper = true
  · have hrange := of_decide_eq_true hupper
    have hlow : 65 ≤ c.val.toNat := UInt32.le_iff_toNat_le.1 hrange.1
    have hhigh : c.val.toNat ≤ 90 := UInt32.le_iff_toNat_le.1 hrange.2
    have hlower : 97 ≤ c.toLower.val.toNat ∧ c.toLower.val.toNat ≤ 122 := by
      rw [toNat_toLower hrange]
      omega
    have hletter : c.toLower.isLower = true := Bool.and_eq_true_iff.2
      ⟨decide_eq_true (UInt32.le_iff_toNat_le.2 hlower.1),
        decide_eq_true (UInt32.le_iff_toNat_le.2 hlower.2)⟩
    exact (Bool.or_eq_true_iff.2 (.inr hletter)).trans (Bool.or_eq_true_iff.2 (.inl hupper)).symm
  · have hsame : c.toLower = c := dif_neg fun hrange => hupper (decide_eq_true hrange)
    rw [hsame]

/-- A character that is no letter has no other case. -/
theorem eq_of_toLower_eq_toLower {c d : Char} (h : c.toLower = d.toLower)
    (hd : d.isAlpha = false) : c = d := by
  have hc : c.isAlpha = false := by
    rw [← isAlpha_toLower c, h, isAlpha_toLower, hd]
  rw [← toLower_eq_self hc, h, toLower_eq_self hd]

/-- A text without letters has no other case. -/
theorem eq_of_map_toLower_eq {text text' : List Char}
    (h : text'.map Char.toLower = text.map Char.toLower) (htext : ∀ c ∈ text, c.isAlpha = false) :
    text' = text := by
  induction text generalizing text' with
  | nil => exact List.map_eq_nil_iff.1 h
  | cons c text ih =>
    cases text' with
    | nil => cases h
    | cons d text' =>
      obtain ⟨hhead, htail⟩ := List.cons.inj h
      rw [eq_of_toLower_eq_toLower hhead (htext c List.mem_cons_self),
        ih htail fun b hb => htext b (List.mem_cons_of_mem c hb)]

/-- Texts that differ in case only begin with characters that do. -/
theorem head?_of_map_toLower {text text' : List Char}
    (h : text'.map Char.toLower = text.map Char.toLower) {d : Char} (hd : d ∈ text'.head?) :
    ∃ c ∈ text.head?, d.toLower = c.toLower := by
  have hhead := congrArg List.head? h
  rw [List.head?_map, List.head?_map, hd] at hhead
  obtain ⟨c, hc, hcase⟩ := Option.map_eq_some_iff.1 hhead.symm
  exact ⟨c, hc, hcase.symm⟩

namespace Lexeme

variable {text text' : List Char}

/-- A text does not begin with a delimiter if it does not in the other case. -/
theorem head?_ne_of_map_toLower (h : text'.map Char.toLower = text.map Char.toLower) {q : Char}
    (hq : q.isAlpha = false) (htext : text.head? ≠ some q) : text'.head? ≠ some q := by
  intro hhead
  obtain ⟨c, hc, hcase⟩ := head?_of_map_toLower h hhead
  rw [eq_of_toLower_eq_toLower hcase.symm hq] at hc
  exact htext hc

/-- A part of a name is one in either case. -/
theorem isNamePart_toLower (c : Char) : isNamePart c.toLower = isNamePart c := by
  by_cases halpha : c.isAlpha = true
  · have hpart : ∀ d : Char, d.isAlpha = true → isNamePart d = true := fun d hd => by
      simp [isNamePart, Char.isAlphanum, hd]
    rw [hpart c halpha, hpart c.toLower ((isAlpha_toLower c).trans halpha)]
  · rw [toLower_eq_self (Bool.eq_false_iff.2 halpha)]

/-! ## Lexemes in either case -/

/-- Reserved words are read in either case. -/
theorem keyword?_recased (h : text'.map Char.toLower = text.map Char.toLower) :
    keyword? text' = keyword? text := by
  rw [keyword?, longestMatch, longestPending_congr h]
  rfl

/-- Symbols are read whatever the case of letters is. -/
theorem symbol?_recased (h : text'.map Char.toLower = text.map Char.toLower) :
    symbol? text' = symbol? text := by
  rw [symbol?, longestMatch, longestPending_congr h]
  rfl

/-- Bare names are read in either case and have the same value. -/
theorem bareName?_recased (h : text'.map Char.toLower = text.map Char.toLower) :
    bareName? text' = bareName? text := by
  have hpart : isNamePart ∘ Char.toLower = isNamePart := funext isNamePart_toLower
  cases text with
  | nil =>
    obtain rfl := List.map_eq_nil_iff.1 h
    rfl
  | cons c text =>
    cases text' with
    | nil => cases h
    | cons d text' =>
      obtain ⟨hhead, htail⟩ := List.cons.inj h
      have hname : (d :: text'.takeWhile isNamePart).map Char.toLower
          = (c :: text.takeWhile isNamePart).map Char.toLower := by
        have htaken := congrArg (List.takeWhile isNamePart) htail
        rw [List.takeWhile_map, List.takeWhile_map, hpart] at htaken
        rw [List.map_cons, List.map_cons, hhead, htaken]
      have hlength := congrArg List.length hname
      rw [List.length_map, List.length_map] at hlength
      have halpha : d.isAlpha = c.isAlpha := by
        rw [← isAlpha_toLower d, hhead, isAlpha_toLower]
      simp only [bareName?, halpha, hname, hlength]

/-- Where a letter stands, neither a string nor a number is read, and no quoted name. -/
theorem eq_none_of_isAlpha {c : Char} (h : c.isAlpha = true) (rest : List Char) :
    string? (c :: rest) = none ∧ numeric? (c :: rest) = none ∧
      Quoted.read? '"' (c :: rest) = none := by
  have hne : ∀ d : Char, d.isAlpha = false → c ≠ d := by
    rintro d hd rfl
    rw [h] at hd
    cases hd
  have hdigit : c.isDigit = false :=
    Bool.eq_false_iff.2 fun hd => hne c (isAlpha_of_isDigit hd) rfl
  exact ⟨string?_eq_none (hne _ rfl) rest, numeric?_eq_none hdigit (hne _ rfl) rest,
    if_neg (hne _ rfl)⟩

/-- A bare name is the lexeme where neither a reserved word nor a symbol is read. -/
theorem first?_of_bareName? {x : Lexeme} (h : bareName? text = some x)
    (hkeyword : keyword? text = none) (hsymbol : symbol? text = none) : first? text = some x := by
  cases text with
  | nil => cases h
  | cons c rest =>
    have halpha : c.isAlpha = true := by
      rw [bareName?, Option.ite_none_right_eq_some] at h
      exact h.1
    obtain ⟨hstring, hnumeric, hquoted⟩ := eq_none_of_isAlpha halpha rest
    have hname : identifier? (c :: rest) = some x := by
      rw [identifier?, hquoted]
      exact h
    rw [first?, hkeyword, hsymbol, hstring, hnumeric, hname]
    rfl

/-- A quoted text that is read is its slice, and no further delimiter stands behind it. -/
theorem eq_enclose_of_read? {q : Char} {slice behind cs : List Char}
    (h : Quoted.read? q (slice ++ behind) = some (cs, slice.length)) :
    slice = Quoted.enclose q cs ∧ behind.head? ≠ some q := by
  obtain ⟨rest, htext, hrest, hlength⟩ := Quoted.append_of_read? h
  obtain ⟨hslice, rfl⟩ := List.append_inj htext hlength
  exact ⟨hslice, hrest⟩

/-- Where a number of digits ends, it ends in either case unless an `E` stands there. -/
theorem EndsNumber.recased (h : EndsNumber [] text)
    (hcase : text'.map Char.toLower = text.map Char.toLower)
    (hexponent : ∀ c ∈ text.head?, c.toLower ≠ 'e') : EndsNumber [] text' where
  head d hd := by
    obtain ⟨c, hc, hlower⟩ := head?_of_map_toLower hcase hd
    obtain ⟨hdigit, hpoint, -⟩ := h.head c hc
    refine ⟨Bool.eq_false_iff.2 fun hd' => ?_, ?_, ?_⟩
    · rw [eq_of_toLower_eq_toLower hlower.symm (isAlpha_of_isDigit hd'), hd'] at hdigit
      cases hdigit
    · rintro rfl
      exact hpoint (eq_of_toLower_eq_toLower hlower.symm rfl)
    · rintro rfl
      exact hexponent c hc hlower.symm
  bare hbare := by cases hbare

variable {slice slice' behind behind' : List Char} {kind : TokenKind} {value : String}

/-- A number of digits is read as before if no `e` or `E` stands behind it. -/
theorem numeric?_recased (h : numeric? (slice ++ behind) = some ⟨kind, value, slice.length⟩)
    (hdigits : ∀ c ∈ slice, c.isDigit = true) (hexponent : ∀ c ∈ behind.head?, c.toLower ≠ 'e')
    (hbehind : behind'.map Char.toLower = behind.map Char.toLower) :
    numeric? (slice ++ behind') = some ⟨kind, value, slice.length⟩ := by
  obtain ⟨head, tail, rest, htext, hhead, htail, hends, hx⟩ := exists_of_numeric? h
  obtain ⟨rfl, rfl, hlength⟩ := Lexeme.mk.inj hx
  obtain ⟨rfl, rfl⟩ := List.append_inj htext hlength
  obtain rfl : tail = [] := by
    cases htail with
    | none => rfl
    | _ => exact absurd (hdigits 'e' (by simp)) (by decide)
  exact numeric?_append hhead .none (hends.recased hbehind hexponent)

/-- A lexeme is read as before if letters that are not in quotes change their case, in it and behind it.
A number has to be of digits only, without an `e` or `E` behind it. -/
theorem first?_recased (h : first? (slice ++ behind) = some ⟨kind, value, slice.length⟩)
    (hslice : slice'.map Char.toLower = slice.map Char.toLower)
    (hquoted : (delimiter? kind slice).isSome = true → slice' = slice)
    (hbehind : behind'.map Char.toLower = behind.map Char.toLower)
    (hnumber : kind = .numeric →
      (∀ c ∈ slice, c.isDigit = true) ∧ ∀ c ∈ behind.head?, c.toLower ≠ 'e') :
    first? (slice' ++ behind') = some ⟨kind, value, slice.length⟩ := by
  have hboth : (slice' ++ behind').map Char.toLower = (slice ++ behind).map Char.toLower := by
    rw [List.map_append, hslice, hbehind, List.map_append]
  rcases first?_eq_some_iff.1 h with h | ⟨hkeyword, h | ⟨hsymbol, h | ⟨-, h | ⟨-, h⟩⟩⟩⟩
  · exact first?_eq_some_iff.2 (.inl ((keyword?_recased hboth).trans h))
  · exact first?_eq_some_iff.2 (.inr ⟨(keyword?_recased hboth).trans hkeyword,
      .inl ((symbol?_recased hboth).trans h)⟩)
  · -- a string is kept, and its closing quote still closes it
    obtain ⟨⟨cs, width⟩, hread, heq⟩ := Option.map_eq_some_iff.1 h
    cases heq
    obtain ⟨hform, hend⟩ := eq_enclose_of_read? hread
    rw [hquoted rfl, hform]
    exact first?_quotedText cs (head?_ne_of_map_toLower hbehind rfl hend)
  · -- digits have no other case
    have hrule : rule .numeric (slice ++ behind) = some ⟨kind, value, slice.length⟩ := h
    obtain ⟨hdigits, hexponent⟩ := hnumber (kind_of_rule hrule)
    rw [eq_of_map_toLower_eq hslice fun c hc => isAlpha_of_isDigit (hdigits c hc)]
    exact first?_of_numeric? (numeric?_recased h hdigits hexponent hbehind)
  · unfold identifier? at h
    split at h
    · next cs width hread =>
      -- a quoted name is kept as a string is
      cases h
      obtain ⟨hform, hend⟩ := eq_enclose_of_read? hread
      have hdelimiter : (delimiter? .identifier slice).isSome = true := by
        rw [hform]
        rfl
      rw [hquoted hdelimiter, hform]
      exact first?_quotedName cs (head?_ne_of_map_toLower hbehind rfl hend)
    · exact first?_of_bareName? ((bareName?_recased hboth).trans h)
        ((keyword?_recased hboth).trans hkeyword) ((symbol?_recased hboth).trans hsymbol)

/-- Where an `e` or `E` stands, a name is read. -/
theorem kind_of_exponentLetter {c : Char} (hc : c.toLower = 'e') {x : Lexeme}
    (h : first? (c :: text) = some x) : x.kind = .identifier := by
  have halpha : c.isAlpha = true := by
    rw [← isAlpha_toLower, hc]
    rfl
  obtain ⟨hstring, hnumeric, -⟩ := eq_none_of_isAlpha halpha text
  -- no reserved word begins with this letter
  have hkeyword : keyword? (c :: text) = none := by
    have hnone : agreeing 'e' ((Keyword.all.map Keyword.spelling).map fun k => (k, k.toList)) = [] := by
      decide +kernel
    rw [keyword?, longestMatch, longestPending, hc, hnone]
    exact congrArg (Option.map _) (longestPending_nil _ none text)
  have hsymbol : symbol? (c :: text) = none :=
    symbol?_eq_none (fun s => by rw [hc]; cases s <;> decide) text
  rcases first?_eq_some_iff.1 h with h | ⟨-, h | ⟨-, h | ⟨-, h | ⟨-, h⟩⟩⟩⟩
  · simp [hkeyword] at h
  · simp [hsymbol] at h
  · simp [hstring] at h
  · simp [hnumeric] at h
  · have hrule : rule .identifier (c :: text) = some x := h
    exact kind_of_rule hrule

end Lexeme

/-! ## Readings and tokens -/

/-- The slice of a token that is read spells it. -/
theorem Piece.ReadAt.spells {loc : Location} {slice behind : List Char} {t : Token}
    (h : (Piece.lexeme slice t).ReadAt loc behind) :
    Lexeme.Spells ⟨t.kind, t.value, slice.length⟩ slice := by
  obtain ⟨-, -, -, -, hfirst⟩ := h
  obtain ⟨slice', behind', htext, hspells⟩ := Lexeme.first?_spells hfirst
  obtain ⟨rfl, -⟩ := List.append_inj htext hspells.width
  exact hspells

/-- A lexeme in front of what stands behind it is read there. -/
theorem Piece.readAt_of_first? {loc : Location} {slice behind : List Char} {t : Token}
    (hloc : t.loc = loc)
    (hfirst : Lexeme.first? (slice ++ behind) = some ⟨t.kind, t.value, slice.length⟩) :
    (Piece.lexeme slice t).ReadAt loc behind := by
  obtain ⟨slice', behind', htext, hspells⟩ := Lexeme.first?_spells hfirst
  obtain ⟨rfl, -⟩ := List.append_inj htext hspells.width
  subst hloc
  exact Piece.readAt_lexeme hspells hfirst t.loc

namespace TokenStream

/-- Nothing is left at the end of a text. -/
theorem ofLexer_nil (loc : Location) (last : Option String) :
    ofLexer ⟨[], loc, last⟩ = ⟨[], none⟩ := by
  have hnext : (Lexer.mk [] loc last).next = (none, ⟨[], loc, last⟩) := rfl
  exact ofLexer_of_none hnext

/-- A blank is passed over. -/
theorem ofLexer_blank {c : Char} (h : IsBlank c) (text : List Char) (before : List Piece)
    (last : Option String) : ofLexer ⟨c :: text, placeAfter before, last⟩
      = ofLexer ⟨text, placeAfter (before ++ [.blank c]), last⟩ := by
  apply ofLexer_congr
  rw [Lexer.next, Lexer.nextFrom]
  simp only [afterBlank?_placeAfter before h]
  rfl

/-- A token is read from any slice that has its lexeme, and what stands behind it is read from there on. -/
theorem ofLexer_lexeme {before : List Piece} {slice slice' behind text : List Char} {t : Token}
    (h : (Piece.lexeme slice t).ReadAt (placeAfter before) behind)
    (hlength : slice'.length = slice.length)
    (hfirst : Lexeme.first? (slice' ++ text) = some ⟨t.kind, t.value, slice.length⟩)
    (last : Option String) : ∃ last', ofLexer ⟨slice' ++ text, placeAfter before, last⟩
      = ⟨t :: (ofLexer ⟨text, placeAfter (before ++ [.lexeme slice t]), last'⟩).tokens,
          (ofLexer ⟨text, placeAfter (before ++ [.lexeme slice t]), last'⟩).fault⟩ := by
  have hplace : (placeAfter before).right slice'.length
      = placeAfter (before ++ [.lexeme slice t]) := by
    rw [hlength]
    exact (placeAfter_lexeme before h.spells t.loc).symm
  rw [← hlength] at hfirst
  have hnext : (Lexer.mk (slice' ++ text) (placeAfter before) last).next = _ :=
    Lexer.nextFrom_front hfirst last (placeAfter before)
  refine ⟨some t.value, ?_⟩
  rw [ofLexer_of_token hnext, hplace, ← h.2.1]

end TokenStream

/-- Pieces are read where they stand if each of them is. -/
theorem ReadFrom.of_readAt {rest : List Char} {pieces earlier : List Piece}
    (h : ∀ before piece after, pieces = before ++ piece :: after →
      piece.ReadAt (placeAfter (earlier ++ before)) (charsOf after ++ rest)) :
    ReadFrom rest earlier pieces := by
  induction pieces generalizing earlier with
  | nil => exact trivial
  | cons piece pieces ih =>
    have hfirst := h [] piece pieces rfl
    rw [List.append_nil] at hfirst
    refine ⟨hfirst, ih fun before next after hpieces => ?_⟩
    rw [List.append_assoc]
    exact h (piece :: before) next after (congrArg (piece :: ·) hpieces)

/-- Pieces that are read to the end of a text have all its tokens. -/
theorem ReadFrom.ofLexer {before pieces : List Piece} (h : ReadFrom [] before pieces)
    (last : Option String) :
    TokenStream.ofLexer ⟨charsOf pieces, placeAfter before, last⟩ = ⟨tokensOf pieces, none⟩ := by
  induction pieces generalizing before last with
  | nil => exact TokenStream.ofLexer_nil _ last
  | cons piece pieces ih =>
    cases piece with
    | blank c => exact (TokenStream.ofLexer_blank h.1 _ before last).trans (ih h.2 last)
    | lexeme slice t =>
      have hfirst := h.1.2.2.2.2
      rw [List.append_nil] at hfirst
      obtain ⟨last', hread⟩ := TokenStream.ofLexer_lexeme h.1 rfl hfirst last
      rw [ih h.2 last'] at hread
      exact hread

/-- A text that is read in pieces to its end has their tokens. -/
theorem Reading.tokenize {text : String} {pieces : List Piece} (h : Reading text.toList pieces []) :
    tokenize text = .ok (tokensOf pieces) := by
  have hread : ReadFrom [] [] pieces := .of_readAt h.readAt
  have htext : Lexer.ofText text = ⟨charsOf pieces, placeAfter [], none⟩ := by
    rw [Lexer.ofText, h.concat, List.append_nil]
    rfl
  rw [tokenize_eq_ok_iff, TokenStream.ofText, htext, hread.ofLexer]

/-! ## Tokens in either case -/

/-- Whether two tokens that stand one behind the other are no number and name. -/
def Token.Apart (t next : Token) : Prop := t.kind = .numeric → next.kind ≠ .identifier

/-- Whether all numbers among tokens are digits only and none stands directly in front of a name. -/
structure PlainNumbers (ts : List Token) : Prop where
  digits : ∀ t ∈ ts, t.kind = .numeric → ∀ c ∈ t.value.toList, c.isDigit = true
  apart : ts.IsChain Token.Apart

/-- The numbers behind a token are plain if all of them are. -/
theorem PlainNumbers.of_cons {t : Token} {ts : List Token} (h : PlainNumbers (t :: ts)) :
    PlainNumbers ts where
  digits u hu := h.digits u (List.mem_cons_of_mem t hu)
  apart := (List.isChain_cons.1 h.apart).2

/-- Where pieces begin with an `e` or `E`, the first token is a name. -/
theorem ReadFrom.kind_of_exponentLetter {before pieces : List Piece} (h : ReadFrom [] before pieces)
    {c : Char} (hhead : c ∈ (charsOf pieces ++ []).head?) (hc : c.toLower = 'e') :
    ∃ t ∈ (tokensOf pieces).head?, t.kind = .identifier := by
  cases pieces with
  | nil => cases hhead
  | cons piece pieces =>
    cases piece with
    | blank d =>
      obtain rfl := Option.some.inj hhead
      rcases h.1 with rfl | rfl | rfl <;> exact absurd hc (by decide)
    | lexeme slice t =>
      obtain ⟨hne, -, -, -, hfirst⟩ := h.1
      obtain ⟨d, slice, rfl⟩ := List.exists_cons_of_ne_nil hne
      obtain rfl := Option.some.inj hhead
      exact ⟨t, rfl, Lexeme.kind_of_exponentLetter hc hfirst⟩

/-- Pieces whose numbers are plain are read as the same tokens, at the same places and to the end, when
letters outside quotes change their case. -/
theorem Recased.ofLexer {pieces : List Piece} {text : List Char} (h : Recased pieces text)
    {before : List Piece} (hread : ReadFrom [] before pieces)
    (hnumbers : PlainNumbers (tokensOf pieces)) (last : Option String) :
    TokenStream.ofLexer ⟨text, placeAfter before, last⟩ = ⟨tokensOf pieces, none⟩ := by
  -- induction on the pieces, each of them read behind those before it
  induction h generalizing before last with
  | nil => exact TokenStream.ofLexer_nil _ last
  | blank c hrest ih =>
    exact (TokenStream.ofLexer_blank hread.1 _ before last).trans (ih hread.2 hnumbers last)
  | @lexeme slice slice' t pieces text hcase hquoted hrest ih =>
    obtain ⟨-, -, hvalue, -, hfirst⟩ := hread.1
    have htokens : tokensOf (.lexeme slice t :: pieces) = t :: tokensOf pieces := rfl
    rw [htokens] at hnumbers ⊢
    have hlength : slice'.length = slice.length := by
      rw [← List.length_map Char.toLower, hcase, List.length_map]
    have hbehind := hrest.map_toLower
    rw [← List.append_nil (charsOf pieces)] at hbehind
    -- behind a number no name stands, so no `e` in either case
    have hnumber : t.kind = .numeric → (∀ c ∈ slice, c.isDigit = true) ∧
        ∀ c ∈ (charsOf pieces ++ []).head?, c.toLower ≠ 'e' := by
      intro hkind
      refine ⟨fun c hc => hnumbers.digits t List.mem_cons_self hkind c ?_, fun c hc hletter => ?_⟩
      · rw [hvalue, hkind]
        exact String.toList_ofList.symm ▸ hc
      · obtain ⟨next, hnext, hname⟩ := hread.2.kind_of_exponentLetter hc hletter
        exact (List.isChain_cons.1 hnumbers.apart).1 next hnext hkind hname
    have hlexeme := Lexeme.first?_recased hfirst hcase hquoted hbehind hnumber
    obtain ⟨last', hstream⟩ := TokenStream.ofLexer_lexeme hread.1 hlength hlexeme last
    rw [hstream, ih hread.2 hnumbers.of_cons last']

/-- Whether a text is another one with letters in either case, those in quoted strings and quoted names of
the other one excepted. -/
def RecasedText (a b : String) : Prop :=
  ∃ pieces, Reading a.toList pieces [] ∧ Recased pieces b.toList

/-- A text whose numbers are plain has the same tokens in either case. -/
theorem RecasedText.tokenize {a b : String} (h : RecasedText a b) {ts : List Token}
    (ha : tokenize a = .ok ts) (hnumbers : PlainNumbers ts) : SqlStore.tokenize b = .ok ts := by
  obtain ⟨pieces, hread, hrecased⟩ := h
  obtain rfl : tokensOf pieces = ts := Except.ok.inj (hread.tokenize.symm.trans ha)
  have hfrom : ReadFrom [] [] pieces := .of_readAt hread.readAt
  exact tokenize_eq_ok_iff.2 (hrecased.ofLexer hfrom hnumbers none)

end SqlStore
