import SqlStore.Proofs.Token.Slice
import SqlStore.Token.Stream

/-! # A text in pieces

A text is read from the front, one piece after another:

* **`Piece`** — a blank, or the slice of one token;
* **`placeAfter`** — the place behind pieces: the number of newlines outside quotes and the number of
  characters after the last of them;
* **`Reading text pieces rest`** — the pieces stand one after the other at the front of the text, each of
  them what is read where it stands, and `rest` is what is left;
* **`Lexer.answer`** — the answer to each call of a lexer;
* **`Lexer.ofText_reading`** — every text is read in pieces, to its end or up to where no piece starts,
  and the answers are the tokens of the pieces and then, in the second case, the fault. -/

namespace SqlStore

/-! ## Pieces and places -/

/-- A part of a text that is read at once. -/
inductive Piece where
  /-- A character between tokens. -/
  | blank (c : Char)
  /-- The characters of a token. -/
  | lexeme (slice : List Char) (token : Token)
  deriving DecidableEq, Repr

namespace Piece

/-- The characters of a piece. -/
def chars : Piece → List Char
  | .blank c => [c]
  | .lexeme slice _ => slice

/-- The token of a piece; blanks have none. -/
def token? : Piece → Option Token
  | .blank _ => none
  | .lexeme _ t => some t

/-- Whether each character of a piece is a newline outside quotes. -/
def breaks : Piece → List Bool
  | .blank c => [c == '\n']
  | .lexeme slice t =>
    slice.map fun c => c == '\n' && (Lexeme.delimiter? t.kind slice).isNone

end Piece

/-- The characters of pieces. -/
def charsOf (pieces : List Piece) : List Char := pieces.flatMap Piece.chars

/-- The tokens of pieces. -/
def tokensOf (pieces : List Piece) : List Token := pieces.filterMap Piece.token?

/-- The value of the last token of pieces. -/
def lastValue (pieces : List Piece) : Option String := (tokensOf pieces).getLast?.map Token.value

/-- The place behind pieces from the start of a text: in the line with the number of newlines outside
quotes, and in the column with the number of characters after the last of them. -/
def placeAfter (pieces : List Piece) : Location where
  line := (pieces.flatMap Piece.breaks).count true
  column := ((pieces.flatMap Piece.breaks).reverse.takeWhile fun newline => !newline).length

/-- Behind a newline outside quotes a line starts. -/
theorem placeAfter_newline (before : List Piece) :
    placeAfter (before ++ [.blank '\n']) = (placeAfter before).nextLine := by
  simp [placeAfter, Piece.breaks, Location.nextLine]

/-- A piece without a newline outside quotes moves the place to the right. -/
theorem placeAfter_right (before : List Piece) {piece : Piece} {width : Nat}
    (h : piece.breaks = List.replicate width false) :
    placeAfter (before ++ [piece]) = (placeAfter before).right width := by
  have hall : ∀ newline ∈ List.replicate width false, (!newline) = true := by
    intro newline hmem
    rw [List.eq_of_mem_replicate hmem]
    rfl
  simp only [placeAfter, List.flatMap_append, List.flatMap_singleton, h, Location.right,
    Location.mk.injEq]
  -- no newline is added, and the run behind the last one grows by `width`
  constructor
  · rw [List.count_append, List.count_replicate]
    rfl
  · rw [List.reverse_append, List.reverse_replicate, List.takeWhile_append_of_pos hall,
      List.length_append, List.length_replicate, Nat.add_comm]

/-- A blank other than a newline takes up one column. -/
theorem placeAfter_blank (before : List Piece) {c : Char} (h : c ≠ '\n') :
    placeAfter (before ++ [.blank c]) = (placeAfter before).right 1 := by
  apply placeAfter_right
  rw [Piece.breaks, beq_eq_false_iff_ne.2 h]
  rfl

/-- A token takes up as many columns as its slice has characters, newlines in quotes included. -/
theorem placeAfter_lexeme (before : List Piece) {x : Lexeme} {slice : List Char} (h : x.Spells slice)
    (loc : Location) : placeAfter (before ++ [.lexeme slice ⟨x.kind, x.value, loc⟩])
      = (placeAfter before).right slice.length := by
  apply placeAfter_right
  rw [Piece.breaks, List.eq_replicate_iff]
  refine ⟨List.length_map _, ?_⟩
  intro newline hmem
  obtain ⟨c, hc, rfl⟩ := List.mem_map.1 hmem
  cases hdelimiter : Lexeme.delimiter? x.kind slice with
  | some q => simp
  | none =>
    -- outside quotes no lexeme has a newline
    have hne : c ≠ '\n' := by
      rintro rfl
      exact h.newline hdelimiter hc
    simp [hne]

/-! ## What is read where -/

/-- Whether a character is a blank between tokens. -/
def IsBlank (c : Char) : Prop := c = ' ' ∨ c = '\t' ∨ c = '\n'

/-- Whether a piece is what is read at a place in front of the given characters: a blank, or a token
that stands there, that is not empty, and whose value is determined by its slice. -/
def Piece.ReadAt (loc : Location) (behind : List Char) : Piece → Prop
  | .blank c => IsBlank c
  | .lexeme slice t =>
    slice ≠ [] ∧ t.loc = loc ∧ t.value = Lexeme.valueOf t.kind slice ∧
      (∀ q ∈ Lexeme.delimiter? t.kind slice, ∃ inner, slice = q :: (inner ++ [q])) ∧
      Lexeme.first? (slice ++ behind) = some ⟨t.kind, t.value, slice.length⟩

/-- A lexeme in front of what is behind it is read where it stands. -/
theorem Piece.readAt_lexeme {x : Lexeme} {slice behind : List Char} (h : x.Spells slice)
    (hfirst : Lexeme.first? (slice ++ behind) = some x) (loc : Location) :
    (Piece.lexeme slice ⟨x.kind, x.value, loc⟩).ReadAt loc behind := by
  have hne : slice ≠ [] := by
    have hwidth : 0 < x.width := Lexeme.first?_width_pos hfirst
    rw [h.width] at hwidth
    exact List.ne_nil_of_length_pos hwidth
  refine ⟨hne, rfl, h.value, h.delimited, ?_⟩
  rw [hfirst, ← h.width]

/-- No piece starts where neither a blank nor a lexeme does. -/
def NoPiece (text : List Char) : Prop :=
  text ≠ [] ∧ (∀ c ∈ text.head?, ¬ IsBlank c) ∧ Lexeme.first? text = none

/-- Pieces stand at the front of a text without gaps, and each is what is read where it stands. -/
structure Reading (text : List Char) (pieces : List Piece) (rest : List Char) : Prop where
  concat : text = charsOf pieces ++ rest
  readAt : ∀ before piece after, pieces = before ++ piece :: after →
    piece.ReadAt (placeAfter before) (charsOf after ++ rest)

/-- Whether pieces are what is read behind earlier pieces and in front of the given characters. -/
def ReadFrom (rest : List Char) : List Piece → List Piece → Prop
  | _, [] => True
  | before, piece :: after =>
    piece.ReadAt (placeAfter before) (charsOf after ++ rest) ∧ ReadFrom rest (before ++ [piece]) after

/-- Pieces that are read one after the other are each read where they stand. -/
theorem ReadFrom.readAt {rest : List Char} {pieces earlier : List Piece}
    (h : ReadFrom rest earlier pieces) {before : List Piece} {piece : Piece} {after : List Piece}
    (hpieces : pieces = before ++ piece :: after) :
    piece.ReadAt (placeAfter (earlier ++ before)) (charsOf after ++ rest) := by
  -- the pieces passed over join those read earlier
  induction before generalizing pieces earlier with
  | nil =>
    subst hpieces
    rw [List.append_nil]
    exact h.1
  | cons first before ih =>
    subst hpieces
    have hbehind := ih h.2 rfl
    rwa [List.append_assoc] at hbehind

/-- Blanks may be read before other pieces. -/
theorem ReadFrom.blanks {rest : List Char} {earlier pieces : List Piece} {cs : List Char}
    (hcs : ∀ c ∈ cs, IsBlank c) (h : ReadFrom rest (earlier ++ cs.map .blank) pieces) :
    ReadFrom rest earlier (cs.map .blank ++ pieces) := by
  induction cs generalizing earlier with
  | nil => rwa [List.map_nil, List.append_nil] at h
  | cons c cs ih =>
    refine ⟨hcs c List.mem_cons_self, ih (fun d hd => hcs d (List.mem_cons_of_mem c hd)) ?_⟩
    rwa [List.append_assoc]

/-! ## One call of a lexer -/

/-- The place behind a blank is where the blank ends. -/
theorem afterBlank?_placeAfter (before : List Piece) {c : Char} (h : IsBlank c) :
    (placeAfter before).afterBlank? c = some (placeAfter (before ++ [.blank c])) := by
  rcases h with rfl | rfl | rfl
  · rw [placeAfter_blank before (by decide)]
    rfl
  · rw [placeAfter_blank before (by decide)]
    rfl
  · rw [placeAfter_newline before]
    rfl

/-- Behind a character that is no blank the place is not that of a blank. -/
theorem afterBlank?_eq_none (loc : Location) {c : Char} (h : ¬ IsBlank c) :
    loc.afterBlank? c = none := by
  rw [IsBlank, not_or, not_or] at h
  rw [Location.afterBlank?, if_neg h.2.2, if_neg (not_or.2 ⟨h.1, h.2.1⟩)]

instance : DecidablePred IsBlank := fun c =>
  inferInstanceAs (Decidable (c = ' ' ∨ c = '\t' ∨ c = '\n'))

namespace Lexer

variable {last : Option String} {loc : Location}

/-- Blanks are passed over. -/
theorem nextFrom_blanks (last : Option String) (before : List Piece) (text : List Char) :
    ∃ cs rest, (∀ c ∈ cs, IsBlank c) ∧ text = cs ++ rest ∧ (∀ c ∈ rest.head?, ¬ IsBlank c) ∧
      nextFrom last (placeAfter before) text
        = nextFrom last (placeAfter (before ++ cs.map .blank)) rest := by
  -- induction on the text; a blank that is passed over is one more piece
  induction text generalizing before with
  | nil => exact ⟨[], [], by simp, rfl, by simp, by simp⟩
  | cons c text ih =>
    by_cases hc : IsBlank c
    · obtain ⟨cs, rest, hcs, rfl, hrest, hnext⟩ := ih (before ++ [.blank c])
      refine ⟨c :: cs, rest, List.forall_mem_cons.2 ⟨hc, hcs⟩, rfl, hrest, ?_⟩
      rw [nextFrom]
      simp only [afterBlank?_placeAfter before hc]
      rw [hnext, List.append_assoc]
      rfl
    · refine ⟨[], c :: text, by simp, rfl, ?_, by simp⟩
      intro d hd
      obtain rfl := Option.some.inj hd
      exact hc

/-- Where a lexeme starts, it is read. -/
theorem nextFrom_lexeme {text : List Char} {x : Lexeme} (hblank : ∀ c ∈ text.head?, ¬ IsBlank c)
    (h : Lexeme.first? text = some x) :
    nextFrom last loc text = (some (.ok ⟨x.kind, x.value, loc⟩),
      ⟨text.drop x.width, loc.right x.width, some x.value⟩) := by
  cases text with
  | nil => cases h
  | cons c rest =>
    rw [nextFrom]
    simp only [afterBlank?_eq_none loc (hblank c rfl), h]

/-- Where no piece starts, that is the fault. -/
theorem nextFrom_noPiece {text : List Char} (h : NoPiece text) :
    nextFrom last loc text = (some (.error ⟨loc, last⟩), ⟨[], loc, last⟩) := by
  obtain ⟨hne, hblank, hfirst⟩ := h
  cases text with
  | nil => exact absurd rfl hne
  | cons c rest =>
    rw [nextFrom]
    simp only [afterBlank?_eq_none loc (hblank c rfl), hfirst]

/-- A call of a lexer that stands behind pieces reads blanks up to the end of the text, up to a place
where no piece starts, or up to a token that it reads too. -/
theorem next_cases {l : Lexer} {before : List Piece} (hloc : l.loc = placeAfter before) :
    ∃ cs rest, (∀ c ∈ cs, IsBlank c) ∧ l.text = cs ++ rest ∧
      (rest = [] ∧ l.next = (none, ⟨[], placeAfter (before ++ cs.map .blank), l.last⟩) ∨
        NoPiece rest ∧ l.next = (some (.error ⟨placeAfter (before ++ cs.map .blank), l.last⟩),
          ⟨[], placeAfter (before ++ cs.map .blank), l.last⟩) ∨
        ∃ (x : Lexeme) (slice behind : List Char), rest = slice ++ behind ∧ x.Spells slice ∧
          Lexeme.first? rest = some x ∧
          l.next = (some (.ok ⟨x.kind, x.value, placeAfter (before ++ cs.map .blank)⟩),
            ⟨behind, (placeAfter (before ++ cs.map .blank)).right slice.length, some x.value⟩)) := by
  obtain ⟨cs, rest, hcs, htext, hrest, hnext⟩ := nextFrom_blanks l.last before l.text
  refine ⟨cs, rest, hcs, htext, ?_⟩
  rw [next, hloc, hnext]
  cases hfirst : Lexeme.first? rest with
  | none =>
    by_cases hempty : rest = []
    · subst hempty
      exact .inl ⟨rfl, rfl⟩
    · have hnone : NoPiece rest := ⟨hempty, hrest, hfirst⟩
      exact .inr (.inl ⟨hnone, nextFrom_noPiece hnone⟩)
  | some x =>
    obtain ⟨slice, behind, rfl, hspells⟩ := Lexeme.first?_spells hfirst
    refine .inr (.inr ⟨x, slice, behind, rfl, hspells, rfl, ?_⟩)
    rw [nextFrom_lexeme hrest hfirst, hspells.width, List.drop_left]

end Lexer

/-! ## All calls of a lexer -/

namespace TokenStream

/-- At the end of the text there are no tokens. -/
theorem ofLexer_of_none {l l' : Lexer} (h : l.next = (none, l')) : ofLexer l = ⟨[], none⟩ := by
  rw [ofLexer]
  split
  · rfl
  · next h' => rw [h] at h'; cases h'
  · next h' => rw [h] at h'; cases h'

/-- A fault ends the tokens. -/
theorem ofLexer_of_error {l l' : Lexer} {e : LexError} (h : l.next = (some (.error e), l')) :
    ofLexer l = ⟨[], some e⟩ := by
  rw [ofLexer]
  split
  · next h' => rw [h] at h'; cases h'
  · next h' => rw [h] at h'; cases h'; rfl
  · next h' => rw [h] at h'; cases h'

/-- A token stands in front of what is read behind it. -/
theorem ofLexer_of_token {l l' : Lexer} {t : Token} (h : l.next = (some (.ok t), l')) :
    ofLexer l = ⟨t :: (ofLexer l').tokens, (ofLexer l').fault⟩ := by
  rw [ofLexer]
  split
  · next h' => rw [h] at h'; cases h'
  · next h' => rw [h] at h'; cases h'
  · next h' => rw [h] at h'; cases h'; rfl

/-- Lexers that go on in the same way read the same. -/
theorem ofLexer_congr {l l' : Lexer} (h : l.next = l'.next) : ofLexer l = ofLexer l' := by
  rcases hnext : l'.next with ⟨_ | e | t, after⟩ <;> rw [hnext] at h
  · rw [ofLexer_of_none h, ofLexer_of_none hnext]
  · rw [ofLexer_of_error h, ofLexer_of_error hnext]
  · rw [ofLexer_of_token h, ofLexer_of_token hnext]

/-- What a lexer reads in a bounded number of calls. -/
def upTo : Nat → Lexer → TokenStream
  | 0, _ => ⟨[], none⟩
  | n + 1, l =>
    match l.next with
    | (none, _) => ⟨[], none⟩
    | (some (.error e), _) => ⟨[], some e⟩
    | (some (.ok t), l') =>
      match upTo n l' with
      | ⟨tokens, fault⟩ => ⟨t :: tokens, fault⟩

/-- More calls than there are characters read everything. -/
theorem ofLexer_eq_upTo {n : Nat} {l : Lexer} (h : l.text.length < n) : ofLexer l = upTo n l := by
  induction n generalizing l with
  | zero => exact absurd h (Nat.not_lt_zero _)
  | succ n ih =>
    rw [upTo]
    split
    · next hnext => exact ofLexer_of_none hnext
    · next hnext => exact ofLexer_of_error hnext
    · next hnext =>
      rw [ofLexer_of_token hnext, ih (by have := Lexer.length_next_lt hnext; omega)]

end TokenStream

/-- The fault at which reading stops behind pieces. -/
def faultAfter (pieces : List Piece) : LexError := ⟨placeAfter pieces, lastValue pieces⟩

/-- What ends the reading of a text behind pieces: its end, or a place where no piece starts. -/
def EndsWith (pieces : List Piece) (rest : List Char) (fault : Option LexError) : Prop :=
  rest = [] ∧ fault = none ∨ NoPiece rest ∧ fault = some (faultAfter pieces)

/-- The characters of blanks are the blanks. -/
theorem charsOf_blanks (cs : List Char) : charsOf (cs.map .blank) = cs := by
  rw [charsOf, List.flatMap_map]
  exact List.flatMap_singleton' cs

/-- The characters of pieces stand one after the other. -/
theorem charsOf_append (pieces others : List Piece) :
    charsOf (pieces ++ others) = charsOf pieces ++ charsOf others :=
  List.flatMap_append

/-- Blanks have no tokens. -/
theorem tokensOf_blanks (cs : List Char) : tokensOf (cs.map .blank) = [] := by
  rw [tokensOf, List.filterMap_map, List.filterMap_eq_nil_iff]
  exact fun _ _ => rfl

/-- The tokens of pieces stand one after the other. -/
theorem tokensOf_append (pieces others : List Piece) :
    tokensOf (pieces ++ others) = tokensOf pieces ++ tokensOf others :=
  List.filterMap_append

/-- Blanks keep the last value. -/
theorem lastValue_blanks (before : List Piece) (cs : List Char) :
    lastValue (before ++ cs.map .blank) = lastValue before := by
  rw [lastValue, tokensOf_append, tokensOf_blanks, List.append_nil, lastValue]

/-- The last value behind a token is its value. -/
theorem lastValue_lexeme (before : List Piece) (slice : List Char) (t : Token) :
    lastValue (before ++ [.lexeme slice t]) = some t.value := by
  have htoken : tokensOf [.lexeme slice t] = [t] := rfl
  rw [lastValue, tokensOf_append, htoken, List.getLast?_concat, Option.map_some]

/-- A lexer that stands behind pieces reads further pieces up to the end or a fault. -/
theorem TokenStream.ofLexer_pieces (l : Lexer) (before : List Piece)
    (hloc : l.loc = placeAfter before) (hlast : l.last = lastValue before) :
    ∃ pieces rest fault, l.text = charsOf pieces ++ rest ∧ ReadFrom rest before pieces ∧
      ofLexer l = ⟨tokensOf pieces, fault⟩ ∧ EndsWith (before ++ pieces) rest fault := by
  -- induction on the length of what is left: every token makes it shorter
  induction hlength : l.text.length using Nat.strongRecOn generalizing l before with
  | ind n ih =>
    obtain ⟨cs, rest, hcs, htext, hcases⟩ := Lexer.next_cases hloc
    have hblanks : ReadFrom rest before (cs.map .blank) := by
      have hread : ReadFrom rest before (cs.map .blank ++ []) := .blanks hcs trivial
      rwa [List.append_nil] at hread
    rcases hcases with ⟨rfl, hnext⟩ | ⟨hnone, hnext⟩ |
      ⟨x, slice, behind, rfl, hspells, hfirst, hnext⟩
    -- the end, a place where no piece starts, or a token
    · refine ⟨cs.map .blank, [], none, ?_, hblanks, ?_, .inl ⟨rfl, rfl⟩⟩
      · rw [charsOf_blanks, htext]
      · rw [ofLexer_of_none hnext, tokensOf_blanks]
    · have hfault : faultAfter (before ++ cs.map .blank)
          = ⟨placeAfter (before ++ cs.map .blank), l.last⟩ := by
        rw [faultAfter, lastValue_blanks, hlast]
      refine ⟨cs.map .blank, rest, _, ?_, hblanks, ?_, .inr ⟨hnone, rfl⟩⟩
      · rw [charsOf_blanks, htext]
      · rw [ofLexer_of_error hnext, tokensOf_blanks, hfault]
    · -- the token is one more piece, and the lexer behind it goes on from there
      let t : Token := ⟨x.kind, x.value, placeAfter (before ++ cs.map .blank)⟩
      have hshorter := Lexer.length_next_lt hnext
      have hplace : (placeAfter (before ++ cs.map .blank)).right slice.length
          = placeAfter (before ++ cs.map .blank ++ [.lexeme slice t]) :=
        (placeAfter_lexeme _ hspells _).symm
      have hvalue : some x.value = lastValue (before ++ cs.map .blank ++ [.lexeme slice t]) :=
        (lastValue_lexeme _ slice t).symm
      obtain ⟨pieces, rest, fault, hbehind, hread, hstream, hends⟩ :=
        ih _ (hlength ▸ hshorter) _ _ hplace hvalue rfl
      obtain rfl : behind = charsOf pieces ++ rest := hbehind
      refine ⟨cs.map .blank ++ .lexeme slice t :: pieces, rest, fault, ?_, ?_, ?_, ?_⟩
      · have hchars : charsOf (.lexeme slice t :: pieces) = slice ++ charsOf pieces := rfl
        rw [charsOf_append, charsOf_blanks, hchars, List.append_assoc, List.append_assoc, htext]
      · exact .blanks hcs ⟨Piece.readAt_lexeme hspells hfirst _, hread⟩
      · rw [ofLexer_of_token hnext, hstream, tokensOf_append, tokensOf_blanks]
        rfl
      · rwa [List.append_assoc, List.append_assoc] at hends

/-! ## Whole texts -/

/-- The answer to a call of a lexer, the calls counted from zero. -/
def Lexer.answer (l : Lexer) : Nat → Option (Except LexError Token)
  | 0 => l.next.1
  | n + 1 => l.next.2.answer n

/-- The answers that a stream stands for: its tokens, and the fault behind them if there is one. -/
def TokenStream.answers (s : TokenStream) : List (Except LexError Token) :=
  s.tokens.map .ok ++ s.fault.toList.map .error

/-- At the end of the text there are no more answers. -/
theorem Lexer.answer_of_text_nil {l : Lexer} (h : l.text = []) (n : Nat) : l.answer n = none := by
  have hnext : l.next = (none, ⟨[], l.loc, l.last⟩) := by
    rw [next, h]
    rfl
  induction n generalizing l with
  | zero => rw [answer, hnext]
  | succ n ih =>
    rw [answer, hnext]
    exact ih rfl rfl

/-- Where no token is read, nothing is left to read. -/
theorem Lexer.text_of_nextFrom {last : Option String} {loc : Location} {text : List Char} {l' : Lexer}
    {answer? : Option (Except LexError Token)} (h : nextFrom last loc text = (answer?, l'))
    (hnone : ∀ t, answer? ≠ some (.ok t)) : l'.text = [] := by
  induction text generalizing loc with
  | nil =>
    cases h
    rfl
  | cons c rest ih =>
    rw [nextFrom] at h
    split at h
    · exact ih h
    · split at h
      · cases h
        exact absurd rfl (hnone _)
      · cases h
        rfl

/-- The answers of a lexer are those of the stream of its tokens, and none after them. -/
theorem Lexer.answer_eq (l : Lexer) (n : Nat) :
    l.answer n = (TokenStream.ofLexer l).answers[n]? := by
  induction n generalizing l with
  | zero =>
    rcases hnext : l.next with ⟨_ | e | t, l'⟩
    · rw [TokenStream.ofLexer_of_none hnext, answer, hnext]
      rfl
    · rw [TokenStream.ofLexer_of_error hnext, answer, hnext]
      rfl
    · rw [TokenStream.ofLexer_of_token hnext, answer, hnext]
      rfl
  | succ n ih =>
    -- behind the end and behind a fault nothing is left to read
    rcases hnext : l.next with ⟨_ | e | t, l'⟩
    · have hdone : l'.text = [] := text_of_nextFrom hnext (by simp)
      rw [TokenStream.ofLexer_of_none hnext, answer, hnext, answer_of_text_nil hdone]
      rfl
    · have hdone : l'.text = [] := text_of_nextFrom hnext (by simp)
      rw [TokenStream.ofLexer_of_error hnext, answer, hnext, answer_of_text_nil hdone]
      rfl
    · rw [TokenStream.ofLexer_of_token hnext, answer, hnext, ih]
      rfl

/-- A text has tokens if no fault ends them. -/
theorem tokenize_eq_ok_iff {text : String} {ts : List Token} :
    tokenize text = .ok ts ↔ TokenStream.ofText text = ⟨ts, none⟩ := by
  unfold tokenize
  obtain ⟨tokens, fault⟩ := TokenStream.ofText text
  cases fault with
  | none => simp
  | some e => simp

/-- Every text is read in pieces that stand at its front without gaps, each a blank or the slice of one
token. Either they are the whole text, or they go up to the first place where no piece starts; that is
the fault, at this place and with the value of the last token as a hint. The calls of the lexer answer
with the tokens in order, then with the fault if there is one, and then with nothing. -/
theorem Lexer.ofText_reading (text : String) :
    ∃ pieces rest fault, Reading text.toList pieces rest ∧ EndsWith pieces rest fault ∧
      (∀ n, (ofText text).answer n
        = ((tokensOf pieces).map Except.ok ++ fault.toList.map Except.error)[n]?) ∧
      tokenize text = match fault with
        | none => .ok (tokensOf pieces)
        | some e => .error e := by
  obtain ⟨pieces, rest, fault, htext, hread, hstream, hends⟩ :=
    TokenStream.ofLexer_pieces (ofText text) [] rfl rfl
  refine ⟨pieces, rest, fault, ⟨htext, fun before piece after hpieces => hread.readAt hpieces⟩,
    hends, ?_, ?_⟩
  · intro n
    rw [answer_eq, hstream]
    rfl
  · rw [tokenize, TokenStream.ofText, hstream]
    cases fault with
    | none => rfl
    | some e => rfl

end SqlStore
