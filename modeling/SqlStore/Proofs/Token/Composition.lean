import SqlStore.Proofs.Token.Printing

/-! # Texts with blanks between them

A text that is read to its end is read alike if blanks and a second text follow it, and the second text is
read as it is by itself, from the place behind the blanks:

* **`endPlace`** — the place at which the reading of a text ends;
* **`Lexer.last_drained`** — a lexer keeps the value of the last token it has read;
* **`Lexer.drained_append`** — where a lexer ends if its text goes on;
* **`tokenize_append_blanks`** — the tokens of two texts with blanks between them, or their fault. -/

namespace SqlStore

/-- The place to which a lexer has come when it has read all of a text. -/
def endPlace (text : String) : Location := (Lexer.ofText text).drained.loc

namespace Lexer

/-! ## A lexer after all its calls -/

/-- A fault is the last answer of a lexer. -/
theorem drained_of_error {l l' : Lexer} {e : LexError} (h : l.next = (some (.error e), l')) :
    l.drained = l' := by
  rw [drained]
  split
  · next h' => rw [h] at h'; cases h'
  · next h' => rw [h] at h'; cases h'; rfl
  · next h' => rw [h] at h'; cases h'

/-- Lexers that go on in the same way end alike. -/
theorem drained_congr {l l' : Lexer} (h : l.next = l'.next) : l.drained = l'.drained := by
  rcases hnext : l'.next with ⟨_ | e | t, after⟩ <;> rw [hnext] at h
  · rw [drained_of_none h, drained_of_none hnext]
  · rw [drained_of_error h, drained_of_error hnext]
  · rw [drained_of_token h, drained_of_token hnext]

/-- A call keeps the value of the token it answers with, or the value kept before. -/
theorem last_nextFrom (last : Option String) (loc : Location) (text : List Char) :
    (nextFrom last loc text).2.last = match (nextFrom last loc text).1 with
      | some (.ok t) => some t.value
      | _ => last := by
  induction text generalizing loc with
  | nil => rfl
  | cons c text ih =>
    rw [nextFrom]
    cases loc.afterBlank? c with
    | some after => exact ih after
    | none => cases Lexeme.first? (c :: text) <;> rfl

/-- After all its calls a lexer has kept the value of the last token, if there was one. -/
theorem last_drained (l : Lexer) : l.drained.last
    = ((TokenStream.ofLexer l).tokens.getLast?.map Token.value).or l.last := by
  -- induction as the lexer reads; what a token leaves kept is overwritten by the tokens behind it
  fun_induction drained l with
  | case1 l l' hnext =>
    have hlast := last_nextFrom l.last l.loc l.text
    rw [← next, hnext] at hlast
    rw [TokenStream.ofLexer_of_none hnext]
    exact hlast
  | case2 l e l' hnext =>
    have hlast := last_nextFrom l.last l.loc l.text
    rw [← next, hnext] at hlast
    rw [TokenStream.ofLexer_of_error hnext]
    exact hlast
  | case3 l t l' hnext ih =>
    have hlast := last_nextFrom l.last l.loc l.text
    rw [← next, hnext] at hlast
    rw [ih, TokenStream.ofLexer_of_token hnext, hlast, List.getLast?_cons]
    cases (TokenStream.ofLexer l').tokens.getLast? <;> rfl

/-- A lexer whose text goes on behind a separator ends where one does that starts with the separator from
the place where the text ends. -/
theorem drained_append {l : Lexer} {rest : List Char} (h : (TokenStream.ofLexer l).fault = none)
    (hrest : Separated rest) : ({ l with text := l.text ++ rest } : Lexer).drained
      = ({ l.drained with text := rest } : Lexer).drained := by
  fun_induction drained l with
  | case1 l l' hnext =>
    have hend : nextFrom l.last l.loc (l.text ++ rest) = nextFrom l'.last l'.loc rest :=
      nextFrom_append hnext
    exact drained_congr hend
  | case2 l e l' hnext =>
    rw [TokenStream.ofLexer_of_error hnext] at h
    cases h
  | case3 l t l' hnext ih =>
    rw [TokenStream.ofLexer_of_token hnext] at h
    have hread : ({ l with text := l.text ++ rest } : Lexer).next
        = (some (.ok t), { l' with text := l'.text ++ rest }) := nextFrom_separated hnext hrest
    rw [drained_of_token hread, ih h]

end Lexer

/-! ## Two texts -/

/-- The hint of a fault is the value of the last token in front of it. -/
theorem TokenStream.hint_of_fault {text : String} {e : LexError} (h : (ofText text).fault = some e) :
    e.hint = (ofText text).tokens.getLast?.map Token.value := by
  obtain ⟨pieces, rest, fault, -, -, hstream, hends⟩ := ofLexer_pieces (Lexer.ofText text) [] rfl rfl
  rw [ofText, hstream] at h ⊢
  rcases hends with ⟨-, hnone⟩ | ⟨-, hfault⟩
  · rw [hnone] at h
    cases h
  · rw [hfault] at h
    cases h
    rfl

/-- A text that is read to its end, blanks, and any second text: the tokens are those of the first text
and behind them those of the second, moved on to the place behind the blanks, which moves the columns in
the first line of the second text only. If the second text has a fault it is the fault here, moved on in
the same way; its hint is its own, or the value of the last token of the first text if no token of the
second stands in front of it. -/
theorem tokenize_append_blanks {a : String} {ts : List Token} (ha : tokenize a = .ok ts)
    {gap : List Char} (hgap : IsGap gap) (b : String) :
    tokenize (a ++ String.ofList gap ++ b) = match tokenize b with
      | .ok ts' => .ok (ts ++ ts'.map (Token.moved (endPlace (a ++ String.ofList gap)).behind))
      | .error e => .error ⟨(endPlace (a ++ String.ofList gap)).behind e.loc,
          if (TokenStream.ofText b).tokens = [] then ts.getLast?.map Token.value else e.hint⟩ := by
  have hfirst : TokenStream.ofLexer (.ofText a) = ⟨ts, none⟩ := tokenize_eq_ok_iff.1 ha
  have hdone : (TokenStream.ofLexer (.ofText a)).fault = none := by rw [hfirst]
  let l := (Lexer.ofText a).drained
  have hlast : l.last = ts.getLast?.map Token.value := by
    rw [Lexer.last_drained, hfirst]
    exact Option.or_none
  obtain ⟨base, hskip⟩ := Lexer.nextFrom_skip hgap.2 l.loc
  -- the first text and the blanks end at `base`
  have hbase : endPlace (a ++ String.ofList gap) = base := by
    have hseparated : Separated gap := by
      have hfront := hgap.separated []
      rwa [List.append_nil] at hfront
    have hblanks : ({ l with text := gap } : Lexer).next = (none, ⟨[], base, l.last⟩) := by
      have hend := hskip l.last []
      rwa [List.append_nil] at hend
    have htext : Lexer.ofText (a ++ String.ofList gap)
        = { Lexer.ofText a with text := (Lexer.ofText a).text ++ gap } := by
      simp [Lexer.ofText]
    rw [endPlace, htext, Lexer.drained_append hdone hseparated, Lexer.drained_of_none hblanks]
  -- and from there the second text is read
  have hsecond : TokenStream.ofLexer { l with text := gap ++ b.toList }
      = ⟨(TokenStream.ofText b).tokens.map (Token.moved base.behind),
          (TokenStream.ofText b).fault.map (LexError.behind base l.last)⟩ := by
    have hnext : ({ l with text := gap ++ b.toList } : Lexer).next
        = ((Lexer.ofText b).behind base l.last).next := hskip l.last b.toList
    rw [TokenStream.ofLexer_congr hnext, TokenStream.ofLexer_behind]
    rfl
  have hboth : TokenStream.ofText (a ++ String.ofList gap ++ b)
      = ⟨ts ++ (TokenStream.ofText b).tokens.map (Token.moved base.behind),
          (TokenStream.ofText b).fault.map (LexError.behind base l.last)⟩ := by
    have htext : Lexer.ofText (a ++ String.ofList gap ++ b)
        = { Lexer.ofText a with text := (Lexer.ofText a).text ++ (gap ++ b.toList) } := by
      simp [Lexer.ofText]
    rw [TokenStream.ofText, htext, TokenStream.ofLexer_append hdone (hgap.separated b.toList), hfirst,
      hsecond]
  rw [hbase, tokenize, tokenize, hboth]
  rcases hstream : TokenStream.ofText b with ⟨ts', _ | e⟩
  · rfl
  · have hfault : (TokenStream.ofText b).fault = some e := by rw [hstream]
    have hhint : e.hint = ts'.getLast?.map Token.value := by
      rw [TokenStream.hint_of_fault hfault, hstream]
    -- the hint is missing exactly if no token stands in front of the fault
    show (.error ⟨base.behind e.loc, e.hint.or l.last⟩ : Except LexError (List Token))
      = .error ⟨base.behind e.loc, if ts' = [] then ts.getLast?.map Token.value else e.hint⟩
    rw [hhint, hlast]
    cases ts' with
    | nil => rfl
    | cons t ts' => simp [List.getLast?_cons]

/-- A text with a newline in quotes and one outside, in front of a newline and a tab: behind them the
columns are moved by the tab in the first line only. A fault behind a token keeps its hint, and a fault in
front of all tokens is given the last token before the blanks. -/
theorem tokenize_append_blanks_lines :
    tokenize "select 'x\ny',\n2\n\té 4\n5" = .error ⟨⟨2, 1⟩, some "2"⟩ ∧
      tokenize "select 'x\ny',\n2\n\t4\n5 é" = .error ⟨⟨3, 2⟩, some "5"⟩ ∧
      tokenize "select 'x\ny',\n2\n\t4\n5"
        = .ok [⟨.keyword, "select", ⟨0, 0⟩⟩, ⟨.string, "x\ny", ⟨0, 7⟩⟩, ⟨.symbol, ",", ⟨0, 12⟩⟩,
            ⟨.numeric, "2", ⟨1, 0⟩⟩, ⟨.numeric, "4", ⟨2, 1⟩⟩, ⟨.numeric, "5", ⟨3, 0⟩⟩] := by
  have hfirst : tokenize "select 'x\ny',\n2"
      = .ok [⟨.keyword, "select", ⟨0, 0⟩⟩, ⟨.string, "x\ny", ⟨0, 7⟩⟩, ⟨.symbol, ",", ⟨0, 12⟩⟩,
          ⟨.numeric, "2", ⟨1, 0⟩⟩] := by decide +kernel
  have hgap : IsGap ['\n', '\t'] := by simp [IsGap, IsBlank]
  have hend : endPlace ("select 'x\ny',\n2" ++ String.ofList ['\n', '\t']) = ⟨2, 1⟩ := by
    decide +kernel
  have hboth := tokenize_append_blanks hfirst hgap
  rw [hend] at hboth
  refine ⟨(hboth "é 4\n5").trans ?_, (hboth "4\n5 é").trans ?_, (hboth "4\n5").trans ?_⟩ <;>
    decide +kernel

end SqlStore
