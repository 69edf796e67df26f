import SqlStore.Proofs.Token.ByteNumber
import Mathlib.Logic.Function.Iterate

/-! # Calls of a lexer on bytes

A lexer on the bytes of a source answers as the lexer on characters does. No look at the source goes wrong and
no call goes on for ever:

* **`ByteLexer.exists_rule`** — every rule has an answer where a source can be divided, and what it finds ends
  further on, at another such place;
* **`ByteLexer.Tracks`** — a lexer on bytes stands where one on characters does. Every call keeps it
  (`Tracks.follows_next`), and so does any number of them (`Tracks.exists_calls`);
* **`ByteLexer.calls_ofText_onBoundary`** — what this says of a whole source and any number of calls. -/

namespace SqlStore

open Utf8 (RestAt IsBoundary size)

namespace ByteLexer

variable {source : String} {text : List Char} {start : Cursor}

/-! ## What is found lies ahead -/

/-- Whether what is found ends behind its start, at a place where the source can be divided. -/
def Ahead (source : String) (start : Cursor) (found : Found) : Prop :=
  start.pointer < found.behind.pointer ∧ found.behind.pointer ≤ (Utf8.encode source).length ∧
    IsBoundary source found.behind.pointer

/-- What the rule for a class matches has characters, and the text has them. -/
theorem width_of_rule {kind : TokenKind} {x : Lexeme} (h : Lexeme.rule kind text = some x) :
    0 < x.width ∧ x.width ≤ text.length := by
  obtain ⟨hpos, slice, rest, rfl, hspells⟩ :
      0 < x.width ∧ ∃ slice rest, text = slice ++ rest ∧ x.Spells slice := by
    cases kind with
    | keyword => exact ⟨Lexeme.keyword?_width_pos h, Lexeme.keyword?_spells h⟩
    | symbol => exact ⟨Lexeme.symbol?_width_pos h, Lexeme.symbol?_spells h⟩
    | string => exact ⟨Lexeme.string?_width_pos h, Lexeme.string?_spells h⟩
    | numeric => exact ⟨Lexeme.numeric?_width_pos h, Lexeme.numeric?_spells h⟩
    | identifier => exact ⟨Lexeme.identifier?_width_pos h, Lexeme.identifier?_spells h⟩
  refine ⟨hpos, ?_⟩
  rw [hspells.width, List.length_append]
  exact Nat.le_add_right _ _

/-- Behind characters at the front of a text the others are left. -/
theorem restAt_take (h : RestAt source start.pointer text) (n : Nat) :
    RestAt source (start.behind (text.take n)).pointer (text.drop n) := by
  rw [← List.take_append_drop n text] at h
  exact h.forward _

/-- What the rule for a class matches has bytes. -/
theorem size_take_pos {kind : TokenKind} {x : Lexeme} (h : Lexeme.rule kind text = some x) :
    0 < size (text.take x.width) := by
  obtain ⟨hpos, hle⟩ := width_of_rule h
  refine Utf8.size_pos (List.length_pos_iff.1 ?_)
  rw [List.length_take_of_le hle]
  exact hpos

/-- The lexeme that a rule matches lies ahead. -/
theorem ahead_of_rule (kind : TokenKind) (h : RestAt source start.pointer text) {found : Found}
    (hfound : found ∈ (Lexeme.rule kind text).map (.ofLexeme start text)) :
    Ahead source start found := by
  obtain ⟨x, hx, rfl⟩ := Option.map_eq_some_iff.1 hfound
  have hrest := restAt_take h x.width
  exact ⟨Nat.lt_add_of_pos_right (size_take_pos hx), hrest.le_length, hrest.isBoundary⟩

/-- Only a blank has a place behind it as a blank. -/
theorem isBlank_of_afterBlank? {loc loc' : Location} {c : Char} (h : loc.afterBlank? c = some loc') :
    IsBlank c := by
  by_contra hc
  rw [afterBlank?_eq_none loc hc] at h
  cases h

/-- Behind the one byte of a blank what follows it is left. -/
theorem restAt_of_afterBlank? {place : Nat} {c : Char} {loc loc' : Location}
    (h : RestAt source place (c :: text)) (hloc : loc.afterBlank? c = some loc') :
    RestAt source (place + 1) text := by
  have hsize : c.utf8Size = 1 := by
    rcases isBlank_of_afterBlank? hloc with rfl | rfl | rfl <;> rfl
  exact hsize ▸ h.tail

/-- The blank at the front of a text lies ahead. -/
theorem ahead_of_blank (h : RestAt source start.pointer text) {found : Found}
    (hfound : found ∈ blankAt? start text) : Ahead source start found := by
  cases text with
  | nil => cases hfound
  | cons c rest =>
    obtain ⟨loc, hloc, rfl⟩ := Option.map_eq_some_iff.1 hfound
    have hrest := restAt_of_afterBlank? h hloc
    exact ⟨Nat.lt_succ_self _, hrest.le_length, hrest.isBoundary⟩

/-- Where a source can be divided every rule has an answer, and what it finds lies ahead. -/
theorem exists_rule (h : RestAt source start.pointer text) {rule : Rule} (hrule : rule ∈ rules) :
    ∃ found?, rule source start = .ok found? ∧ ∀ found ∈ found?, Ahead source start found := by
  simp only [rules, List.mem_cons, List.not_mem_nil, or_false] at hrule
  rcases hrule with rfl | rfl | rfl | rfl | rfl
  · exact ⟨_, keyword_eq h, fun found hfound => ahead_of_rule .keyword h hfound⟩
  · refine ⟨_, symbol_eq h, fun found hfound => ?_⟩
    rcases Option.or_eq_some_iff.1 hfound with hblank | ⟨-, hsymbol⟩
    · exact ahead_of_blank h hblank
    · exact ahead_of_rule .symbol h hsymbol
  · exact ⟨_, string_eq h, fun found hfound => ahead_of_rule .string h hfound⟩
  · exact ⟨_, numeric_eq h, fun found hfound => ahead_of_rule .numeric h hfound⟩
  · exact ⟨_, identifier_eq h, fun found hfound => ahead_of_rule .identifier h hfound⟩

/-! ## The first rule that finds anything -/

/-- Of rules that have an answer the first is asked first. -/
theorem findSomeM?_cons_eq_ok {rule : Rule} {others : List Rule} {found? rest? : Option Found}
    (hrule : rule source start = .ok found?)
    (hothers : others.findSomeM? (fun rule => rule source start) = .ok rest?) :
    (rule :: others).findSomeM? (fun rule => rule source start) = .ok (found?.or rest?) := by
  rw [List.findSomeM?, hrule]
  cases found? with
  | none => exact hothers
  | some found => rfl

/-- The rules are asked in the order of the lexemes, and a blank is found behind reserved words. -/
theorem first?_eq_or (h : RestAt source start.pointer text) :
    first? source start = .ok (((Lexeme.keyword? text).map (.ofLexeme start text)).or
      ((blankAt? start text).or ((Lexeme.symbol? text <|> Lexeme.string? text <|>
        Lexeme.numeric? text <|> Lexeme.identifier? text).map (.ofLexeme start text)))) := by
  have hnone : ([] : List Rule).findSomeM? (fun rule => rule source start) = .ok none := rfl
  have hnames := findSomeM?_cons_eq_ok (identifier_eq h) hnone
  have hnumbers := findSomeM?_cons_eq_ok (numeric_eq h) hnames
  have hstrings := findSomeM?_cons_eq_ok (string_eq h) hnumbers
  have hsymbols := findSomeM?_cons_eq_ok (symbol_eq h) hstrings
  rw [first?, rules, findSomeM?_cons_eq_ok (keyword_eq h) hsymbols]
  simp only [Option.orElse_eq_orElse, ← Option.or_eq_orElse, Option.map_or, Option.or_none,
    Option.or_assoc]

/-- A blank is found where one stands. -/
theorem first?_blank {c : Char} {loc : Location} (h : RestAt source start.pointer (c :: text))
    (hloc : start.loc.afterBlank? c = some loc) :
    first? source start = .ok (some ⟨none, ⟨start.pointer + 1, loc⟩⟩) := by
  have hkeyword : Lexeme.keyword? (c :: text) = none := by
    rcases isBlank_of_afterBlank? hloc with rfl | rfl | rfl <;>
      exact Lexeme.keyword?_eq_none (by decide) text
  rw [first?_eq_or h, hkeyword, blankAt?, hloc]
  rfl

/-- Where no blank stands, the lexeme at the front of the text is found. -/
theorem first?_lexeme (h : RestAt source start.pointer text) (hblank : blankAt? start text = none) :
    first? source start = .ok ((Lexeme.first? text).map (.ofLexeme start text)) := by
  rw [first?_eq_or h, hblank, Option.none_or, ← Option.map_or, Option.or_eq_orElse, Lexeme.first?]
  rfl

/-! ## One call -/

/-- The tokens among answers. -/
def tokensAmong (answers : List (Option (Except LexError Token))) : List Token :=
  answers.filterMap fun
    | some (.ok t) => some t
    | _ => none

/-- Whether a lexer on bytes stands where one on characters does. Behind a fault the latter has nothing left
to read, and the former stays at the place of the fault. -/
structure Tracks (l : ByteLexer) (m : Lexer) : Prop where
  loc : m.loc = l.cursor.loc
  last : m.last = l.last
  boundary : IsBoundary l.source l.cursor.pointer
  rest : l.failed = false → RestAt l.source l.cursor.pointer m.text
  done : l.failed = true → m.text = []

/-- Whether a lexer on bytes answers a call as one on characters does, stands where that does afterwards, and
has passed a byte for every token. -/
def Follows (l : ByteLexer) (result : Option (Except LexError Token) × Lexer) : Prop :=
  ∃ l', l.next = some (.ok (result.1, l')) ∧ l'.source = l.source ∧ Tracks l' result.2 ∧
    l.cursor.pointer + (tokensAmong [result.1]).length ≤ l'.cursor.pointer

/-- Behind a fault nothing is answered any more. -/
theorem follows_of_failed {l : ByteLexer} {m : Lexer} (h : Tracks l m) (hfailed : l.failed = true) :
    Follows l m.next := by
  obtain ⟨text, loc, last⟩ := m
  obtain rfl : text = [] := h.done hfailed
  refine ⟨l, ?_, rfl, h, Nat.le_refl _⟩
  rw [next, if_pos hfailed]
  rfl

/-- From a place where a source can be divided the call of both lexers comes to the same. -/
theorem follows_nextFrom {l : ByteLexer} (hfailed : l.failed = false)
    (h : RestAt l.source l.cursor.pointer text) :
    Follows l (Lexer.nextFrom l.last l.cursor.loc text) := by
  -- induction on what is left; a blank is passed, and then the call goes on behind it
  induction text generalizing l with
  | nil =>
    have hend : ¬ l.cursor.pointer < (Utf8.encode l.source).length := by
      rw [h.eq_length_iff.2 rfl]
      exact Nat.lt_irrefl _
    refine ⟨l, ?_, rfl, ⟨rfl, rfl, h.isBoundary, fun _ => h, fun _ => rfl⟩, Nat.le_refl _⟩
    rw [next, if_neg (Bool.eq_false_iff.1 hfailed), if_neg hend]
    rfl
  | cons c rest ih =>
    have hlt : l.cursor.pointer < (Utf8.encode l.source).length :=
      Nat.lt_of_le_of_ne h.le_length fun heq => List.cons_ne_nil c rest (h.eq_length_iff.1 heq)
    rw [Follows, next, if_neg (Bool.eq_false_iff.1 hfailed), if_pos hlt, Lexer.nextFrom]
    cases hloc : l.cursor.loc.afterBlank? c with
    | some loc =>
      obtain ⟨l', hnext, hsource, htracks, hle⟩ :=
        ih (l := { l with cursor := ⟨l.cursor.pointer + 1, loc⟩ }) hfailed (restAt_of_afterBlank? h hloc)
      rw [first?_blank h hloc]
      exact ⟨l', hnext, hsource, htracks,
        Nat.le_trans (Nat.add_le_add_right (Nat.le_succ _) _) hle⟩
    | none =>
      have hblank : blankAt? l.cursor (c :: rest) = none := by
        rw [blankAt?, hloc, Option.map_none]
      rw [first?_lexeme h hblank]
      cases hfirst : Lexeme.first? (c :: rest) with
      | none =>
        refine ⟨_, rfl, rfl, ⟨rfl, rfl, h.isBoundary, fun hfalse => ?_, fun _ => rfl⟩, Nat.le_refl _⟩
        cases hfalse
      | some x =>
        have hrule := Lexeme.rule_of_first? hfirst
        have hrest := restAt_take h x.width
        refine ⟨_, rfl, rfl, ⟨?_, rfl, hrest.isBoundary, fun _ => hrest, fun hfalse => ?_⟩,
          Nat.add_le_add_left (size_take_pos hrule) _⟩
        · exact congrArg l.cursor.loc.right (List.length_take_of_le (width_of_rule hrule).2).symm
        · rw [hfailed] at hfalse
          cases hfalse

/-- Every call keeps a lexer on bytes where the one on characters stands. -/
theorem Tracks.follows_next {l : ByteLexer} {m : Lexer} (h : Tracks l m) : Follows l m.next := by
  cases hfailed : l.failed with
  | true => exact follows_of_failed h hfailed
  | false =>
    rw [Lexer.next, h.last, h.loc]
    exact follows_nextFrom hfailed (h.rest hfailed)

/-! ## Any number of calls -/

/-- The lexers stand together at the start of a source. -/
theorem tracks_ofText (source : String) : Tracks (ofText source) (.ofText source) where
  loc := rfl
  last := rfl
  boundary := (RestAt.zero source).isBoundary
  rest _ := RestAt.zero source
  done hfalse := by cases hfalse

/-- Any number of calls keeps them together, and no more tokens are answered than bytes are passed. -/
theorem Tracks.exists_calls {l : ByteLexer} {m : Lexer} (h : Tracks l m) (n : Nat) :
    ∃ l', l.calls n = some (.ok ((List.range n).map m.answer, l')) ∧ l'.source = l.source ∧
      Tracks l' ((fun m => m.next.2)^[n] m) ∧
      l.cursor.pointer + (tokensAmong ((List.range n).map m.answer)).length ≤ l'.cursor.pointer := by
  induction n generalizing l m with
  | zero => exact ⟨l, rfl, rfl, h, Nat.le_refl _⟩
  | succ n ih =>
    obtain ⟨l₁, hnext, hsource₁, htracks₁, hle₁⟩ := h.follows_next
    obtain ⟨l₂, hcalls, hsource₂, htracks₂, hle₂⟩ := ih htracks₁
    have hanswers : (List.range (n + 1)).map m.answer
        = m.next.1 :: (List.range n).map m.next.2.answer := by
      rw [List.range_succ_eq_map, List.map_cons, List.map_map]
      rfl
    have htokens : tokensAmong ((List.range (n + 1)).map m.answer)
        = tokensAmong [m.next.1] ++ tokensAmong ((List.range n).map m.next.2.answer) := by
      rw [hanswers]
      exact List.filterMap_append (l := [m.next.1])
    refine ⟨l₂, ?_, hsource₂.trans hsource₁, htracks₂, ?_⟩
    · rw [calls, hnext, hanswers]
      simp only [hcalls]
      rfl
    · rw [htokens, List.length_append]
      omega

/-- Wherever a source can be divided, no rule looks at a byte or a slice that is not there or that divides a
character, and what it finds ends further on, within the source, at another such place, so that the source has
the slice between the two. So any number of calls from the start of the source come to an end. They answer as
those of the lexer on characters, and behind them the place that has been reached lies within the source and
divides no character; it is where the lexer on characters stands unless a call has failed. There are no more
tokens among the answers than bytes in the source. -/
theorem calls_ofText_onBoundary (source : String) :
    (∀ start : Cursor, IsBoundary source start.pointer → ∀ rule ∈ rules, ∃ found?,
      rule source start = .ok found? ∧ ∀ found ∈ found?, start.pointer < found.behind.pointer ∧
        found.behind.pointer ≤ (Utf8.encode source).length ∧
        IsBoundary source found.behind.pointer ∧
        ∃ cs, slice source start.pointer found.behind.pointer = .ok cs) ∧
    ∀ n, ∃ answers l, (ofText source).calls n = some (.ok (answers, l)) ∧
      answers = (List.range n).map (Lexer.ofText source).answer ∧ l.source = source ∧
      (l.failed = false →
        ((fun m => m.next.2)^[n] (Lexer.ofText source)).StandsAt source l.cursor.pointer) ∧
      l.cursor.pointer ≤ (Utf8.encode source).length ∧ IsBoundary source l.cursor.pointer ∧
      (tokensAmong answers).length ≤ (Utf8.encode source).length := by
  constructor
  · rintro start ⟨text, h⟩ rule hrule
    obtain ⟨found?, hfound, hahead⟩ := exists_rule h hrule
    refine ⟨found?, hfound, fun found hmem => ?_⟩
    obtain ⟨hlt, hle, hboundary⟩ := hahead found hmem
    exact ⟨hlt, hle, hboundary, exists_slice_iff.2 ⟨Nat.le_of_lt hlt, h.isBoundary, hboundary⟩⟩
  · intro n
    obtain ⟨l, hcalls, hsource, htracks, hle⟩ := (tracks_ofText source).exists_calls n
    obtain rfl : l.source = source := hsource
    have hboundary := htracks.boundary
    refine ⟨_, l, hcalls, rfl, rfl, fun hfailed => Lexer.standsAt_iff.2 (htracks.rest hfailed),
      hboundary.le_length, hboundary, ?_⟩
    exact Nat.le_trans (Nat.le_trans (Nat.le_add_left _ _) hle) hboundary.le_length

/-- A quoted name with a character of two bytes, a blank, and a number that the end of the source cuts off. The
name is found in front of the blank, where both lexers stand after the first call. The second call fails behind
the blank, and the third one has nothing to answer. -/
theorem calls_ofText_onBoundary_cutOff :
    ¬ IsBoundary "\"é\" 1e" 2 ∧
    identifier "\"é\" 1e" {} = .ok (some ⟨some ⟨.identifier, "é", ⟨0, 0⟩⟩, ⟨4, ⟨0, 3⟩⟩⟩) ∧
    IsBoundary "\"é\" 1e" 4 ∧ (∃ cs, slice "\"é\" 1e" 0 4 = .ok cs) ∧
    (ofText "\"é\" 1e").calls 1 = some (.ok ([some (.ok ⟨.identifier, "é", ⟨0, 0⟩⟩)],
      { source := "\"é\" 1e", cursor := ⟨4, ⟨0, 3⟩⟩, last := some "é", failed := false })) ∧
    (Lexer.ofText "\"é\" 1e").next.2.StandsAt "\"é\" 1e" 4 ∧
    ∃ l, (ofText "\"é\" 1e").calls 3 = some (.ok
        ([some (.ok ⟨.identifier, "é", ⟨0, 0⟩⟩), some (.error ⟨⟨0, 4⟩, some "é"⟩), none], l)) ∧
      IsBoundary "\"é\" 1e" l.cursor.pointer := by
  obtain ⟨hrules, hcalls⟩ := calls_ofText_onBoundary "\"é\" 1e"
  have hname : identifier "\"é\" 1e" {}
      = .ok (some ⟨some ⟨.identifier, "é", ⟨0, 0⟩⟩, ⟨4, ⟨0, 3⟩⟩⟩) := rfl
  obtain ⟨found?, hfound, hahead⟩ := hrules {} (by decide) identifier (by simp [rules])
  obtain rfl := Except.ok.inj (hname.symm.trans hfound)
  have hfirst : first? (ofText "\"é\" 1e").source (ofText "\"é\" 1e").cursor
      = .ok (some ⟨some ⟨.identifier, "é", ⟨0, 0⟩⟩, ⟨4, ⟨0, 3⟩⟩⟩) := by
    rw [first?_lexeme (RestAt.zero _) rfl]
    rfl
  have hone : (ofText "\"é\" 1e").calls 1 = some (.ok ([some (.ok ⟨.identifier, "é", ⟨0, 0⟩⟩)],
      { source := "\"é\" 1e", cursor := ⟨4, ⟨0, 3⟩⟩, last := some "é", failed := false })) := by
    rw [calls, next, if_neg (by decide), if_pos (by decide), hfirst]
    rfl
  obtain ⟨_, l₁, hcalls₁, -, -, hstands, -⟩ := hcalls 1
  obtain ⟨-, rfl⟩ := Prod.mk.inj (Except.ok.inj (Option.some.inj (hone.symm.trans hcalls₁)))
  obtain ⟨answers, l, hanswers, heq, -, -, -, hboundary, -⟩ := hcalls 3
  have hall : (List.range 3).map (Lexer.ofText "\"é\" 1e").answer
      = [some (.ok ⟨.identifier, "é", ⟨0, 0⟩⟩), some (.error ⟨⟨0, 4⟩, some "é"⟩), none] := rfl
  rw [heq, hall] at hanswers
  obtain ⟨-, -, hbehind, hslice⟩ := hahead _ rfl
  exact ⟨by decide, hname, hbehind, hslice, hone, hstands rfl, l, hanswers, hboundary⟩

end ByteLexer

end SqlStore
