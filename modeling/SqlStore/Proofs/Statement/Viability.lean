import SqlStore.Proofs.Statement.Recognition

/-! # The first offending item decides

A text that is no list of statements fails at the first token with which its tokens cease to be the
start of a script. Only if there is no such token does a lexical fault show, or the end of the text.

* **`Parser.pinpoints_statements`** — the parser of statements pinpoints what is no script;
* **`Parser.FirstOffence`** — the place of the first token that cannot be completed;
* **`parseText_fails_at_firstOffence`** — what the parser answers to a text that it does not read. -/

namespace SqlStore

open Grammar SqlStore.Parser

namespace Parser

/-! ## Scripts -/

/-- Nothing is left at the end, and a token that is left is refused. -/
theorem pinpoints_expectEnd : expectEnd.Pinpoints fun ts _ => ts = [] :=
  pinpoints_peek rfl rfl fun t _ _ =>
    .refused (e := .unexpectedToken t) [] ⟨[], (), rfl⟩ rfl ⟨[t], List.suffix_rfl, fun _ _ => rfl⟩

/-- The parser of statements pinpoints what is no script. -/
theorem pinpoints_statements : statements.Pinpoints Script := by
  have hraw : statements.Pinpoints _ := reads_statement?.toPinpoints.bind fun first =>
    (pinpoints_many fun _ => reads_statement?.toPinpoints).bind fun others =>
      pinpoints_expectEnd.map fun _ => (first :: others).filterMap id
  refine hraw.mono ?_
  rintro _ found ⟨front, first, _, hfirst, ⟨back, others, _, hothers, ⟨_, rfl, rfl⟩, rfl⟩, rfl⟩
  rw [List.append_nil]
  exact script_iff.2 ⟨front, first, back, others, hfirst, hothers, rfl, rfl⟩

/-- A run that fails refuses the token with which the tokens cease to be the start of a script, and takes
what is in front of it and perhaps the token, or it fails behind all tokens, and takes all of them and
perhaps the lexical fault. -/
theorem run_statements_error {s s' : TokenStream} {e : ParseError}
    (h : statements.run s = .error e s') :
    (∃ front t left rest, s.tokens = front ++ t :: rest ∧ Viable Script front ∧
      ¬ Viable Script (front ++ [t]) ∧ e.found? = some t ∧ left <:+ [t] ∧
      s' = ⟨left ++ rest, s.fault⟩) ∨
      Viable Script s.tokens ∧ e = .atEnd s.fault ∧
        ∃ fault', (fault' = none ∨ fault' = s.fault) ∧ s' = ⟨[], fault'⟩ := by
  cases pinpoints_statements.verdict s with
  | read front hwords hrun =>
    rw [hrun _ (.refl _)] at h
    cases h
  | @refused front t rest fault e' hfront hfound hrun =>
    obtain ⟨left, hleft, hrun⟩ := hrun
    rw [hrun rest fault] at h
    cases h
    refine .inl ⟨front, t, left, rest, rfl, hfront, ?_, hfound, hleft, rfl⟩
    -- the same token is refused whatever follows, so no script goes on with it
    rintro ⟨more, found, hscript⟩
    have herror := hrun more none
    rw [List.append_assoc] at hscript
    rw [run_statements.2 ⟨hscript, rfl, rfl⟩] at herror
    cases herror
  | @ended front fault hfront hrun =>
    obtain ⟨fault', hfault', herror⟩ := hrun
    rw [herror] at h
    cases h
    exact .inr ⟨hfront, rfl, fault', hfault', rfl⟩

/-! ## The first offence -/

/-- The token at place `i` is the first one with which tokens cease to be the start of words. -/
def FirstOffence {α : Type} (Words : List Token → α → Prop) (ts : List Token) (i : Nat) : Prop :=
  ¬ Viable Words (ts.take (i + 1)) ∧ ∀ j < i, Viable Words (ts.take (j + 1))

/-- A start of words goes up to the first offence exactly. -/
theorem FirstOffence.eq_length {α : Type} {Words : List Token → α → Prop} {front rest : List Token}
    {t : Token} {i : Nat} (h : FirstOffence Words (front ++ t :: rest) i)
    (hfront : Viable Words front) (hrefused : ¬ Viable Words (front ++ [t])) :
    i = front.length := by
  obtain ⟨hoffence, hfirst⟩ := h
  rcases Nat.lt_trichotomy i front.length with hlt | heq | hgt
  · rw [List.take_append_of_le_length hlt] at hoffence
    exact absurd (hfront.take (i + 1)) hoffence
  · exact heq
  · have hviable := hfirst front.length hgt
    rw [List.take_append, List.take_of_length_le (Nat.le_succ _), Nat.add_sub_cancel_left] at hviable
    exact absurd hviable hrefused

/-! ## What the fault of a run says -/

section Faults

variable {s s' : TokenStream} {e : ParseError}

/-- A token that is refused cannot be behind the start of a script. -/
theorem not_viable_of_refused {front rest : List Token} {t : Token}
    (hrefused : ¬ Viable Script (front ++ [t])) : ¬ Viable Script (front ++ t :: rest) := by
  intro hviable
  rw [← List.singleton_append, ← List.append_assoc] at hviable
  exact hrefused hviable.of_append

/-- The lexical fault is raised exactly if everything in front of it is the start of a script. -/
theorem eq_lexical_iff (h : statements.run s = .error e s') (fault : LexError) :
    e = .lexical fault ↔ s.fault = some fault ∧ Viable Script s.tokens := by
  rcases run_statements_error h with
    ⟨front, t, -, rest, htokens, -, hrefused, hfound, -⟩ | ⟨hviable, rfl, -⟩
  · rw [htokens]
    constructor
    · rintro rfl
      cases hfound
    · rintro ⟨-, hviable⟩
      exact absurd hviable (not_viable_of_refused hrefused)
  · cases s.fault with
    | none => simp [ParseError.atEnd]
    | some other => simp [ParseError.atEnd, hviable]

/-- The fault shows at the first offending token. -/
theorem found_of_firstOffence (h : statements.run s = .error e s') {i : Nat} {t : Token}
    (ht : s.tokens[i]? = some t) (hfirst : FirstOffence Script s.tokens i) : e.found? = some t := by
  rcases run_statements_error h with
    ⟨front, u, -, rest, htokens, hfront, hrefused, hfound, -⟩ | ⟨hviable, -⟩
  · rw [htokens] at ht hfirst
    obtain rfl := hfirst.eq_length hfront hrefused
    rw [List.getElem?_append_right (Nat.le_refl _), Nat.sub_self] at ht
    obtain rfl : u = t := Option.some.inj ht
    exact hfound
  · exact absurd (hviable.take (i + 1)) hfirst.1

/-- The end of the input is the fault exactly if the tokens are the start of a script but no script,
and nothing else is there. -/
theorem eq_endOfInput_iff (h : statements.run s = .error e s') :
    e = .endOfInput ↔
      s.fault = none ∧ Viable Script s.tokens ∧ ¬ ∃ found, Script s.tokens found := by
  rcases run_statements_error h with
    ⟨front, t, -, rest, htokens, -, hrefused, hfound, -⟩ | ⟨hviable, rfl, -⟩
  · rw [htokens]
    constructor
    · rintro rfl
      cases hfound
    · rintro ⟨-, hviable, -⟩
      exact absurd hviable (not_viable_of_refused hrefused)
  · cases hfault : s.fault with
    | some other => simp [ParseError.atEnd]
    | none =>
      refine iff_of_true rfl ⟨rfl, hviable, ?_⟩
      rintro ⟨found, hscript⟩
      rw [run_statements.2 ⟨hscript, hfault, rfl⟩] at h
      cases h

end Faults

end Parser

/-! ## Whole texts -/

/-- A text that is not read fails at the first item that cannot be completed. The lexical fault is
raised exactly if the tokens in front of it are the start of a script. If there is a first offending
token, the fault shows there and its text says where that is. The end of the input is the fault
exactly if the text is tokens only, which are the start of a script but no script. -/
theorem parseText_fails_at_firstOffence {text : String} {e : ParseError}
    (h : parseText text = .error e) :
    (∀ fault, e = .lexical fault ↔ (TokenStream.ofText text).fault = some fault ∧
      Viable Script (TokenStream.ofText text).tokens) ∧
    (∀ i t, (TokenStream.ofText text).tokens[i]? = some t →
      FirstOffence Script (TokenStream.ofText text).tokens i →
        e.found? = some t ∧ ∃ before after, e.message = before ++ t.loc.written ++ after) ∧
    (e = .endOfInput ↔ (TokenStream.ofText text).fault = none ∧
      Viable Script (TokenStream.ofText text).tokens ∧
        ¬ ∃ found, Script (TokenStream.ofText text).tokens found) := by
  obtain ⟨s', hrun⟩ : ∃ s', statements.run (.ofText text) = .error e s' := by
    rw [parseText, parse] at h
    cases hrun : statements.run (.ofText text) with
    | ok found rest => simp [hrun] at h
    | error other rest =>
      simp only [hrun] at h
      obtain rfl := Except.error.inj h
      exact ⟨rest, rfl⟩
  refine ⟨eq_lexical_iff hrun, fun i t ht hfirst => ?_, eq_endOfInput_iff hrun⟩
  have hfound := found_of_firstOffence hrun ht hfirst
  exact ⟨hfound, ParseError.message_of_found hfound⟩

/-- A filter is refused at its reserved word although a lexical fault follows: the selection in front
of it is a script, and nothing that goes on with the word is one. -/
theorem parseText_fails_at_firstOffence_filter :
    parseText "select a from t where 'b"
        = .error (.unsupportedFilter ⟨.keyword, "where", ⟨0, 16⟩⟩) ∧
      FirstOffence Script (TokenStream.ofText "select a from t where 'b").tokens 4 ∧
      (∃ before after, (ParseError.unsupportedFilter ⟨.keyword, "where", ⟨0, 16⟩⟩).message
        = before ++ "0:16" ++ after) := by
  have htext : TokenStream.ofText "select a from t where 'b"
      = ⟨[⟨.keyword, "select", ⟨0, 0⟩⟩, ⟨.identifier, "a", ⟨0, 7⟩⟩, ⟨.keyword, "from", ⟨0, 9⟩⟩,
          ⟨.identifier, "t", ⟨0, 14⟩⟩, ⟨.keyword, "where", ⟨0, 16⟩⟩],
          some ⟨⟨0, 22⟩, some "where"⟩⟩ := by
    rw [TokenStream.ofText, TokenStream.ofLexer_eq_upTo (n := 30) (by decide)]
    decide +kernel
  have hparse : parseText "select a from t where 'b"
      = .error (.unsupportedFilter ⟨.keyword, "where", ⟨0, 16⟩⟩) := by
    rw [parseText, htext]
    decide +kernel
  have hfirst : FirstOffence Script (TokenStream.ofText "select a from t where 'b").tokens 4 := by
    rw [htext]
    constructor
    · rintro ⟨more, found, hscript⟩
      have hrun := (run_statements (s := ⟨_, none⟩)).2 ⟨hscript, rfl, rfl⟩
      cases hrun
    · intro j hj
      have hselect : Viable Script (List.take 4 [⟨.keyword, "select", ⟨0, 0⟩⟩,
          ⟨.identifier, "a", ⟨0, 7⟩⟩, ⟨.keyword, "from", ⟨0, 9⟩⟩, ⟨.identifier, "t", ⟨0, 14⟩⟩,
          ⟨.keyword, "where", ⟨0, 16⟩⟩]) :=
        .of_words (.last (.select rfl (.one (.literal (.inl rfl))) rfl rfl))
      have hstart := hselect.take (j + 1)
      rwa [List.take_take, Nat.min_eq_left hj] at hstart
  have hwhere := (parseText_fails_at_firstOffence hparse).2.1 4 _ (by rw [htext]; rfl) hfirst
  exact ⟨hparse, hfirst, hwhere.2⟩

end SqlStore
