import SqlStore.Proofs.Statement.Viability

/-! # One call after another

What becomes of a stream if statements are read from it again and again, each call going on with what the
one before it has left:

* **`parse_cases`** — all that a call can do: take everything, refuse a token, or fail at the end;
* **`TokenStream.taken`** — the tokens that a call takes off a stream. A call that takes none leaves the
  stream as it is (`parse_of_taken_nil`);
* **`TokenStream.afterCalls`**, **`TokenStream.answerTo`**, **`TokenStream.takenBy`** — the stream after a
  number of calls, the answer to a call, and the tokens that it takes;
* **`parse_settles`** — the calls take successive stretches of the tokens, and after as many calls as
  there are tokens all answers are the same. -/

namespace SqlStore

open Grammar SqlStore.Parser

/-! ## One call -/

/-- A call reads all of a stream without a fault as a script; or it refuses the token with which the
tokens cease to be the start of a script, and takes those in front of it and perhaps the token too; or
it fails behind the start of a script, and takes all of it and, unless there was nothing to take,
perhaps the lexical fault. -/
theorem parse_cases (s : TokenStream) :
    (∃ found, Script s.tokens found ∧ s.fault = none ∧ parse s = (.ok found, ⟨[], none⟩)) ∨
    (∃ front t left rest e, s.tokens = front ++ t :: rest ∧ Viable Script front ∧
      e.found? = some t ∧ left <:+ [t] ∧ parse s = (.error e, ⟨left ++ rest, s.fault⟩)) ∨
    ∃ e fault, Viable Script s.tokens ∧ (s.tokens = [] → fault = s.fault) ∧
      parse s = (.error e, ⟨[], fault⟩) := by
  unfold parse
  cases hrun : statements.run s with
  | ok found s' =>
    obtain ⟨hscript, hfault, rfl⟩ := run_statements.1 hrun
    exact .inl ⟨found, hscript, hfault, rfl⟩
  | error e s' =>
    rcases run_statements_error hrun with
      ⟨front, t, left, rest, htokens, hfront, -, hfound, hleft, rfl⟩ |
      ⟨hviable, -, fault, -, rfl⟩
    · exact .inr (.inl ⟨front, t, left, rest, e, htokens, hfront, hfound, hleft, rfl⟩)
    · refine .inr (.inr ⟨e, fault, hviable, fun hnil => ?_, rfl⟩)
      -- a fault that comes first is only looked at
      obtain ⟨tokens, first⟩ := s
      obtain rfl : tokens = [] := hnil
      cases first <;> cases hrun
      rfl

namespace TokenStream

/-- The tokens that a call takes off a stream. -/
def taken (s : TokenStream) : List Token :=
  s.tokens.take (s.tokens.length - (parse s).2.tokens.length)

/-- What a call takes stands in front of what it leaves. -/
theorem taken_of_tokens {s : TokenStream} {front : List Token}
    (h : s.tokens = front ++ (parse s).2.tokens) : s.taken = front := by
  have hlength : s.tokens.length - (parse s).2.tokens.length = front.length := by
    rw [h, List.length_append, Nat.add_sub_cancel]
  rw [taken, hlength, h, List.take_left]

/-- A call takes tokens off the front of a stream. If it reads statements they are made of these tokens.
If it fails the tokens are the start of a script, and behind it perhaps the token that is refused. -/
theorem taken_spec (s : TokenStream) : s.tokens = s.taken ++ (parse s).2.tokens ∧
    (∀ found, (parse s).1 = .ok found → Script s.taken found ∧ (parse s).2 = ⟨[], none⟩) ∧
    ∀ e, (parse s).1 = .error e → ∃ front, Viable Script front ∧
      (s.taken = front ∨ ∃ t, e.found? = some t ∧ s.taken = front ++ [t]) := by
  rcases parse_cases s with ⟨found, hscript, -, hparse⟩ |
    ⟨front, t, left, rest, e, htokens, hfront, hfound, hleft, hparse⟩ |
    ⟨e, fault, hviable, -, hparse⟩
  · have htaken : s.taken = s.tokens := taken_of_tokens (by rw [hparse, List.append_nil])
    rw [htaken, hparse]
    refine ⟨(List.append_nil _).symm, fun found' hok => ?_, nofun⟩
    exact ⟨Except.ok.inj hok ▸ hscript, rfl⟩
  · -- the refused token is the first one left, or the last one taken
    rcases List.suffix_cons_iff.1 hleft with rfl | hnil
    · have htaken : s.taken = front := taken_of_tokens (by rw [hparse, htokens]; rfl)
      rw [htaken, hparse]
      exact ⟨htokens, nofun, fun e' _ => ⟨front, hfront, .inl rfl⟩⟩
    · obtain rfl := List.suffix_nil.1 hnil
      have htaken : s.taken = front ++ [t] :=
        taken_of_tokens (by rw [hparse, htokens, List.append_assoc]; rfl)
      rw [htaken, hparse]
      refine ⟨by rw [htokens, List.append_assoc]; rfl, nofun, fun e' herror => ?_⟩
      exact ⟨front, hfront, .inr ⟨t, Except.error.inj herror ▸ hfound, rfl⟩⟩
  · have htaken : s.taken = s.tokens := taken_of_tokens (by rw [hparse, List.append_nil])
    rw [htaken, hparse]
    exact ⟨(List.append_nil _).symm, nofun, fun e' _ => ⟨s.tokens, hviable, .inl rfl⟩⟩

/-- A call that takes no token leaves the stream as it is, its fault included. -/
theorem parse_of_taken_nil {s : TokenStream} (h : s.taken = []) : (parse s).2 = s := by
  have htokens : s.tokens = (parse s).2.tokens := by
    have hspec := (taken_spec s).1
    rwa [h] at hspec
  rcases parse_cases s with ⟨found, -, hfault, hparse⟩ |
    ⟨front, t, left, rest, e, -, -, -, -, hparse⟩ | ⟨e, fault, -, hnone, hparse⟩
  · rw [hparse] at htokens ⊢
    show (⟨[], none⟩ : TokenStream) = ⟨s.tokens, s.fault⟩
    rw [htokens, hfault]
  · rw [hparse] at htokens ⊢
    show (⟨left ++ rest, s.fault⟩ : TokenStream) = ⟨s.tokens, s.fault⟩
    rw [htokens]
  · rw [hparse] at htokens ⊢
    show (⟨[], fault⟩ : TokenStream) = ⟨s.tokens, s.fault⟩
    rw [hnone htokens, htokens]

/-! ## Many calls -/

/-- The stream that is left after a number of calls. -/
def afterCalls (s : TokenStream) : Nat → TokenStream
  | 0 => s
  | n + 1 => (parse (s.afterCalls n)).2

/-- The answer to a call, the calls counted from zero. -/
def answerTo (s : TokenStream) (n : Nat) : Except ParseError (List Statement) :=
  (parse (s.afterCalls n)).1

/-- The tokens that a call takes, the calls counted from zero. -/
def takenBy (s : TokenStream) (n : Nat) : List Token := (s.afterCalls n).taken

variable (s : TokenStream)

/-- The tokens of a stream are those taken by calls one after the other, and those left after them. -/
theorem tokens_eq_taken (n : Nat) :
    s.tokens = (List.range n).flatMap s.takenBy ++ (s.afterCalls n).tokens := by
  induction n with
  | zero => rfl
  | succ n ih =>
    have hcall : (s.afterCalls n).tokens = s.takenBy n ++ (s.afterCalls (n + 1)).tokens :=
      (taken_spec (s.afterCalls n)).1
    rw [List.range_succ, List.flatMap_append, List.flatMap_singleton, List.append_assoc, ← hcall]
    exact ih

variable {s}

/-- From a call on that takes no token, nothing changes. -/
theorem afterCalls_of_taken_nil {m : Nat} (h : s.takenBy m = []) {n : Nat} (hmn : m ≤ n) :
    s.afterCalls n = s.afterCalls m := by
  induction n, hmn using Nat.le_induction with
  | base => rfl
  | succ n _ ih =>
    show (parse (s.afterCalls n)).2 = _
    rw [ih, parse_of_taken_nil h]

/-- After one call for each token, one of the calls has taken none. -/
theorem exists_taken_nil (s : TokenStream) : ∃ m ≤ s.tokens.length, s.takenBy m = [] := by
  by_contra hnone
  have htakes : ∀ m ≤ s.tokens.length, 1 ≤ (s.takenBy m).length := fun m hm =>
    List.length_pos_iff.2 fun hnil => hnone ⟨m, hm, hnil⟩
  -- otherwise each call takes a token of its own, which is one too many
  have hcount : ∀ n ≤ s.tokens.length + 1, n ≤ ((List.range n).flatMap s.takenBy).length := by
    intro n hn
    induction n with
    | zero => exact Nat.zero_le _
    | succ n ih =>
      have hbefore := ih (by omega)
      have hcall := htakes n (by omega)
      rw [List.range_succ, List.flatMap_append, List.flatMap_singleton, List.length_append]
      omega
  have hall := congrArg List.length (s.tokens_eq_taken (s.tokens.length + 1))
  have hmany := hcount _ (Nat.le_refl _)
  rw [List.length_append] at hall
  omega

/-- After one call for each token the stream stays as it is. -/
theorem afterCalls_settled {n : Nat} (h : s.tokens.length ≤ n) :
    s.afterCalls n = s.afterCalls s.tokens.length := by
  obtain ⟨m, hm, hnil⟩ := s.exists_taken_nil
  rw [afterCalls_of_taken_nil hnil (Nat.le_trans hm h), afterCalls_of_taken_nil hnil hm]

/-- After a call that reads statements nothing is left. -/
theorem afterCalls_of_ok {m : Nat} {found : List Statement} (h : s.answerTo m = .ok found) {n : Nat}
    (hmn : m < n) : s.afterCalls n = ⟨[], none⟩ := by
  have hdone : s.afterCalls (m + 1) = ⟨[], none⟩ := ((taken_spec _).2.1 found h).2
  have hnil : s.takenBy (m + 1) = [] := by
    rw [takenBy, hdone]
    rfl
  rw [afterCalls_of_taken_nil hnil hmn, hdone]

end TokenStream

/-- Calls one after the other on the tokens of a text. After as many of them as there are tokens in front
of the end or the lexical fault all answers are the same. Behind an answer with statements there are only
answers without any. A call that fails and takes no token is repeated for good. The tokens are those taken
by the first call, by the second, and so on, and those not yet taken; the statements of an answer are made
of the tokens taken by its call, and a call that fails takes the start of a script and behind it perhaps
the token that it refuses. -/
theorem parse_settles (text : String) :
    let s := TokenStream.ofText text
    (∀ n, s.tokens.length ≤ n → s.answerTo n = s.answerTo s.tokens.length) ∧
    (∀ m n found, m < n → s.answerTo m = .ok found → s.answerTo n = .ok []) ∧
    (∀ m n e, m ≤ n → s.answerTo m = .error e → s.takenBy m = [] →
      s.answerTo n = .error e ∧ s.takenBy n = []) ∧
    (∀ n, s.tokens = (List.range n).flatMap s.takenBy ++ (s.afterCalls n).tokens) ∧
    (∀ n found, s.answerTo n = .ok found → Script (s.takenBy n) found) ∧
    ∀ n e, s.answerTo n = .error e → ∃ front, Viable Script front ∧
      (s.takenBy n = front ∨ ∃ t, e.found? = some t ∧ s.takenBy n = front ++ [t]) := by
  intro s
  refine ⟨fun n hn => ?_, fun m n found hmn hok => ?_, fun m n e hmn herror hnil => ?_,
    s.tokens_eq_taken, fun n found hok => ?_, fun n => (TokenStream.taken_spec _).2.2⟩
  · rw [TokenStream.answerTo, TokenStream.answerTo, TokenStream.afterCalls_settled hn]
  · rw [TokenStream.answerTo, TokenStream.afterCalls_of_ok hok hmn]
    rfl
  · rw [TokenStream.answerTo, TokenStream.takenBy, TokenStream.afterCalls_of_taken_nil hnil hmn]
    exact ⟨herror, hnil⟩
  · exact ((TokenStream.taken_spec _).2.1 found hok).1

/-- Two calls take a token that they refuse. The third finds the lexical fault and takes nothing, so every
later call fails like it. Where the second call reads a statement the later ones answer with none. -/
theorem parse_settles_refused :
    ((TokenStream.ofText "select a b; create 2 'x").answerTo 9
        = .error (.lexical ⟨⟨0, 21⟩, some "2"⟩) ∧
      (TokenStream.ofText "select a b; create 2 'x").takenBy 9 = []) ∧
    (TokenStream.ofText "select a b; select c from t").answerTo 9 = .ok [] := by
  have hfault : (TokenStream.ofText "select a b; create 2 'x").answerTo 2
      = .error (.lexical ⟨⟨0, 21⟩, some "2"⟩) := by decide +kernel
  have hnothing : (TokenStream.ofText "select a b; create 2 'x").takenBy 2 = [] := by
    decide +kernel
  have hread : (TokenStream.ofText "select a b; select c from t").answerTo 1
      = .ok [.select [.literal ⟨.identifier, "c", ⟨0, 19⟩⟩] ⟨.identifier, "t", ⟨0, 26⟩⟩] := by
    decide +kernel
  exact ⟨(parse_settles _).2.2.1 2 9 _ (by decide) hfault hnothing,
    (parse_settles _).2.1 1 9 _ (by decide) hread⟩

end SqlStore
