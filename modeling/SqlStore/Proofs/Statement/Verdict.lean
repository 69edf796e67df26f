import SqlStore.Proofs.Statement.Grammar
import SqlStore.Statement.Parser

/-! # What a parser makes of a stream

A parser that looks one token ahead reads words, or it fails as soon as the tokens it has seen
cannot be completed, and no sooner.

* **`Parser.Viable Words front`** — `front` is the start of words of some kind;
* **`Parser.Verdict p Words s`** — the run of `p` on `s` reads such words, or it refuses the first
  token that no such words have there, or it fails at the end of a stream that could be completed;
* **`Parser.Pinpoints p Words`** — one of these happens on every stream;
* one rule for each way of building parsers: **`Pinpoints.bind`**, **`Pinpoints.map`**,
  **`pinpoints_next`**, **`pinpoints_peek`**, **`pinpoints_optional`**, **`pinpoints_excluded`**,
  **`pinpoints_many`**. -/

namespace SqlStore

/-! ## Faults and the tokens they name -/

/-- The token at which a fault shows; none for what shows where no token comes next. -/
def ParseError.found? : ParseError → Option Token
  | .lexical _ => none
  | .endOfInput => none
  | .unexpectedToken t => some t
  | .expectedName t => some t
  | .expectedType t => some t
  | .expectedKeyword _ t => some t
  | .expectedSymbol _ t => some t
  | .unsupportedNumber t => some t
  | .unsupportedFilter t => some t

/-- The fault of a parser that asks for a token where none is left. -/
def ParseError.atEnd : Option LexError → ParseError
  | some e => .lexical e
  | none => .endOfInput

/-- The text of a fault that shows at a token says where the token stands. -/
theorem ParseError.message_of_found {e : ParseError} {t : Token} (h : e.found? = some t) :
    ∃ before after, e.message = before ++ t.loc.written ++ after := by
  -- nothing follows the place in most texts
  have hlast : ∀ {text : String} (before : String), text = before ++ t.loc.written →
      ∃ before after, text = before ++ t.loc.written ++ after := fun before htext =>
    ⟨before, "", by rw [htext, String.append_empty]⟩
  cases e <;> cases h
  case unexpectedToken | expectedName | expectedType | expectedKeyword | expectedSymbol =>
    exact hlast _ rfl
  case unsupportedNumber | unsupportedFilter => exact ⟨_, _, rfl⟩

namespace Parser

variable {α β γ : Type}

/-! ## Words and how they begin -/

/-- Words of one kind and then words of a kind that may depend on what the first ones are read as. -/
def InTurn (Words : List Token → α → Prop) (Words' : α → List Token → β → Prop) (ts : List Token)
    (b : β) : Prop :=
  ∃ front a back, Words front a ∧ Words' a back b ∧ ts = front ++ back

/-- One token that is accepted, with its value. -/
def Single (accepts : Token → Prop) (value : Token → α) (ts : List Token) (a : α) : Prop :=
  ∃ t, accepts t ∧ ts = [t] ∧ a = value t

/-- A token and then other words. -/
theorem inTurn_single_iff {accepts : Token → Prop} {value : Token → α}
    {Words : α → List Token → β → Prop} {ts : List Token} {b : β} :
    InTurn (Single accepts value) Words ts b ↔
      ∃ t rest, accepts t ∧ Words (value t) rest b ∧ ts = t :: rest := by
  constructor
  · rintro ⟨_, _, rest, ⟨t, ht, rfl, rfl⟩, hrest, rfl⟩
    exact ⟨t, rest, ht, hrest, rfl⟩
  · rintro ⟨t, rest, ht, hrest, rfl⟩
    exact ⟨[t], value t, rest, ⟨t, ht, rfl, rfl⟩, hrest, rfl⟩

/-- Tokens that can be completed to words of some kind. -/
def Viable (Words : List Token → α → Prop) (front : List Token) : Prop :=
  ∃ more a, Words (front ++ more) a

/-- Words are the start of themselves. -/
theorem Viable.of_words {Words : List Token → α → Prop} {ts : List Token} {a : α} (h : Words ts a) :
    Viable Words ts :=
  ⟨[], a, by rwa [List.append_nil]⟩

/-- A start of words is a start of any words that these are among. -/
theorem Viable.mono {Words : List Token → α → Prop} {Words' : List Token → β → Prop}
    {front : List Token} (h : Viable Words front)
    (hwords : ∀ ts a, Words ts a → ∃ b, Words' ts b) : Viable Words' front := by
  obtain ⟨more, a, ha⟩ := h
  obtain ⟨b, hb⟩ := hwords _ a ha
  exact ⟨more, b, hb⟩

/-- What a start of words starts with is a start of words. -/
theorem Viable.of_append {Words : List Token → α → Prop} {front back : List Token}
    (h : Viable Words (front ++ back)) : Viable Words front := by
  obtain ⟨more, a, ha⟩ := h
  exact ⟨back ++ more, a, by rwa [← List.append_assoc]⟩

/-- The first tokens of a start of words are a start of words. -/
theorem Viable.take {Words : List Token → α → Prop} {front : List Token} (h : Viable Words front)
    (n : Nat) : Viable Words (front.take n) := by
  rw [← List.take_append_drop n front] at h
  exact h.of_append

section InTurn

variable {Words : List Token → α → Prop} {Words' : α → List Token → β → Prop}

/-- The start of the first words can be completed if other words can always follow. -/
theorem Viable.first {front : List Token} (h : Viable Words front)
    (hnext : ∀ a, Viable (Words' a) []) : Viable (InTurn Words Words') front := by
  obtain ⟨more, a, ha⟩ := h
  obtain ⟨back, b, hb⟩ := hnext a
  exact ⟨more ++ back, b, front ++ more, a, back, ha, hb, (List.append_assoc _ _ _).symm⟩

/-- The start of the second words can be completed behind first ones. -/
theorem Viable.second {front back : List Token} {a : α} (hfront : Words front a)
    (h : Viable (Words' a) back) : Viable (InTurn Words Words') (front ++ back) := by
  obtain ⟨more, b, hb⟩ := h
  exact ⟨more, b, front, a, back ++ more, hfront, hb, List.append_assoc _ _ _⟩

end InTurn

/-! ## Verdicts -/

/-- Streams that look the same to who looks one token ahead. -/
inductive SameNext : TokenStream → TokenStream → Prop
  | refl (s : TokenStream) : SameNext s s
  | token (t : Token) (rest rest' : List Token) (fault fault' : Option LexError) :
      SameNext ⟨t :: rest, fault⟩ ⟨t :: rest', fault'⟩

/-- The same tokens may be put in front. -/
theorem SameNext.append {s s' : TokenStream} (h : SameNext s s') (front : List Token) :
    SameNext ⟨front ++ s.tokens, s.fault⟩ ⟨front ++ s'.tokens, s'.fault⟩ := by
  cases h with
  | refl => exact .refl _
  | token t rest rest' fault fault' =>
    cases front with
    | nil => exact .token t rest rest' fault fault'
    | cons u front => exact .token u _ _ fault fault'

/-- Streams that look the same begin with the same token, or neither has one. -/
theorem SameNext.head? {s s' : TokenStream} (h : SameNext s s') :
    s'.tokens.head? = s.tokens.head? := by
  cases h <;> rfl

/-- What a parser makes of a stream. Words are read by what stands up to the token behind them, a
token is refused by what stands up to itself, and in both cases whatever follows. A token that is
refused is taken or left in the stream; at the end no token is left, and the lexical fault there is
taken or left. -/
inductive Verdict (p : Parser α) (Words : List Token → α → Prop) : TokenStream → Prop
  | read (front : List Token) {a : α} {s : TokenStream} (hwords : Words front a)
      (hrun : ∀ s', SameNext s s' → p.run ⟨front ++ s'.tokens, s'.fault⟩ = .ok a s') :
      Verdict p Words ⟨front ++ s.tokens, s.fault⟩
  | refused (front : List Token) {t : Token} {rest : List Token} {fault : Option LexError}
      {e : ParseError} (hfront : Viable Words front) (hfound : e.found? = some t)
      (hrun : ∃ left, left <:+ [t] ∧ ∀ rest' fault',
        p.run ⟨front ++ t :: rest', fault'⟩ = .error e ⟨left ++ rest', fault'⟩) :
      Verdict p Words ⟨front ++ t :: rest, fault⟩
  | ended {front : List Token} {fault : Option LexError} (hfront : Viable Words front)
      (hrun : ∃ fault', (fault' = none ∨ fault' = fault) ∧
        p.run ⟨front, fault⟩ = .error (.atEnd fault) ⟨[], fault'⟩) :
      Verdict p Words ⟨front, fault⟩

namespace Verdict

variable {p p' : Parser α} {Words Words' : List Token → α → Prop} {s s' : TokenStream}

/-- What is taken are words of the kind. -/
theorem sound (h : Verdict p Words s) {a : α} (hok : p.run s = .ok a s') :
    ∃ ts, Words ts a ∧ s = ⟨ts ++ s'.tokens, s'.fault⟩ := by
  cases h with
  | @read front b rest hwords hrun =>
    rw [hrun rest (.refl rest)] at hok
    cases hok
    exact ⟨front, hwords, rfl⟩
  | @refused front t rest fault e hfront hfound hrun =>
    obtain ⟨left, -, hrun⟩ := hrun
    rw [hrun rest fault] at hok
    cases hok
  | ended hfront hrun =>
    obtain ⟨fault', -, herror⟩ := hrun
    rw [herror] at hok
    cases hok

/-- The verdict is the same on more words. -/
theorem mono (h : Verdict p Words s) (hwords : ∀ ts a, Words ts a → Words' ts a) :
    Verdict p Words' s := by
  have hviable : ∀ {front}, Viable Words front → Viable Words' front := fun hfront =>
    hfront.mono fun _ a ha => ⟨a, hwords _ a ha⟩
  cases h with
  | read front hfront hrun => exact .read front (hwords _ _ hfront) hrun
  | refused front hfront hfound hrun => exact .refused front (hviable hfront) hfound hrun
  | ended hfront hrun => exact .ended (hviable hfront) hrun

/-- Parsers that agree on the streams with a certain first token have the same verdict on them. -/
theorem of_head {t : Token} {rest : List Token} {fault : Option LexError}
    (h : Verdict p' Words ⟨t :: rest, fault⟩)
    (hagree : ∀ rest' fault', p.run ⟨t :: rest', fault'⟩ = p'.run ⟨t :: rest', fault'⟩) :
    Verdict p Words ⟨t :: rest, fault⟩ := by
  generalize hs : (⟨t :: rest, fault⟩ : TokenStream) = s at h
  -- every stream that a case speaks of begins with the token too
  have hrun : ∀ s', s'.tokens.head? = some t → p.run s' = p'.run s' := by
    rintro ⟨tokens, fault'⟩ hhead
    obtain ⟨rest', rfl⟩ := List.head?_eq_some_iff.1 hhead
    exact hagree rest' fault'
  cases h with
  | @read front a s hwords hread =>
    refine .read front hwords fun s' hs' => ?_
    have hhead : (front ++ s.tokens).head? = some t := by
      rw [← (TokenStream.mk.inj hs).1]
      rfl
    rw [hrun _ ((hs'.append front).head?.trans hhead), hread s' hs']
  | @refused front u others fault e hfront hfound hrefused =>
    obtain ⟨left, hleft, hrefused⟩ := hrefused
    refine .refused front hfront hfound ⟨left, hleft, fun rest' fault' => ?_⟩
    have hhead : (front ++ u :: rest').head? = some t := by
      have hother : (front ++ u :: others).head? = some t := by
        rw [← (TokenStream.mk.inj hs).1]
        rfl
      rwa [List.head?_append, List.head?_cons] at hother ⊢
    rw [hrun _ hhead]
    exact hrefused rest' fault'
  | ended hfront hended =>
    cases hs
    rw [← hrun _ rfl] at hended
    exact .ended hfront hended

/-- A parser that first takes a certain token has the verdict of what it does then. -/
theorem cons {t : Token} {rest : List Token} {fault : Option LexError}
    (h : Verdict p' Words ⟨rest, fault⟩)
    (hagree : ∀ rest' fault', p.run ⟨t :: rest', fault'⟩ = p'.run ⟨rest', fault'⟩) :
    Verdict p (fun ts a => ∃ words, Words words a ∧ ts = t :: words) ⟨t :: rest, fault⟩ := by
  have hviable : ∀ {front}, Viable Words front →
      Viable (fun ts a => ∃ words, Words words a ∧ ts = t :: words) (t :: front) := by
    rintro front ⟨more, a, ha⟩
    exact ⟨more, a, front ++ more, ha, rfl⟩
  cases h with
  | @read front a s hwords hrun =>
    exact .read (t :: front) ⟨front, hwords, rfl⟩ fun s' hs' =>
      (hagree _ _).trans (hrun s' hs')
  | refused front hfront hfound hrun =>
    obtain ⟨left, hleft, hrun⟩ := hrun
    refine .refused (t :: front) (hviable hfront) hfound ⟨left, hleft, fun rest' fault' => ?_⟩
    rw [List.cons_append, hagree]
    exact hrun rest' fault'
  | ended hfront hrun =>
    rw [← hagree] at hrun
    exact .ended (hviable hfront) hrun

/-- A fault of the first parser is a fault of both in turn. -/
theorem run_bind_error {q : α → Parser β} {e : ParseError} (h : p.run s = .error e s') :
    (p >>= q).run s = .error e s' := by
  rw [EStateM.run_bind, h]

/-- The verdict on two parsers in turn is that of the first one, or of the second one on what the
first one leaves. -/
theorem bind {Words : List Token → α → Prop} {q : α → Parser β}
    {Words' : α → List Token → β → Prop} (h : Verdict p Words s)
    (hq : ∀ {front a s'}, Words front a → s = ⟨front ++ s'.tokens, s'.fault⟩ →
      Verdict (q a) (Words' a) s')
    (hnext : ∀ a, Viable (Words' a) []) : Verdict (p >>= q) (InTurn Words Words') s := by
  cases h with
  | @read front a s₁ hwords hrun =>
    -- the first parser reads the same words in front of all that looks like what the second sees
    have hbind : ∀ s', SameNext s₁ s' →
        (p >>= q).run ⟨front ++ s'.tokens, s'.fault⟩ = (q a).run s' := by
      intro s' hs'
      rw [EStateM.run_bind, hrun s' hs']
    cases hq hwords rfl with
    | @read back b s₂ hback hsecond =>
      have hverdict : Verdict (p >>= q) (InTurn Words Words')
          ⟨(front ++ back) ++ s₂.tokens, s₂.fault⟩ := by
        refine .read (front ++ back) ⟨front, a, back, hwords, hback, rfl⟩ fun s' hs' => ?_
        rw [List.append_assoc]
        exact (hbind _ (hs'.append back)).trans (hsecond s' hs')
      rwa [List.append_assoc] at hverdict
    | @refused back t rest fault e hback hfound hsecond =>
      obtain ⟨left, hleft, hsecond⟩ := hsecond
      have hverdict : Verdict (p >>= q) (InTurn Words Words')
          ⟨(front ++ back) ++ t :: rest, fault⟩ := by
        refine .refused (front ++ back) (.second hwords hback) hfound
          ⟨left, hleft, fun rest' fault' => ?_⟩
        have hsame : SameNext ⟨t :: rest, fault⟩ ⟨t :: rest', fault'⟩ := .token t _ _ _ _
        rw [List.append_assoc, hbind _ (hsame.append back)]
        exact hsecond rest' fault'
      rwa [List.append_assoc] at hverdict
    | @ended back fault hback hsecond =>
      refine .ended (.second hwords hback) ?_
      rwa [hbind _ (.refl _)]
  | refused front hfront hfound hrun =>
    obtain ⟨left, hleft, hrun⟩ := hrun
    exact .refused front (hfront.first hnext) hfound
      ⟨left, hleft, fun rest' fault' => run_bind_error (hrun rest' fault')⟩
  | ended hfront hrun =>
    obtain ⟨fault', hfault', hrun⟩ := hrun
    exact .ended (hfront.first hnext) ⟨fault', hfault', run_bind_error hrun⟩

/-- Nothing is read, and nothing can be wrong. -/
theorem pure (a : α) (s : TokenStream) :
    Verdict (Pure.pure a) (fun ts b => ts = [] ∧ b = a) s :=
  .read [] ⟨rfl, rfl⟩ fun _ _ => rfl

/-- The verdict stays when what was read is turned into something else. -/
theorem map (h : Verdict p Words s) (f : α → β) :
    Verdict (p >>= fun a => Pure.pure (f a)) (fun ts b => ∃ a, Words ts a ∧ b = f a) s := by
  refine (h.bind (fun _ _ => .pure (f _) _) fun a => .of_words ⟨rfl, rfl⟩).mono ?_
  rintro _ b ⟨ts, a, _, ha, ⟨rfl, rfl⟩, rfl⟩
  exact ⟨a, by rwa [List.append_nil], rfl⟩

end Verdict

/-! ## Parsers that pinpoint what is wrong -/

/-- A parser that has a verdict on every stream, for words of which there are some. -/
structure Pinpoints (p : Parser α) (Words : List Token → α → Prop) : Prop where
  viable : Viable Words []
  verdict : ∀ s, Verdict p Words s

namespace Pinpoints

variable {p : Parser α} {Words : List Token → α → Prop}

/-- What is taken off a stream are words of the kind. -/
theorem sound (hp : p.Pinpoints Words) {s s' : TokenStream} {a : α} (h : p.run s = .ok a s') :
    ∃ ts, Words ts a ∧ s = ⟨ts ++ s'.tokens, s'.fault⟩ :=
  (hp.verdict s).sound h

/-- The same holds for more words. -/
theorem mono (hp : p.Pinpoints Words) {Words' : List Token → α → Prop}
    (hwords : ∀ ts a, Words ts a → Words' ts a) : p.Pinpoints Words' where
  viable := hp.viable.mono fun ts a ha => ⟨a, hwords ts a ha⟩
  verdict s := (hp.verdict s).mono hwords

/-- Words are read one after the other. -/
theorem bind (hp : p.Pinpoints Words) {q : α → Parser β} {Words' : α → List Token → β → Prop}
    (hq : ∀ a, (q a).Pinpoints (Words' a)) : (p >>= q).Pinpoints (InTurn Words Words') where
  viable := hp.viable.first fun a => (hq a).viable
  verdict s := (hp.verdict s).bind (fun _ _ => (hq _).verdict _) fun a => (hq a).viable

/-- What was read is turned into something else. -/
theorem map (hp : p.Pinpoints Words) (f : α → β) :
    (p >>= fun a => pure (f a)).Pinpoints fun ts b => ∃ a, Words ts a ∧ b = f a where
  viable := hp.viable.mono fun _ a ha => ⟨f a, a, ha, rfl⟩
  verdict s := (hp.verdict s).map f

end Pinpoints

/-! ## Single tokens -/

/-- The next token is read if it is accepted, and refused if not. -/
theorem pinpoints_next {q : Token → Parser α} {accepts : Token → Prop} {value : Token → α}
    (hsome : ∃ t, accepts t)
    (haccept : ∀ t s, accepts t → (q t).run s = .ok (value t) s)
    (hrefuse : ∀ t, ¬ accepts t → ∃ e : ParseError, e.found? = some t ∧
      ∀ s, (q t).run s = .error e s) :
    (next >>= q).Pinpoints (Single accepts value) := by
  have hviable : Viable (Single accepts value) [] := by
    obtain ⟨t, ht⟩ := hsome
    exact ⟨[t], value t, t, ht, rfl, rfl⟩
  refine ⟨hviable, fun s => ?_⟩
  obtain ⟨tokens, fault⟩ := s
  cases tokens with
  | nil =>
    refine .ended hviable ⟨none, .inl rfl, ?_⟩
    cases fault with
    | none => rfl
    | some e => rfl
  | cons t rest =>
    by_cases ht : accepts t
    · exact .read (s := ⟨rest, fault⟩) [t] ⟨t, ht, rfl, rfl⟩ fun s' _ => haccept t s' ht
    · obtain ⟨e, hfound, herror⟩ := hrefuse t ht
      exact .refused [] hviable hfound
        ⟨[], List.nil_suffix, fun rest' fault' => herror ⟨rest', fault'⟩⟩

/-- Nothing is read at the end, and elsewhere the verdict is that of what is done by way of the next
token, which stays in the stream. -/
theorem pinpoints_peek {q : Option Token → Parser α} {Words : List Token → α → Prop} {a : α}
    (habsent : q none = Pure.pure a) (hnone : Words [] a)
    (hpresent : ∀ t rest fault, Verdict (q (some t)) Words ⟨t :: rest, fault⟩) :
    (peek >>= q).Pinpoints Words := by
  refine ⟨.of_words hnone, fun s => ?_⟩
  obtain ⟨tokens, fault⟩ := s
  cases tokens with
  | nil =>
    cases fault with
    | some e => exact .ended (.of_words hnone) ⟨some e, .inr rfl, rfl⟩
    | none =>
      refine .read (s := ⟨[], none⟩) [] hnone fun s' hs' => ?_
      cases hs'
      show (q none).run _ = _
      rw [habsent]
      rfl
  | cons t rest => exact (hpresent t rest fault).of_head fun _ _ => rfl

/-! ## Optional and repeated parts -/

/-- A token that is accepted is taken. -/
theorem run_nextIf_cons {accepts : Token → Bool} {t : Token} (ht : accepts t = true)
    (rest : List Token) (fault : Option LexError) :
    (nextIf accepts).run ⟨t :: rest, fault⟩ = .ok (some t) ⟨rest, fault⟩ := by
  show (if accepts t then _ else _ : Parser (Option Token)).run _ = _
  rw [if_pos ht]
  rfl

/-- Nothing is taken if the next token is not accepted or there is none. -/
theorem run_nextIf_none {accepts : Token → Bool} {s : TokenStream}
    (h : ∀ t ∈ s.tokens.head?, accepts t = false) : (nextIf accepts).run s = .ok none s := by
  obtain ⟨tokens, fault⟩ := s
  cases tokens with
  | nil => rfl
  | cons t rest =>
    have ht : ¬ accepts t = true := by
      rw [h t rfl]
      decide
    show (if accepts t then _ else _ : Parser (Option Token)).run _ = _
    rw [if_neg ht]
    rfl

/-- An accepted token comes next, or none does. -/
theorem nextIf_cases (accepts : Token → Bool) (s : TokenStream) :
    (∀ t ∈ s.tokens.head?, accepts t = false) ∨
      ∃ t rest fault, accepts t = true ∧ s = ⟨t :: rest, fault⟩ := by
  obtain ⟨tokens, fault⟩ := s
  cases tokens with
  | nil => simp
  | cons t rest =>
    cases ht : accepts t with
    | false => exact .inl fun u hu => by rwa [← Option.some.inj hu]
    | true => exact .inr ⟨t, rest, fault, ht, rfl⟩

section Optional

variable {accepts : Token → Bool} {q : Option Token → Parser α}

/-- What is done if no accepted token comes next. -/
theorem run_nextIf_bind_none {s : TokenStream} (h : ∀ t ∈ s.tokens.head?, accepts t = false) :
    (nextIf accepts >>= q).run s = (q none).run s := by
  rw [EStateM.run_bind, run_nextIf_none h]

/-- What is done behind an accepted token. -/
theorem run_nextIf_bind_cons {t : Token} (ht : accepts t = true) (rest : List Token)
    (fault : Option LexError) :
    (nextIf accepts >>= q).run ⟨t :: rest, fault⟩ = (q (some t)).run ⟨rest, fault⟩ := by
  rw [EStateM.run_bind, run_nextIf_cons ht]

/-- An optional part is left out if no accepted token comes next. -/
theorem Verdict.absent {a : α} (habsent : q none = Pure.pure a) {s : TokenStream}
    (h : ∀ t ∈ s.tokens.head?, accepts t = false) :
    Verdict (nextIf accepts >>= q) (fun ts b => ts = [] ∧ b = a) s := by
  refine .read [] ⟨rfl, rfl⟩ fun s' hs' => ?_
  rw [← hs'.head?] at h
  rw [List.nil_append, run_nextIf_bind_none h, habsent]
  rfl

/-- A part that begins with an accepted token and may be left out: the verdict is that of the part
if such a token comes next. -/
theorem Verdict.optional {Words : Token → List Token → α → Prop} {a : α} {s : TokenStream}
    (habsent : q none = Pure.pure a)
    (hpresent : ∀ {t rest fault}, s = ⟨t :: rest, fault⟩ →
      Verdict (q (some t)) (Words t) ⟨rest, fault⟩) :
    Verdict (nextIf accepts >>= q)
      (fun ts b => ts = [] ∧ b = a ∨ ∃ t rest, accepts t = true ∧ Words t rest b ∧ ts = t :: rest)
      s := by
  rcases nextIf_cases accepts s with hnext | ⟨t, rest, fault, ht, rfl⟩
  · exact (Verdict.absent habsent hnext).mono fun _ _ => .inl
  · refine ((hpresent rfl).cons (run_nextIf_bind_cons ht)).mono ?_
    rintro ts b ⟨words, hwords, rfl⟩
    exact .inr ⟨t, words, ht, hwords, rfl⟩

/-- A part that begins with an accepted token may be left out. -/
theorem pinpoints_optional {Words : Token → List Token → α → Prop} {a : α}
    (habsent : q none = Pure.pure a) (hpresent : ∀ t, (q (some t)).Pinpoints (Words t)) :
    (nextIf accepts >>= q).Pinpoints fun ts b =>
      ts = [] ∧ b = a ∨ ∃ t rest, accepts t = true ∧ Words t rest b ∧ ts = t :: rest where
  viable := .of_words (.inl ⟨rfl, rfl⟩)
  verdict _ := .optional habsent fun _ => (hpresent _).verdict _

/-- An accepted token is taken only to be refused. -/
theorem pinpoints_excluded {a : α} (habsent : q none = Pure.pure a)
    (hpresent : ∀ t, ∃ e : ParseError, e.found? = some t ∧ q (some t) = throw e) :
    (nextIf accepts >>= q).Pinpoints fun ts b => ts = [] ∧ b = a where
  viable := .of_words ⟨rfl, rfl⟩
  verdict s := by
    rcases nextIf_cases accepts s with hnext | ⟨t, rest, fault, ht, rfl⟩
    · exact .absent habsent hnext
    · obtain ⟨e, hfound, hthrow⟩ := hpresent t
      refine .refused [] (.of_words ⟨rfl, rfl⟩) hfound
        ⟨[], List.nil_suffix, fun rest' fault' => ?_⟩
      rw [List.nil_append, run_nextIf_bind_cons ht, hthrow]
      rfl

end Optional

/-- Rounds of words, each behind an accepted token. -/
inductive Rounds (accepts : Token → Bool) (Words : Token → List Token → α → Prop) :
    List Token → List α → Prop
  | nil : Rounds accepts Words [] []
  | cons {t : Token} {ts rest : List Token} {a : α} {as : List α} (ht : accepts t = true)
      (hts : Words t ts a) (hrest : Rounds accepts Words rest as) :
      Rounds accepts Words (t :: (ts ++ rest)) (a :: as)

section Repetition

variable {accepts : Token → Bool} {round : Token → Parser α}
  {Words : Token → List Token → α → Prop}

/-- What comes second matters only behind what the first parser reads. -/
theorem run_bind_congr {p : Parser α} {q q' : α → Parser β} {s : TokenStream}
    (h : ∀ {a s'}, p.run s = .ok a s' → (q a).run s' = (q' a).run s') :
    (p >>= q).run s = (p >>= q').run s := by
  rw [EStateM.run_bind, EStateM.run_bind]
  cases hp : p.run s with
  | ok a s' => exact h hp
  | error e s' => rfl

/-- There are no rounds if no accepted token comes next. -/
theorem run_roundsOf_none {budget : List β} {s : TokenStream}
    (h : ∀ t ∈ s.tokens.head?, accepts t = false) :
    (roundsOf accepts round budget).run s = .ok [] s := by
  cases budget with
  | nil => rfl
  | cons b budget => exact run_nextIf_bind_none h

/-- A budget of one entry for each token of a stream is as good as any longer one. -/
theorem run_roundsOf_congr (hround : ∀ t, (round t).Pinpoints (Words t)) {budget : List β}
    {budget' : List γ} {s : TokenStream} (hbudget : s.tokens.length ≤ budget.length)
    (hbudget' : s.tokens.length ≤ budget'.length) :
    (roundsOf accepts round budget).run s = (roundsOf accepts round budget').run s := by
  -- induction on the budget: a round that is read uses up one of it and at least one token
  induction budget generalizing budget' s with
  | nil =>
    have hnone : s.tokens = [] := List.eq_nil_of_length_eq_zero (Nat.le_zero.1 hbudget)
    have hnext : ∀ t ∈ s.tokens.head?, accepts t = false := by simp [hnone]
    rw [run_roundsOf_none hnext, run_roundsOf_none hnext]
  | cons b budget ih =>
    rcases nextIf_cases accepts s with hnext | ⟨t, rest, fault, ht, rfl⟩
    · rw [run_roundsOf_none hnext, run_roundsOf_none hnext]
    cases budget' with
    | nil => simp at hbudget'
    | cons b' budget' =>
      rw [roundsOf, roundsOf, run_nextIf_bind_cons ht, run_nextIf_bind_cons ht]
      refine run_bind_congr fun {a s'} hround' => ?_
      obtain ⟨ts, -, hs⟩ := (hround t).sound hround'
      obtain ⟨rfl, -⟩ := TokenStream.mk.inj hs
      simp only [List.length_cons, List.length_append] at hbudget hbudget'
      have hle : s'.tokens.length ≤ budget.length := by omega
      have hle' : s'.tokens.length ≤ budget'.length := by omega
      rw [EStateM.run_bind, EStateM.run_bind, ih hle hle']

/-- Rounds are one round and further rounds if an accepted token comes next. -/
theorem many_eq (hround : ∀ t, (round t).Pinpoints (Words t)) :
    many accepts round = nextIf accepts >>= fun
      | none => Pure.pure []
      | some t => round t >>= fun a => many accepts round >>= fun as => Pure.pure (a :: as) := by
  funext s
  show (roundsOf accepts round s.tokens).run s = EStateM.run (nextIf accepts >>= _) s
  rcases nextIf_cases accepts s with hnext | ⟨t, rest, fault, ht, rfl⟩
  · rw [run_roundsOf_none hnext, run_nextIf_bind_none hnext]
    rfl
  · rw [roundsOf, run_nextIf_bind_cons ht, run_nextIf_bind_cons ht]
    refine run_bind_congr fun {a s'} hround' => ?_
    obtain ⟨ts, -, hs⟩ := (hround t).sound hround'
    obtain ⟨rfl, -⟩ := TokenStream.mk.inj hs
    have hmany : (many accepts round).run s' = (roundsOf accepts round (ts ++ s'.tokens)).run s' :=
      run_roundsOf_congr hround (Nat.le_refl _) (by simp)
    rw [EStateM.run_bind, EStateM.run_bind, hmany]

/-- Rounds are read for as long as an accepted token comes next. -/
theorem pinpoints_many (hround : ∀ t, (round t).Pinpoints (Words t)) :
    (many accepts round).Pinpoints (Rounds accepts Words) where
  viable := .of_words .nil
  verdict s := by
    -- induction on how many tokens are left, of which a round takes at least one
    generalize hlength : s.tokens.length = n
    induction n using Nat.strongRecOn generalizing s with
    | ind n ih =>
      rw [many_eq hround]
      have hpart : ∀ {t rest fault}, s = ⟨t :: rest, fault⟩ → Verdict
          (round t >>= fun a => many accepts round >>= fun as => Pure.pure (a :: as))
          (InTurn (Words t) fun a ts as' => ∃ as, Rounds accepts Words ts as ∧ as' = a :: as)
          ⟨rest, fault⟩ := by
        rintro t rest fault rfl
        refine ((hround t).verdict _).bind (fun {front a s'} _ hs' => ?_)
          fun a => .of_words ⟨[], .nil, rfl⟩
        obtain ⟨rfl, -⟩ := TokenStream.mk.inj hs'
        refine (ih s'.tokens.length ?_ s' rfl).map (a :: ·)
        rw [← hlength, List.length_cons, List.length_append]
        omega
      refine Verdict.mono (.optional rfl hpart) ?_
      rintro ts as (⟨rfl, rfl⟩ | ⟨t, rest, ht, ⟨front, a, back, hfront, ⟨others, hothers, rfl⟩,
        rfl⟩, rfl⟩)
      · exact .nil
      · exact .cons ht hfront hothers

end Repetition

end Parser

end SqlStore
