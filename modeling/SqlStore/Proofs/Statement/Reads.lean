import SqlStore.Proofs.Statement.Verdict

/-! # Parsers that read words

* **`Parser.Reads p Words ends`** — `p` pinpoints what is no such words, and it takes such words off
  every stream in which they are followed by the end or by a token that `ends` allows;
* one rule for each way of building parsers: **`Reads.bind`**, **`Reads.map`**, **`reads_next`**,
  **`reads_optional`**, **`reads_excluded`**, **`reads_many`**,
  **`reads_commaSeparated`**, **`Reads.closed`**. -/

namespace SqlStore

namespace Parser

variable {α β : Type}

/-! ## Reading words -/

/-- One thing after another succeeds if each does. -/
theorem run_bind_eq_ok_iff {p : Parser α} {q : α → Parser β} {s s'' : TokenStream} {b : β} :
    (p >>= q).run s = .ok b s'' ↔ ∃ a s', p.run s = .ok a s' ∧ (q a).run s' = .ok b s'' := by
  rw [EStateM.run_bind]
  cases p.run s with
  | ok a s' =>
    constructor
    · intro h
      exact ⟨a, s', rfl, h⟩
    · rintro ⟨_, _, heq, h⟩
      cases heq
      exact h
  | error e s' =>
    constructor
    · intro h
      cases h
    · rintro ⟨_, _, heq, -⟩
      cases heq

/-- A parser reads words if it pinpoints what is wrong where there are none, and if it takes them
off every stream without a fault in which the next token, if there is one, may follow them. -/
structure Reads (p : Parser α) (Words : List Token → α → Prop) (ends : Token → Prop) : Prop
    extends Pinpoints p Words where
  complete : ∀ {ts a rest}, Words ts a → (∀ t ∈ rest.head?, ends t) →
    p.run ⟨ts ++ rest, none⟩ = .ok a ⟨rest, none⟩

namespace Reads

variable {p : Parser α} {Words : List Token → α → Prop} {ends : Token → Prop}

/-- The same words are read under another description, and where fewer tokens may follow. -/
theorem mono (hp : p.Reads Words ends) {Words' : List Token → α → Prop} {ends' : Token → Prop}
    (hwords : ∀ ts a, Words ts a ↔ Words' ts a) (hends : ∀ t, ends' t → ends t) :
    p.Reads Words' ends' where
  toPinpoints := hp.toPinpoints.mono fun ts a => (hwords ts a).1
  complete hts hrest := hp.complete ((hwords _ _).2 hts) fun t ht => hends t (hrest t ht)

/-- Words are read one after the other, if what follows the first ones may follow them. -/
theorem bind (hp : p.Reads Words ends) {q : α → Parser β} {Words' : α → List Token → β → Prop}
    {ends' : Token → Prop} (hq : ∀ a, (q a).Reads (Words' a) ends')
    (hnext : ∀ {a ts b rest}, Words' a ts b → (∀ t ∈ rest.head?, ends' t) →
      ∀ t ∈ (ts ++ rest).head?, ends t) :
    (p >>= q).Reads (InTurn Words Words') ends' where
  toPinpoints := hp.toPinpoints.bind fun a => (hq a).toPinpoints
  complete := by
    rintro _ b rest ⟨front, a, back, hfront, hback, rfl⟩ hrest
    -- what follows the first words are the second ones, or what follows those
    rw [run_bind_eq_ok_iff, List.append_assoc]
    exact ⟨a, _, hp.complete hfront (hnext hback hrest), (hq a).complete hback hrest⟩

/-- Words are read one after the other, if anything may follow the first ones. -/
theorem andThen (hp : p.Reads Words fun _ => True) {q : α → Parser β}
    {Words' : α → List Token → β → Prop} {ends' : Token → Prop}
    (hq : ∀ a, (q a).Reads (Words' a) ends') :
    (p >>= q).Reads (InTurn Words Words') ends' :=
  hp.bind hq fun _ _ _ _ => trivial

/-- What was read is turned into something else. -/
theorem map (hp : p.Reads Words ends) (f : α → β) :
    (p >>= fun a => pure (f a)).Reads (fun ts b => ∃ a, Words ts a ∧ b = f a) ends where
  toPinpoints := hp.toPinpoints.map f
  complete := by
    rintro ts _ rest ⟨a, ha, rfl⟩ hrest
    exact run_bind_eq_ok_iff.2 ⟨a, _, hp.complete ha hrest, rfl⟩

end Reads

/-! ## Single tokens -/

/-- The next token is taken if it is accepted. -/
theorem reads_next {q : Token → Parser α} {accepts : Token → Prop} {value : Token → α}
    (hsome : ∃ t, accepts t) (haccept : ∀ t s, accepts t → (q t).run s = .ok (value t) s)
    (hrefuse : ∀ t, ¬ accepts t → ∃ e : ParseError, e.found? = some t ∧
      ∀ s, (q t).run s = .error e s) :
    (next >>= q).Reads (Single accepts value) fun _ => True where
  toPinpoints := pinpoints_next hsome haccept hrefuse
  complete := by
    rintro _ _ rest ⟨t, ht, rfl, rfl⟩ -
    exact haccept t ⟨rest, none⟩ ht

/-- A reserved word is taken. -/
theorem reads_expectKeyword (k : Keyword) :
    (expectKeyword k).Reads (Single (·.isKeyword k = true) fun _ => ()) fun _ => True := by
  apply reads_next
  · exact ⟨⟨.keyword, k.spelling, {}⟩, Token.isKeyword_iff.2 ⟨rfl, rfl⟩⟩
  · intro t s ht
    simp only [ht]
    rfl
  · intro t ht
    simp only [ht]
    exact ⟨.expectedKeyword k t, rfl, fun _ => rfl⟩

/-- A symbol is taken. -/
theorem reads_expectSymbol (symbol : Symbol) :
    (expectSymbol symbol).Reads (Single (·.isSymbol symbol = true) fun _ => ()) fun _ => True := by
  apply reads_next
  · exact ⟨⟨.symbol, symbol.spelling, {}⟩, Token.isSymbol_iff.2 ⟨rfl, rfl⟩⟩
  · intro t s ht
    simp only [ht]
    rfl
  · intro t ht
    simp only [ht]
    exact ⟨.expectedSymbol symbol t, rfl, fun _ => rfl⟩

/-! ## Optional and repeated parts -/

/-- A part that begins with an accepted token may be left out. -/
theorem reads_optional {accepts : Token → Bool} {q : Option Token → Parser α} {a : α}
    {Words : Token → List Token → α → Prop} {ends : Token → Prop} (habsent : q none = pure a)
    (hpresent : ∀ t, (q (some t)).Reads (Words t) ends) :
    (nextIf accepts >>= q).Reads
      (fun ts b => ts = [] ∧ b = a ∨ ∃ t rest, accepts t = true ∧ Words t rest b ∧ ts = t :: rest)
      (fun t => ends t ∧ accepts t = false) where
  toPinpoints := pinpoints_optional habsent fun t => (hpresent t).toPinpoints
  complete {ts b rest} hts hrest := by
    rcases hts with ⟨rfl, rfl⟩ | ⟨t, words, ht, hwords, rfl⟩
    · rw [List.nil_append, run_nextIf_bind_none fun t ht => (hrest t ht).2, habsent]
      rfl
    · exact (run_nextIf_bind_cons ht _ _).trans
        ((hpresent t).complete hwords fun t ht => (hrest t ht).1)

/-- Nothing is taken in front of a token that is only refused. -/
theorem reads_excluded {accepts : Token → Bool} {q : Option Token → Parser α} {a : α}
    (habsent : q none = pure a)
    (hpresent : ∀ t, ∃ e : ParseError, e.found? = some t ∧ q (some t) = throw e) :
    (nextIf accepts >>= q).Reads (fun ts b => ts = [] ∧ b = a) (fun t => accepts t = false) where
  toPinpoints := pinpoints_excluded habsent hpresent
  complete := by
    rintro _ _ rest ⟨rfl, rfl⟩ hrest
    rw [List.nil_append, run_nextIf_bind_none hrest, habsent]
    rfl

/-- A round may be added behind the others. -/
theorem Rounds.concat {accepts : Token → Bool} {Words : Token → List Token → α → Prop}
    {ts words : List Token} {as : List α} (h : Rounds accepts Words ts as) {t : Token} {a : α}
    (ht : accepts t = true) (hwords : Words t words a) :
    Rounds accepts Words (ts ++ t :: words) (as ++ [a]) := by
  induction h with
  | nil =>
    have hlast : Rounds accepts Words (t :: (words ++ [])) [a] := .cons ht hwords .nil
    rwa [List.append_nil] at hlast
  | cons hfirst hts hrest ih =>
    rw [List.cons_append, List.append_assoc]
    exact .cons hfirst hts ih

/-- What follows an earlier part is the token of a round, or what follows the rounds if there are
none. -/
theorem Rounds.forall_head? {accepts : Token → Bool} {Words : Token → List Token → α → Prop}
    {ts : List Token} {as : List α} (h : Rounds accepts Words ts as) {ends : Token → Prop}
    (haccepts : ∀ t, accepts t = true → ends t) {rest : List Token}
    (hrest : ∀ t ∈ rest.head?, ends t) : ∀ t ∈ (ts ++ rest).head?, ends t := by
  cases h with
  | nil => exact hrest
  | cons ht hts hothers =>
    intro t' ht'
    obtain rfl := Option.some.inj ht'
    exact haccepts _ ht

section Rounds

variable {accepts : Token → Bool} {round : Token → Parser α}
  {Words : Token → List Token → α → Prop} {ends : Token → Prop}

/-- Rounds are read up to a token that is not accepted. -/
theorem reads_many (hround : ∀ t, (round t).Reads (Words t) ends)
    (haccepts : ∀ t, accepts t = true → ends t) :
    (many accepts round).Reads (Rounds accepts Words) fun t => ends t ∧ accepts t = false where
  toPinpoints := pinpoints_many fun t => (hround t).toPinpoints
  complete {ts as rest} hts hrest := by
    induction hts with
    | nil =>
      rw [many_eq fun t => (hround t).toPinpoints, List.nil_append,
        run_nextIf_bind_none fun t ht => (hrest t ht).2]
      rfl
    | @cons t ts others a as ht hts hothers ih =>
      -- behind a round comes the token of the next one, or what follows all of them
      have hfirst := (hround t).complete hts
        (hothers.forall_head? haccepts fun t ht => (hrest t ht).1)
      rw [many_eq fun t => (hround t).toPinpoints, List.cons_append, List.append_assoc,
        run_nextIf_bind_cons ht]
      refine run_bind_eq_ok_iff.2 ⟨a, _, hfirst, ?_⟩
      exact run_bind_eq_ok_iff.2 ⟨as, _, ih, rfl⟩

end Rounds

/-! ## Lists -/

open Grammar

/-- A list with commas is a first item and rounds behind commas. -/
theorem commaList_iff {Item : List Token → α → Prop} {ts : List Token} {xs : List α} :
    CommaList Item ts xs ↔ ∃ front x back others, Item front x ∧
      Rounds (·.isSymbol .comma) (fun _ => Item) back others ∧ xs = x :: others ∧
        ts = front ++ back := by
  constructor
  · intro h
    induction h with
    | @one ts x hx => exact ⟨ts, x, [], [], hx, .nil, rfl, (List.append_nil ts).symm⟩
    | @cons ts x comma rest xs hx hcomma hxs ih =>
      obtain ⟨front, y, back, others, hy, hothers, rfl, rfl⟩ := ih
      exact ⟨ts, x, comma :: (front ++ back), y :: others, hx, .cons hcomma hy hothers, rfl, rfl⟩
  · rintro ⟨front, x, back, others, hx, hothers, rfl, rfl⟩
    induction hothers generalizing front x with
    | nil =>
      rw [List.append_nil]
      exact .one hx
    | cons hcomma hy hothers ih => exact .cons hx hcomma (ih _ _ hy)

/-- Items with commas between them are read, up to a token that is no comma. -/
theorem reads_commaSeparated {item : Parser α} {Item : List Token → α → Prop} {ends : Token → Prop}
    (hitem : item.Reads Item ends) (hcomma : ∀ t : Token, t.isSymbol .comma = true → ends t) :
    (commaSeparated item).Reads (CommaList Item) fun t => ends t ∧ t.isSymbol .comma = false := by
  have hmany : (many (·.isSymbol .comma) fun _ => item).Reads
      (Rounds (·.isSymbol .comma) fun _ => Item) fun t => ends t ∧ t.isSymbol .comma = false :=
    reads_many (fun _ => hitem) hcomma
  have hraw := hitem.bind (fun x => hmany.map (x :: ·)) fun {x ts xs rest} hwords hrest => by
    obtain ⟨others, hothers, -⟩ := hwords
    exact hothers.forall_head? hcomma fun t ht => (hrest t ht).1
  refine hraw.mono (fun ts xs => ?_) fun _ => id
  rw [commaList_iff]
  constructor
  · rintro ⟨front, x, back, hx, ⟨others, hothers, rfl⟩, rfl⟩
    exact ⟨front, x, back, others, hx, hothers, rfl, rfl⟩
  · rintro ⟨front, x, back, others, hx, hothers, rfl, rfl⟩
    exact ⟨front, x, back, hx, ⟨others, hothers, rfl⟩, rfl⟩

/-- Words in parentheses are read up to the closing one. -/
theorem Reads.closed {p : Parser α} {Words : List Token → α → Prop} {ends : Token → Prop}
    (hp : p.Reads Words ends) (hclose : ∀ t : Token, t.isSymbol .closeParen = true → ends t)
    (f : α → β) :
    Reads (do let x ← p; expectSymbol .closeParen; return f x)
      (fun ts b => ∃ inner x close, Words inner x ∧ close.isSymbol .closeParen = true ∧
        ts = inner ++ [close] ∧ b = f x) fun _ => True := by
  have hraw := hp.bind (fun x => (reads_expectSymbol .closeParen).map fun _ => f x)
    fun {x ts b rest} hwords hrest t ht => by
      obtain ⟨_, ⟨close, hsymbol, rfl, rfl⟩, -⟩ := hwords
      obtain rfl := Option.some.inj ht
      exact hclose _ hsymbol
  refine hraw.mono (fun ts b => ?_) fun _ => id
  constructor
  · rintro ⟨inner, x, _, hx, ⟨_, ⟨close, hsymbol, rfl, rfl⟩, rfl⟩, rfl⟩
    exact ⟨inner, x, close, hx, hsymbol, rfl, rfl⟩
  · rintro ⟨inner, x, close, hx, hsymbol, rfl, rfl⟩
    exact ⟨inner, x, [close], hx, ⟨(), ⟨close, hsymbol, rfl, rfl⟩, rfl⟩, rfl⟩

end Parser

end SqlStore
