import SqlStore.Proofs.Text.Boundary
import SqlStore.Proofs.Token.Spelling

/-! # Where a lexer stands in a source

A lexer keeps what is left of its source, so the number of bytes in front of it is that of what it has
read:

* **`Lexer.StandsAt`** — a lexer stands behind a number of bytes of a source. It can do so wherever an
  ASCII character is (`Lexer.exists_standsAt`);
* **`Quoted.BeginsWith`** — a text begins with a quoted text and its closing delimiter;
* **`Quoted.read?_eq_some_iff`** — this is what is read as a quoted text, and nothing else;
* **`Lexer.reads_quoted_iff`** — the same for a lexer in a source, with the bytes and the columns that it
  moves on. -/

namespace SqlStore

/-! ## Bytes in front of a lexer -/

namespace Lexer

/-- A lexer stands in a source where a character begins or the source ends, with this number of bytes in
front of it. -/
def StandsAt (l : Lexer) (source : String) (pointer : Nat) : Prop :=
  ∃ before, source = before ++ String.ofList l.text ∧ (Utf8.encode before).length = pointer

/-- A lexer that has read some characters stands behind their bytes. -/
theorem StandsAt.forward {l l' : Lexer} {source : String} {pointer : Nat}
    (h : l.StandsAt source pointer) {cs : List Char} (hread : l.text = cs ++ l'.text) :
    l'.StandsAt source (pointer + (Utf8.encode (String.ofList cs)).length) := by
  obtain ⟨before, rfl, rfl⟩ := h
  refine ⟨before ++ String.ofList cs, ?_, ?_⟩
  · rw [hread, String.ofList_append, String.append_assoc]
  · rw [Utf8.encode_append, List.length_append]

/-- A lexer stands behind a number of bytes exactly if what it has left is what is left there. -/
theorem standsAt_iff {l : Lexer} {source : String} {pointer : Nat} :
    l.StandsAt source pointer ↔ Utf8.RestAt source pointer l.text := by
  constructor
  · rintro ⟨before, rfl, hsize⟩
    exact ⟨before.toList, by rw [String.toList_append, String.toList_ofList], hsize⟩
  · rintro ⟨before, hsource, hsize⟩
    refine ⟨String.ofList before, ?_, ?_⟩
    · rw [← String.ofList_append, ← hsource, String.ofList_toList]
    · rwa [Utf8.encode, String.toList_ofList]

/-- A lexer can stand wherever the byte of an ASCII character does. -/
theorem exists_standsAt {source : String} {pointer : Nat} {b : UInt8}
    (h : (Utf8.encode source)[pointer]? = some b) (hb : b.toNat < 128) :
    ∃ l : Lexer, l.StandsAt source pointer := by
  have htrailing : ¬ Utf8.IsTrailing b := fun htrailing => Nat.not_lt.2 htrailing.1 hb
  obtain ⟨text, htext⟩ := Utf8.isBoundary_iff_getElem?.2 (.inr ⟨b, h, htrailing⟩)
  exact ⟨⟨text, {}, none⟩, standsAt_iff.2 htext⟩

end Lexer

/-! ## Quoted texts -/

namespace Quoted

/-- Whether a text begins with the quoted form of `cs` and the quote is closed there: behind the closing
delimiter the text ends or goes on with another character. -/
def BeginsWith (q : Char) (cs text : List Char) : Prop :=
  ∃ rest, text = enclose q cs ++ rest ∧ rest.head? ≠ some q

/-- A quoted text is read exactly if the text begins with its quoted form, which is what it takes up. -/
theorem read?_eq_some_iff {q : Char} {text cs : List Char} {width : Nat} :
    read? q text = some (cs, width) ↔ BeginsWith q cs text ∧ width = (enclose q cs).length := by
  constructor
  · intro h
    obtain ⟨rest, htext, hrest, hwidth⟩ := append_of_read? h
    exact ⟨⟨rest, htext, hrest⟩, hwidth⟩
  · rintro ⟨⟨rest, rfl, hrest⟩, rfl⟩
    exact read?_enclose hrest cs

/-- Nothing is read exactly if the text begins with no quoted form. -/
theorem read?_eq_none_iff {q : Char} {text : List Char} :
    read? q text = none ↔ ∀ cs, ¬ BeginsWith q cs text := by
  constructor
  · intro h cs hcs
    rw [read?_eq_some_iff.2 ⟨hcs, rfl⟩] at h
    cases h
  · refine fun h => Option.eq_none_iff_forall_ne_some.2 fun found hfound => ?_
    exact h found.1 (read?_eq_some_iff.1 hfound).1

end Quoted

/-- Reading a quoted text is the exact inverse of writing one, for a lexer anywhere in a source. The text
`s` is read exactly if the source goes on with its quoted form and then ends or has a character other than
the delimiter, and nothing is read exactly if there is no such `s`. The lexer then answers with `s` and
stands behind the closing delimiter: it has moved on by the bytes of the quoted form and, in its line, by
the characters of it. -/
theorem Lexer.reads_quoted_iff {source : String} {pointer : Nat} {l : Lexer}
    (hl : l.StandsAt source pointer) {kind : TokenKind} {q : Char}
    (hq : kind = .string ∧ q = '\'' ∨ kind = .identifier ∧ q = '"') :
    (∀ (s : String) (width : Nat), Quoted.read? q l.text = some (s.toList, width) ↔
      Quoted.BeginsWith q s.toList l.text ∧ width = (Quoted.enclose q s.toList).length) ∧
    (Quoted.read? q l.text = none ↔ ¬ ∃ s : String, Quoted.BeginsWith q s.toList l.text) ∧
    ∀ s : String, Quoted.BeginsWith q s.toList l.text → ∃ l',
      l.next = (some (.ok ⟨kind, s, l.loc⟩), l') ∧
      l.text = Quoted.enclose q s.toList ++ l'.text ∧
      l'.StandsAt source
        (pointer + (Utf8.encode (String.ofList (Quoted.enclose q s.toList))).length) ∧
      l'.loc = l.loc.right (Quoted.enclose q s.toList).length := by
  refine ⟨fun s width => Quoted.read?_eq_some_iff, ?_, ?_⟩
  · rw [Quoted.read?_eq_none_iff, not_exists]
    constructor
    · exact fun h s => h s.toList
    · intro h cs hcs
      exact h (String.ofList cs) (by rwa [String.toList_ofList])
  · rintro s ⟨rest, htext, hrest⟩
    -- no rule in front of the one for the delimiter matches
    have hfirst : Lexeme.first? (Quoted.enclose q s.toList ++ rest)
        = some ⟨kind, s, (Quoted.enclose q s.toList).length⟩ := by
      rcases hq with ⟨rfl, rfl⟩ | ⟨rfl, rfl⟩
      · rw [Lexeme.first?_quotedText _ hrest, String.ofList_toList]
      · rw [Lexeme.first?_quotedName _ hrest, String.ofList_toList]
    have hnext := Lexer.nextFrom_front hfirst l.last l.loc
    rw [← htext] at hnext
    exact ⟨_, hnext, htext, hl.forward htext, rfl⟩

/-- A name behind four bytes, with a delimiter at its start and at its end, a character of two bytes and a
newline: the lexer moves on by nine bytes and eight columns. There a quote is opened and not closed. -/
theorem Lexer.reads_quoted_iff_doubled :
    ∃ l', (⟨"\"\"\"é\n\"\"\"'".toList, ⟨0, 3⟩, none⟩ : Lexer).next
        = (some (.ok ⟨.identifier, "\"é\n\"", ⟨0, 3⟩⟩), l') ∧
      l'.StandsAt "é, \"\"\"é\n\"\"\"'" 13 ∧ l'.loc = ⟨0, 11⟩ ∧
      ¬ ∃ s : String, Quoted.BeginsWith '\'' s.toList l'.text := by
  have hstands : (⟨"\"\"\"é\n\"\"\"'".toList, ⟨0, 3⟩, none⟩ : Lexer).StandsAt
      "é, \"\"\"é\n\"\"\"'" 4 := ⟨"é, ", rfl, by decide⟩
  have hname := Lexer.reads_quoted_iff hstands (.inr ⟨rfl, rfl⟩)
  obtain ⟨l', hnext, htext, hstands', hloc⟩ := hname.2.2 "\"é\n\"" ⟨['\''], by decide, by decide⟩
  have hrest : ['\''] = l'.text := by
    have hsplit : Quoted.enclose '"' "\"é\n\"".toList ++ ['\'']
        = Quoted.enclose '"' "\"é\n\"".toList ++ l'.text := htext
    exact List.append_cancel_left hsplit
  have hquote : TokenKind.string = .string ∧ '\'' = '\'' ∨ TokenKind.string = .identifier ∧ '\'' = '"' :=
    .inl ⟨rfl, rfl⟩
  exact ⟨l', hnext, hstands', hloc,
    (Lexer.reads_quoted_iff hstands' hquote).2.1.1 (by rw [← hrest]; rfl)⟩

end SqlStore
