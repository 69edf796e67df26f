import SqlStore.Proofs.Token.Cursor
import SqlStore.Proofs.Token.LetterCase
import SqlStore.Proofs.Token.LongestOption

/-! # Words without quotes

A reserved word needs nothing behind it that separates it, so a name that begins with one is split:

* **`Lexeme.IsWord`** — a word at the front of a text, up to where it ends;
* **`Keyword.Begins`** and **`Keyword.LongestIn`** — the reserved words that a word begins with, and the
  longest of them;
* **`Lexeme.first?_of_longestIn`** and **`Lexeme.first?_of_not_begins`** — the longest one is read, and
  without any the whole word is a name;
* **`Lexer.reads_word`** — the same for a lexer in a source. -/

namespace SqlStore

/-! ## Reserved words at the front of a word -/

namespace Keyword

/-- Whether a word in lower case begins with a reserved word. -/
def Begins (k : Keyword) (w : List Char) : Prop := k.spelling.toList <+: w.map Char.toLower

instance (k : Keyword) (w : List Char) : Decidable (k.Begins w) :=
  inferInstanceAs (Decidable (k.spelling.toList <+: w.map Char.toLower))

/-- Whether a reserved word is the longest that a word in lower case begins with. -/
structure LongestIn (k : Keyword) (w : List Char) : Prop where
  begins : k.Begins w
  longest : ∀ k' : Keyword, k'.Begins w → k'.spelling.length ≤ k.spelling.length

variable {k : Keyword} {w : List Char}

/-- The longest reserved word is the longest of all options. -/
theorem LongestIn.isLongest (h : k.LongestIn w) : IsLongest (all.map spelling) w k.spelling where
  mem := List.mem_map.2 ⟨k, k.mem_all, rfl⟩
  ne_empty := by cases k <;> decide
  opens := h.begins
  longest option hoption hopens := by
    obtain ⟨k', -, rfl⟩ := List.mem_map.1 hoption
    exact h.longest k' hopens

/-- Of the reserved words that a word begins with one is the longest. -/
theorem exists_longestIn (h : k.Begins w) : ∃ k' : Keyword, k'.LongestIn w := by
  have hk : k.spelling ∈ all.map spelling := List.mem_map.2 ⟨k, k.mem_all, rfl⟩
  cases hread : longestMatch (all.map spelling) w with
  | none =>
    have hempty := longestMatch_eq_none_iff.1 hread k.spelling hk h
    cases k <;> exact absurd hempty (by decide)
  | some word =>
    have hword := longestMatch_eq_some_iff.1 hread
    obtain ⟨k', -, rfl⟩ := List.mem_map.1 hword.mem
    exact ⟨k', hword.opens,
      fun other hother => hword.longest _ (List.mem_map.2 ⟨other, other.mem_all, rfl⟩) hother⟩

/-- A word that begins with a reserved word has a front of its length. -/
theorem Begins.exists_append (h : k.Begins w) :
    ∃ front back, w = front ++ back ∧ front.length = k.spelling.length := by
  have hle : k.spelling.length ≤ w.length := by
    have hlength := h.length_le
    rwa [List.length_map, String.length_toList] at hlength
  exact ⟨_, _, (List.take_append_drop k.spelling.length w).symm, List.length_take_of_le hle⟩

end Keyword

namespace Lexeme

/-! ## Words -/

/-- Whether a character may stand in a word behind its first letter. -/
def InWord (c : Char) : Prop := c.isAlphanum = true ∨ c = '$' ∨ c = '_'

instance : DecidablePred InWord := fun c =>
  inferInstanceAs (Decidable (c.isAlphanum = true ∨ c = '$' ∨ c = '_'))

/-- Whether a word ends in front of the rest of a text: it has a letter and then letters, digits, dollar
signs and underscores, and none of these goes on. -/
structure IsWord (w rest : List Char) : Prop where
  starts : ∃ c ∈ w.head?, c.isAlpha = true
  parts : ∀ c ∈ w, InWord c
  ends : ∀ c ∈ rest.head?, ¬ InWord c

/-- A name goes on with these characters and no others. -/
theorem isNamePart_iff {c : Char} : isNamePart c = true ↔ InWord c := by
  simp [isNamePart, InWord, or_assoc]

/-- Letters are ASCII. -/
theorem toNat_lt_of_isAlpha {c : Char} (h : c.isAlpha = true) : c.toNat < 128 := by
  rcases Bool.or_eq_true_iff.1 h with hupper | hlower
  · have hrange := of_decide_eq_true hupper
    exact Nat.lt_of_le_of_lt (UInt32.le_iff_toNat_le.1 hrange.2) (by decide)
  · have hrange := of_decide_eq_true (Bool.and_eq_true_iff.1 hlower).2
    exact Nat.lt_of_le_of_lt (UInt32.le_iff_toNat_le.1 hrange) (by decide)

/-- The characters of a word are ASCII. -/
theorem InWord.toNat_lt {c : Char} (h : InWord c) : c.toNat < 128 := by
  rcases h with h | rfl | rfl
  · rcases Bool.or_eq_true_iff.1 h with halpha | hdigit
    · exact toNat_lt_of_isAlpha halpha
    · exact toNat_lt_of_isDigit hdigit
  · decide
  · decide

variable {w rest : List Char}

/-- A word is read as a bare name. -/
theorem IsWord.bareName?_eq (h : IsWord w rest) : bareName? (w ++ rest)
    = some ⟨.identifier, String.ofList (w.map Char.toLower), w.length⟩ := by
  obtain ⟨c, hc, halpha⟩ := h.starts
  obtain ⟨cs, rfl⟩ := List.head?_eq_some_iff.1 hc
  have hrun : (cs ++ rest).takeWhile isNamePart = cs :=
    (takeWhile_append_run (fun d hd => isNamePart_iff.2 (h.parts d (List.mem_cons_of_mem c hd)))
      fun d hd => Bool.eq_false_iff.2 (mt isNamePart_iff.1 (h.ends d hd))).1
  rw [List.cons_append, bareName?, if_pos halpha, hrun]

/-- Behind a word no reserved word goes on. -/
theorem IsWord.keyword?_eq (h : IsWord w rest) : keyword? (w ++ rest) = keyword? w := by
  refine keyword?_append (fun c hc => ?_) w
  rw [isAlpha_toLower]
  exact Bool.eq_false_iff.2 fun halpha => h.ends c hc (.inl (by simp [Char.isAlphanum, halpha]))

/-- The longest reserved word that a word begins with is read. -/
theorem first?_of_longestIn {k : Keyword} (h : IsWord w rest) (hk : k.LongestIn w) :
    first? (w ++ rest) = some ⟨.keyword, k.spelling, k.spelling.length⟩ := by
  have hkeyword : keyword? (w ++ rest) = some ⟨.keyword, k.spelling, k.spelling.length⟩ := by
    rw [h.keyword?_eq, keyword?, longestMatch_eq_some_iff.2 hk.isLongest, Option.map_some]
  rw [first?, hkeyword]
  rfl

/-- A word that begins with no reserved word is read as a name. -/
theorem first?_of_not_begins (h : IsWord w rest) (hnone : ∀ k : Keyword, ¬ k.Begins w) :
    first? (w ++ rest) = some ⟨.identifier, String.ofList (w.map Char.toLower), w.length⟩ := by
  have hkeyword : keyword? (w ++ rest) = none := by
    rw [h.keyword?_eq, keyword?, Option.map_eq_none_iff, longestMatch_eq_none_iff]
    intro option hoption hopens
    obtain ⟨k, -, rfl⟩ := List.mem_map.1 hoption
    exact absurd hopens (hnone k)
  have hsymbol : symbol? (w ++ rest) = none := by
    obtain ⟨c, hc, halpha⟩ := h.starts
    obtain ⟨cs, rfl⟩ := List.head?_eq_some_iff.1 hc
    refine symbol?_eq_none (fun s hmem => ?_) _
    have hall : s.spelling.toList.all (fun c => !c.isAlpha) = true := by
      cases s <;> rfl
    have hmark := List.all_eq_true.1 hall _ hmem
    rw [isAlpha_toLower, halpha] at hmark
    cases hmark
  exact first?_of_bareName? h.bareName?_eq hkeyword hsymbol

/-- No lexeme begins with a dollar sign or an underscore. -/
theorem noPiece_of_head? {c : Char} {text : List Char} (hc : c ∈ text.head?) (h : c = '$' ∨ c = '_') :
    NoPiece text := by
  obtain ⟨others, rfl⟩ := List.head?_eq_some_iff.1 hc
  refine ⟨List.cons_ne_nil _ _, ?_, ?_⟩
  · rintro d ⟨⟩ hblank
    rcases h with rfl | rfl <;> exact absurd hblank (by decide)
  · rcases h with rfl | rfl <;>
      exact first?_eq_none (by decide) (by intro s; cases s <;> decide) (by decide) (by decide) others

end Lexeme

namespace Lexer

/-- What a lexer reads where a word without quotes stands, anywhere in a source. The whole word is read as
a name, in lower case, exactly if it begins with no reserved word. Otherwise the longest reserved word that
it begins with is read, and the lexer goes on inside the word, behind as many bytes and columns as that
has. There it fails if the rest of the word begins with a dollar sign or an underscore. -/
theorem reads_word {source : String} {pointer : Nat} {l : Lexer} (hl : l.StandsAt source pointer)
    {w rest : List Char} (htext : l.text = w ++ rest) (hw : Lexeme.IsWord w rest) :
    ((∃ l', l.next = (some (.ok ⟨.identifier, String.ofList (w.map Char.toLower), l.loc⟩), l') ∧
        l'.text = rest ∧ l'.StandsAt source (pointer + w.length) ∧ l'.loc = l.loc.right w.length)
      ↔ ∀ k : Keyword, ¬ k.Begins w) ∧
    ((∃ k : Keyword, k.Begins w) → ∃ (k : Keyword) (front back : List Char) (l' : Lexer),
      k.LongestIn w ∧ w = front ++ back ∧ front.length = k.spelling.length ∧
      l.next = (some (.ok ⟨.keyword, k.spelling, l.loc⟩), l') ∧ l'.text = back ++ rest ∧
      l'.StandsAt source (pointer + k.spelling.length) ∧ l'.loc = l.loc.right k.spelling.length ∧
      ((∃ c ∈ back.head?, c = '$' ∨ c = '_') →
        l'.next = (some (.error ⟨l'.loc, some k.spelling⟩), ⟨[], l'.loc, some k.spelling⟩))) := by
  obtain ⟨text, loc, last⟩ := l
  subst htext
  have hbytes : ∀ cs : List Char, (∀ c ∈ cs, c ∈ w) →
      (Utf8.encode (String.ofList cs)).length = cs.length :=
    fun cs hcs => Utf8.length_encode_of_lt fun c hc => (hw.parts c (hcs c hc)).toNat_lt
  have hkeyword : (∃ k : Keyword, k.Begins w) → ∃ (k : Keyword) (front back : List Char),
      k.LongestIn w ∧ w = front ++ back ∧ front.length = k.spelling.length ∧
      (Lexer.mk (w ++ rest) loc last).next = (some (.ok ⟨.keyword, k.spelling, loc⟩),
        ⟨back ++ rest, loc.right k.spelling.length, some k.spelling⟩) := by
    rintro ⟨k, hk⟩
    obtain ⟨k, hk⟩ := Keyword.exists_longestIn hk
    obtain ⟨front, back, rfl, hfront⟩ := hk.begins.exists_append
    have hfirst := Lexeme.first?_of_longestIn hw hk
    rw [List.append_assoc, ← hfront] at hfirst
    have hnext := nextFrom_front hfirst last loc
    rw [← List.append_assoc, hfront] at hnext
    exact ⟨k, front, back, hk, rfl, hfront, hnext⟩
  refine ⟨⟨?_, fun hnone => ?_⟩, fun hbegins => ?_⟩
  · rintro ⟨l', hname, -⟩ k hk
    obtain ⟨k, front, back, -, -, -, hnext⟩ := hkeyword ⟨k, hk⟩
    rw [hnext] at hname
    cases hname
  · have hnext := nextFrom_front (Lexeme.first?_of_not_begins hw hnone) last loc
    exact ⟨_, hnext, rfl, hbytes w (fun c hc => hc) ▸ hl.forward rfl, rfl⟩
  · obtain ⟨k, front, back, hk, rfl, hfront, hnext⟩ := hkeyword hbegins
    have hlength := (hbytes front fun c hc => List.mem_append_left _ hc).trans hfront
    refine ⟨k, front, back, _, hk, rfl, hfront, hnext, rfl, ?_, rfl, ?_⟩
    · exact hlength ▸ hl.forward (List.append_assoc front back rest)
    · rintro ⟨c, hc, hinside⟩
      obtain ⟨others, rfl⟩ := List.head?_eq_some_iff.1 hc
      exact nextFrom_noPiece (Lexeme.noPiece_of_head? rfl hinside)

/-- Behind a character of two bytes, `INTO$1` is read as the longer of two reserved words, and the lexer
fails behind it. `Users_1` begins with none. -/
theorem reads_word_reserved :
    (∃ l', (⟨"INTO$1)".toList, ⟨0, 1⟩, none⟩ : Lexer).next
        = (some (.ok ⟨.keyword, "into", ⟨0, 1⟩⟩), l') ∧ l'.StandsAt "éINTO$1)" 6 ∧
      l'.next = (some (.error ⟨⟨0, 5⟩, some "into"⟩), ⟨[], ⟨0, 5⟩, some "into"⟩)) ∧
    ∃ l', (⟨"Users_1)".toList, ⟨0, 1⟩, none⟩ : Lexer).next
        = (some (.ok ⟨.identifier, "users_1", ⟨0, 1⟩⟩), l') ∧ l'.StandsAt "éUsers_1)" 9 := by
  constructor
  · have hstands : (⟨"INTO$1)".toList, ⟨0, 1⟩, none⟩ : Lexer).StandsAt "éINTO$1)" 2 :=
      ⟨"é", rfl, by decide⟩
    have hparts : "INTO$1".toList.all Lexeme.isNamePart = true := rfl
    have hword : Lexeme.IsWord "INTO$1".toList ")".toList :=
      ⟨⟨'I', rfl, rfl⟩, fun c hc => Lexeme.isNamePart_iff.1 (List.all_eq_true.1 hparts c hc),
        by rintro c ⟨⟩; decide⟩
    obtain ⟨k, front, back, l', hk, hsplit, hfront, hnext, htext, hstands', hloc, hfault⟩ :=
      (reads_word hstands rfl hword).2 ⟨.into, by decide⟩
    -- `int` is shorter
    obtain rfl : k = .into := by
      have hbegins := hk.begins
      have hlonger := hk.longest .into (by decide)
      revert hbegins hlonger
      cases k <;> decide
    obtain ⟨rfl, rfl⟩ : "INTO".toList = front ∧ "$1".toList = back :=
      List.append_inj hsplit hfront.symm
    refine ⟨l', hnext, hstands', ?_⟩
    have hnext' := hfault ⟨'$', rfl, .inl rfl⟩
    rwa [hloc] at hnext'
  · have hstands : (⟨"Users_1)".toList, ⟨0, 1⟩, none⟩ : Lexer).StandsAt "éUsers_1)" 2 :=
      ⟨"é", rfl, by decide⟩
    have hparts : "Users_1".toList.all Lexeme.isNamePart = true := rfl
    have hword : Lexeme.IsWord "Users_1".toList ")".toList :=
      ⟨⟨'U', rfl, rfl⟩, fun c hc => Lexeme.isNamePart_iff.1 (List.all_eq_true.1 hparts c hc),
        by rintro c ⟨⟩; decide⟩
    obtain ⟨l', hnext, -, hstands', -⟩ :=
      (reads_word hstands rfl hword).1.2 (by intro k; cases k <;> decide)
    exact ⟨l', hnext, hstands'⟩

end Lexer

end SqlStore
