import SqlStore.Proofs.Token.ByteNumber
import SqlStore.Proofs.Token.Concatenation
import SqlStore.Proofs.Token.Cursor
import SqlStore.Proofs.Token.Pieces
import Mathlib.Data.List.Basic

/-! # The longest number at the front of a text

A number is a mantissa and an exponent. Of all numbers at the front of a text the longest one is read, or
none of them:

* **`Lexeme.IsNumber`** — the form of a number. `IsNumber.char` says what characters it has where;
* **`Lexeme.LongestNumber`** — the longest number at the front of a text, which may be empty if there is
  none. Each text has one (`exists_longestNumber`);
* **`Lexeme.StandsFree`** — when the longest number is read: `LongestNumber.numeric?_eq` and, for the
  other direction, `LongestNumber.standsFree`;
* **`ByteLexer.numeric_longest`** — so of the bytes of a source the same number is read or none;
* **`Lexer.reads_longestNumber`** — what a lexer reads where a number may stand. -/

namespace SqlStore

namespace Lexeme

/-! ## The form of a number -/

/-- A mantissa and then an exponent, which may be missing. -/
def IsNumber (cs : List Char) : Prop :=
  ∃ head tail, IsMantissa head ∧ IsExponent tail ∧ cs = head ++ tail

/-- A mantissa has digits and points. -/
theorem IsMantissa.mem {cs : List Char} (h : IsMantissa cs) {c : Char} (hc : c ∈ cs) :
    c.isDigit = true ∨ c = '.' := by
  cases h with
  | digits hne hwhole => exact .inl (hwhole c hc)
  | point hwhole hfraction =>
    rcases List.mem_append.1 hc with hc | hc
    · exact .inl (hwhole c hc)
    · rcases List.mem_cons.1 hc with rfl | hc
      · exact .inr rfl
      · exact .inl (hfraction c hc)

/-- A number ends with an `e` exactly if there is nothing else in its exponent. -/
theorem getLast?_eq_marker_iff {head tail : List Char} (hhead : IsMantissa head)
    (htail : IsExponent tail) : (head ++ tail).getLast? = some 'e' ↔ tail = ['e'] := by
  constructor
  · intro hlast
    cases htail with
    | none =>
      rw [List.append_nil] at hlast
      exact absurd (hhead.mem (List.mem_of_getLast? hlast)) (by decide)
    | @unsigned ds hds =>
      cases ds with
      | nil => rfl
      | cons d ds =>
        rw [List.getLast?_append_of_ne_nil _ (List.cons_ne_nil _ _), List.getLast?_cons_cons] at hlast
        exact absurd (List.mem_of_getLast? hlast) (not_mem_of_digits rfl hds)
    | @signed sign ds hsign hds =>
      rw [List.getLast?_append_of_ne_nil _ (List.cons_ne_nil _ _), List.getLast?_cons_cons] at hlast
      rcases List.mem_cons.1 (List.mem_of_getLast? hlast) with rfl | hmem
      · exact absurd hsign (by decide)
      · exact absurd hmem (not_mem_of_digits rfl hds)
  · rintro rfl
    exact List.getLast?_concat

/-- A character of a text stands in front of another one, at the same place, or behind it. -/
theorem place_cases {before after front back : List Char} {c d : Char}
    (h : before ++ c :: after = front ++ d :: back) :
    c ∈ front ∨ c = d ∧ before = front ∨ c ∈ back := by
  rcases List.append_eq_append_iff.1 h with ⟨more, rfl, hback⟩ | ⟨more, rfl, hback⟩
  · cases more with
    | nil => exact .inr (.inl ⟨(List.cons.inj hback).1, (List.append_nil _).symm⟩)
    | cons x more =>
      obtain rfl : c = x := (List.cons.inj hback).1
      exact .inl (List.mem_append_right _ List.mem_cons_self)
  · cases more with
    | nil => exact .inr (.inl ⟨(List.cons.inj hback).1.symm, List.append_nil _⟩)
    | cons x more =>
      have hc : c ∈ more ++ c :: after := List.mem_append_right _ List.mem_cons_self
      exact .inr (.inr ((List.cons.inj hback).2 ▸ hc))

/-- The characters of a number are digits, points and an `e`, and a sign right behind the `e`. -/
theorem IsNumber.char {before after : List Char} {c : Char} (h : IsNumber (before ++ c :: after)) :
    c.isDigit = true ∨ c = '.' ∨ c = 'e' ∨
      (c = '+' ∨ c = '-') ∧ before.getLast? = some 'e' := by
  obtain ⟨head, tail, hhead, htail, hcs⟩ := h
  have hmem : c ∈ head ++ tail := hcs ▸ List.mem_append_right _ List.mem_cons_self
  have hplain : c ∈ head → c.isDigit = true ∨ c = '.' ∨ c = 'e' ∨
      (c = '+' ∨ c = '-') ∧ before.getLast? = some 'e' := by
    intro hc
    rcases hhead.mem hc with hdigit | hpoint
    · exact .inl hdigit
    · exact .inr (.inl hpoint)
  cases htail with
  | none => exact hplain (by rwa [List.append_nil] at hmem)
  | @unsigned ds hds =>
    rcases List.mem_append.1 hmem with hc | hc
    · exact hplain hc
    · rcases List.mem_cons.1 hc with rfl | hc
      · exact .inr (.inr (.inl rfl))
      · exact .inl (hds c hc)
  | @signed sign ds hsign hds =>
    have hsplit : before ++ c :: after = (head ++ ['e']) ++ sign :: ds := by
      rw [hcs, List.append_assoc]
      rfl
    rcases place_cases hsplit with hc | ⟨rfl, rfl⟩ | hc
    · rcases List.mem_append.1 hc with hc | hc
      · exact hplain hc
      · exact .inr (.inr (.inl (List.mem_singleton.1 hc)))
    · exact .inr (.inr (.inr ⟨hsign, List.getLast?_concat⟩))
    · exact .inl (hds c hc)

/-- A number goes on with any digit. -/
theorem IsNumber.concat_digit {cs : List Char} (h : IsNumber cs) {d : Char} (hd : d.isDigit = true) :
    IsNumber (cs ++ [d]) := by
  have hdigits : ∀ {ds : List Char}, (∀ x ∈ ds, x.isDigit = true) →
      ∀ x ∈ ds ++ [d], x.isDigit = true :=
    fun hds => List.forall_mem_append.2 ⟨hds, List.forall_mem_singleton.2 hd⟩
  obtain ⟨head, tail, hhead, htail, rfl⟩ := h
  cases htail with
  | none =>
    cases hhead with
    | digits hne hwhole =>
      exact ⟨_, [], .digits (List.append_ne_nil_of_left_ne_nil hne _) (hdigits hwhole), .none,
        by simp⟩
    | point hwhole hfraction =>
      exact ⟨_, [], .point hwhole (hdigits hfraction), .none, by simp⟩
  | unsigned hds => exact ⟨head, _, hhead, .unsigned (hdigits hds), by simp⟩
  | signed hsign hds => exact ⟨head, _, hhead, .signed hsign (hdigits hds), by simp⟩

/-! ## The longest number -/

/-- The longest number that a text begins with, or nothing if it begins with none. -/
structure LongestNumber (text p : List Char) : Prop where
  front : p <+: text
  form : p = [] ∨ IsNumber p
  longest : ∀ cs, cs <+: text → IsNumber cs → cs.length ≤ p.length

/-- Every text has a longest number at its front. -/
theorem exists_longestNumber (text : List Char) : ∃ p, LongestNumber text p := by
  -- among the numbers of a bounded length there is a longest one
  have hbounded : ∀ n, ∃ p, p <+: text ∧ (p = [] ∨ IsNumber p) ∧
      ∀ cs, cs <+: text → IsNumber cs → cs.length ≤ n → cs.length ≤ p.length := by
    intro n
    induction n with
    | zero => exact ⟨[], List.nil_prefix, .inl rfl, fun cs _ _ hlength => hlength⟩
    | succ n ih =>
      by_cases hfull : ∃ cs, cs <+: text ∧ IsNumber cs ∧ cs.length = n + 1
      · obtain ⟨p, hp, hnumber, hlength⟩ := hfull
        exact ⟨p, hp, .inr hnumber, fun cs _ _ hcs => hlength ▸ hcs⟩
      · obtain ⟨p, hp, hform, hlongest⟩ := ih
        refine ⟨p, hp, hform, fun cs hcs hnumber hlength => hlongest cs hcs hnumber ?_⟩
        have hne : cs.length ≠ n + 1 := fun heq => hfull ⟨cs, hcs, hnumber, heq⟩
        omega
  obtain ⟨p, hp, hform, hlongest⟩ := hbounded text.length
  exact ⟨p, hp, hform, fun cs hcs hnumber => hlongest cs hcs hnumber hcs.length_le⟩

/-- The longest number cannot be made longer. -/
theorem LongestNumber.not_concat {p rest : List Char} {c : Char}
    (h : LongestNumber (p ++ c :: rest) p) : ¬ IsNumber (p ++ [c]) := by
  intro hnumber
  have hlength := h.longest (p ++ [c]) ⟨rest, by simp⟩ hnumber
  rw [List.length_append, List.length_singleton] at hlength
  omega

/-- A number in front of what ends it is the longest one. -/
theorem LongestNumber.eq_of_endsNumber {head tail behind p : List Char}
    (h : LongestNumber (head ++ tail ++ behind) p) (hhead : IsMantissa head) (htail : IsExponent tail)
    (hends : EndsNumber tail behind) : p = head ++ tail := by
  have hlength := h.longest (head ++ tail) (List.prefix_append _ _) ⟨head, tail, hhead, htail, rfl⟩
  obtain ⟨more, rfl⟩ :=
    List.prefix_of_prefix_length_le (List.prefix_append (head ++ tail) behind) h.front hlength
  cases more with
  | nil => exact List.append_nil _
  | cons c more =>
    -- a longer number would go on with the first character of what ends this one
    have hc : c ∈ behind.head? := by
      obtain ⟨others, hothers⟩ := (List.prefix_append_right_inj _).1 h.front
      rw [← hothers]
      rfl
    have hnumber : IsNumber (head ++ tail ++ c :: more) := by
      refine h.form.resolve_left fun hnil => ?_
      simp at hnil
    obtain ⟨hdigit, hpoint, hmarker⟩ := hends.head c hc
    rcases hnumber.char with hd | rfl | rfl | ⟨hsign, hlast⟩
    · rw [hdigit] at hd
      cases hd
    · exact absurd rfl hpoint
    · exact absurd rfl hmarker
    · obtain ⟨d, hd, hplus, hminus⟩ := hends.bare ((getLast?_eq_marker_iff hhead htail).1 hlast)
      obtain rfl : c = d := Option.some.inj (hc.symm.trans hd)
      exact (not_or.2 ⟨hplus, hminus⟩ hsign).elim

/-- The longest number is ended by what follows it, unless that is a point or an `e`, or nothing behind
an `e`. -/
theorem LongestNumber.endsNumber {head tail rest : List Char}
    (h : LongestNumber (head ++ tail ++ rest) (head ++ tail)) (hhead : IsMantissa head)
    (htail : IsExponent tail) (hmore : ¬ (tail = ['e'] ∧ rest = []))
    (hnext : rest.head? ≠ some '.' ∧ rest.head? ≠ some 'e') : EndsNumber tail rest where
  head c hc := by
    obtain ⟨others, rfl⟩ := List.head?_eq_some_iff.1 hc
    refine ⟨?_, ?_, ?_⟩
    · rw [Bool.eq_false_iff]
      exact fun hdigit => h.not_concat (IsNumber.concat_digit ⟨head, tail, hhead, htail, rfl⟩ hdigit)
    · rintro rfl
      exact hnext.1 rfl
    · rintro rfl
      exact hnext.2 rfl
  bare hbare := by
    subst hbare
    cases rest with
    | nil => exact absurd ⟨rfl, rfl⟩ hmore
    | cons c others =>
      refine ⟨c, rfl, not_or.1 fun hsign => h.not_concat ?_⟩
      exact ⟨head, ['e', c], hhead, .signed hsign (by simp), by simp⟩

/-! ## Whether it is read -/

/-- Whether the longest number of a text is read in front of the rest of it: it is not empty, the text
does not end with an `e` of it, and neither a point nor another `e` follows. -/
def StandsFree (p rest : List Char) : Prop :=
  p ≠ [] ∧ ¬ (p.getLast? = some 'e' ∧ rest = []) ∧ rest.head? ≠ some '.' ∧ rest.head? ≠ some 'e'

variable {p rest : List Char}

/-- The longest number is read if it stands free. -/
theorem LongestNumber.numeric?_eq (h : LongestNumber (p ++ rest) p) (hfree : StandsFree p rest) :
    numeric? (p ++ rest) = some ⟨.numeric, String.ofList p, p.length⟩ := by
  obtain ⟨hne, hmore, hnext⟩ := hfree
  obtain ⟨head, tail, hhead, htail, rfl⟩ := h.form.resolve_left hne
  rw [getLast?_eq_marker_iff hhead htail] at hmore
  exact numeric?_append hhead htail (h.endsNumber hhead htail hmore hnext)

/-- If any number is read, the longest one stands free. -/
theorem LongestNumber.standsFree (h : LongestNumber (p ++ rest) p) {x : Lexeme}
    (hx : numeric? (p ++ rest) = some x) : StandsFree p rest := by
  obtain ⟨head, tail, behind, htext, hhead, htail, hends, -⟩ := exists_of_numeric? hx
  rw [htext] at h
  obtain rfl := h.eq_of_endsNumber hhead htail hends
  obtain rfl : rest = behind := List.append_cancel_left htext
  refine ⟨List.append_ne_nil_of_left_ne_nil hhead.ne_nil _, ?_, ?_, ?_⟩
  · rintro ⟨hlast, rfl⟩
    obtain ⟨c, hc, -⟩ := hends.bare ((getLast?_eq_marker_iff hhead htail).1 hlast)
    cases hc
  · exact fun hpoint => (hends.head '.' hpoint).2.1 rfl
  · exact fun hmarker => (hends.head 'e' hmarker).2.2 rfl

/-- Where a number may stand, there is no lexeme if there is no number. -/
theorem first?_eq_none_of_numeric? {text : List Char} (h : numeric? text = none)
    (hstart : ∃ c ∈ text.head?, c.isDigit = true ∨ c = '.') : first? text = none := by
  obtain ⟨c, hc, hstart⟩ := hstart
  obtain ⟨others, rfl⟩ := List.head?_eq_some_iff.1 hc
  obtain ⟨hletter, hmark, hquote⟩ := not_part_of_number hstart
  have hname : identifier? (c :: others) = none := by
    refine Option.eq_none_iff_forall_ne_some.2 fun x hx => ?_
    obtain ⟨d, cs, htext, hd⟩ := head?_of_identifier? hx
    obtain rfl : c = d := (List.cons.inj htext).1
    rcases hstart with hdigit | rfl
    · rcases hd with rfl | halpha
      · exact absurd hdigit (by decide)
      · rw [isAlpha_of_isDigit hdigit] at halpha
        cases halpha
    · exact absurd hd (by decide)
  rw [first?, keyword?_eq_none hletter, symbol?_eq_none hmark, string?_eq_none hquote, h, hname]
  rfl

/-- Every character of a number takes up one byte. -/
theorem IsNumber.length_encode {cs : List Char} (h : IsNumber cs) :
    (Utf8.encode (String.ofList cs)).length = cs.length := by
  refine Utf8.length_encode_of_lt fun c hc => ?_
  obtain ⟨before, after, rfl⟩ := List.append_of_mem hc
  rcases h.char with hdigit | rfl | rfl | ⟨rfl | rfl, -⟩
  · exact toNat_lt_of_isDigit hdigit
  all_goals decide

end Lexeme

/-- From a place on where the source can be divided, the longest number is read if it stands free and none
otherwise. -/
theorem ByteLexer.numeric_longest {source : String} {start : Cursor} {p rest : List Char}
    (h : Utf8.RestAt source start.pointer (p ++ rest)) (hlongest : Lexeme.LongestNumber (p ++ rest) p) :
    (Lexeme.StandsFree p rest → numeric source start = .ok (some
      ⟨some ⟨.numeric, String.ofList p, start.loc⟩,
        ⟨start.pointer + p.length, start.loc.right p.length⟩⟩)) ∧
    (¬ Lexeme.StandsFree p rest → numeric source start = .ok none) := by
  constructor
  · intro hfree
    have hsize : Utf8.size p = p.length := by
      have hbytes := (hlongest.form.resolve_left hfree.1).length_encode
      rwa [Utf8.encode, String.toList_ofList] at hbytes
    rw [numeric_eq h, hlongest.numeric?_eq hfree, Option.map_some, Found.ofLexeme, List.take_left,
      Cursor.behind, hsize]
  · intro hfree
    have hnone : Lexeme.numeric? (p ++ rest) = none :=
      Option.eq_none_iff_forall_ne_some.2 fun x hx => hfree (hlongest.standsFree hx)
    rw [numeric_eq h, hnone, Option.map_none]

/-- What a lexer reads where a number may stand, anywhere in a source. Of what is left of the source it
looks at the longest number at the front, which takes up one byte for each character. That is read
exactly if it stands free, and the lexer then moves on behind it. Otherwise no number is read, and the
lexer fails if what is left begins with a digit or a point. The same number is read from the bytes of the
source. No other places are of concern: whatever byte of a number a source has, a lexer can stand there, and
where none can, inside a character, no number is read from the bytes. -/
theorem Lexer.reads_longestNumber (source : String) (pointer : Nat) :
    (∀ b ∈ (Utf8.encode source)[pointer]?, b.toNat < 128 → ∃ l : Lexer, l.StandsAt source pointer) ∧
    (pointer ≤ (Utf8.encode source).length → (∃ l : Lexer, l.StandsAt source pointer) ∨
      ∀ loc, ByteLexer.numeric source ⟨pointer, loc⟩ = .ok none) ∧
    ∀ l : Lexer, l.StandsAt source pointer → ∃ p rest,
      l.text = p ++ rest ∧ Lexeme.LongestNumber l.text p ∧
      (Lexeme.numeric? l.text = some ⟨.numeric, String.ofList p, p.length⟩
        ↔ Lexeme.StandsFree p rest) ∧
      (Lexeme.StandsFree p rest → ∃ l',
        l.next = (some (.ok ⟨.numeric, String.ofList p, l.loc⟩), l') ∧ l'.text = rest ∧
        l'.StandsAt source (pointer + p.length) ∧ l'.loc = l.loc.right p.length) ∧
      (¬ Lexeme.StandsFree p rest → Lexeme.numeric? l.text = none ∧
        ((∃ c ∈ l.text.head?, c.isDigit = true ∨ c = '.') →
          l.next = (some (.error ⟨l.loc, l.last⟩), ⟨[], l.loc, l.last⟩))) ∧
      ∀ loc,
        (Lexeme.StandsFree p rest → ByteLexer.numeric source ⟨pointer, loc⟩ = .ok (some
          ⟨some ⟨.numeric, String.ofList p, loc⟩, ⟨pointer + p.length, loc.right p.length⟩⟩)) ∧
        (¬ Lexeme.StandsFree p rest → ByteLexer.numeric source ⟨pointer, loc⟩ = .ok none) := by
  refine ⟨fun b hb hascii => exists_standsAt hb hascii, fun hinside => ?_, ?_⟩
  · by_cases hboundary : Utf8.IsBoundary source pointer
    · obtain ⟨text, htext⟩ := hboundary
      exact .inl ⟨⟨text, {}, none⟩, standsAt_iff.2 htext⟩
    · exact .inr fun loc => ByteLexer.numeric_eq_none hinside hboundary
  rintro ⟨text, loc, last⟩ hl
  obtain ⟨p, hlongest⟩ := Lexeme.exists_longestNumber text
  obtain ⟨rest, rfl⟩ := hlongest.front
  refine ⟨p, rest, rfl, hlongest, ⟨hlongest.standsFree, hlongest.numeric?_eq⟩, ?_, ?_,
    fun _ => ByteLexer.numeric_longest (standsAt_iff.1 hl) hlongest⟩
  · intro hfree
    have hfirst := Lexeme.first?_of_numeric? (hlongest.numeric?_eq hfree)
    have hbytes := (hlongest.form.resolve_left hfree.1).length_encode
    exact ⟨_, Lexer.nextFrom_front hfirst last loc, rfl, hbytes ▸ hl.forward rfl, rfl⟩
  · intro hfree
    have hnone : Lexeme.numeric? (p ++ rest) = none :=
      Option.eq_none_iff_forall_ne_some.2 fun x hx => hfree (hlongest.standsFree hx)
    refine ⟨hnone, fun hstart => Lexer.nextFrom_noPiece ?_⟩
    have hfirst := Lexeme.first?_eq_none_of_numeric? hnone hstart
    obtain ⟨c, hc, hstart⟩ := hstart
    refine ⟨?_, ?_, hfirst⟩
    · intro hnil
      rw [hnil] at hc
      cases hc
    · intro d hd hblank
      obtain rfl := Option.some.inj (hc.symm.trans hd)
      rcases hblank with rfl | rfl | rfl <;> exact absurd hstart (by decide)

/-- Behind a character of two bytes an exponent with a sign and no digits is read up to a letter, and between
the two bytes there is no number. With a point in place of the letter there is none either, and the lexer
fails. -/
theorem Lexer.reads_longestNumber_signed :
    (∃ l : Lexer, l.StandsAt "é1e+x" 2) ∧
    (∃ l', (⟨"1e+x".toList, ⟨0, 1⟩, none⟩ : Lexer).next
        = (some (.ok ⟨.numeric, "1e+", ⟨0, 1⟩⟩), l') ∧
      l'.StandsAt "é1e+x" 5 ∧ l'.loc = ⟨0, 4⟩) ∧
    ByteLexer.numeric "é1e+x" ⟨2, ⟨0, 1⟩⟩
      = .ok (some ⟨some ⟨.numeric, "1e+", ⟨0, 1⟩⟩, ⟨5, ⟨0, 4⟩⟩⟩) ∧
    ByteLexer.numeric "é1e+x" ⟨1, ⟨0, 1⟩⟩ = .ok none ∧
    (⟨"1e+.".toList, ⟨0, 1⟩, none⟩ : Lexer).next
      = (some (.error ⟨⟨0, 1⟩, none⟩), ⟨[], ⟨0, 1⟩, none⟩) := by
  have hread : (∃ l', (⟨"1e+x".toList, ⟨0, 1⟩, none⟩ : Lexer).next
        = (some (.ok ⟨.numeric, "1e+", ⟨0, 1⟩⟩), l') ∧
      l'.StandsAt "é1e+x" 5 ∧ l'.loc = ⟨0, 4⟩) ∧
    ByteLexer.numeric "é1e+x" ⟨2, ⟨0, 1⟩⟩
      = .ok (some ⟨some ⟨.numeric, "1e+", ⟨0, 1⟩⟩, ⟨5, ⟨0, 4⟩⟩⟩) := by
    have hstands : (⟨"1e+x".toList, ⟨0, 1⟩, none⟩ : Lexer).StandsAt "é1e+x" 2 := ⟨"é", rfl, by decide⟩
    obtain ⟨p, rest, htext, hlongest, -, hread, -, hbytes⟩ :=
      (Lexer.reads_longestNumber "é1e+x" 2).2.2 _ hstands
    have hends : Lexeme.EndsNumber ['e', '+'] ['x'] :=
      ⟨by rintro c ⟨⟩; decide, fun hbare => by cases hbare⟩
    obtain rfl : p = ['1'] ++ ['e', '+'] :=
      Lexeme.LongestNumber.eq_of_endsNumber hlongest
        (.digits (List.cons_ne_nil _ _) (List.forall_mem_singleton.2 rfl))
        (.signed (.inl rfl) (List.forall_mem_nil _)) hends
    obtain rfl : ['x'] = rest := (List.append_right_inj (['1'] ++ ['e', '+'])).1 htext
    have hfree : Lexeme.StandsFree (['1'] ++ ['e', '+']) ['x'] :=
      ⟨by decide, by decide, by decide, by decide⟩
    obtain ⟨l', hnext, -, hstands', hloc⟩ := hread hfree
    exact ⟨⟨l', hnext, hstands', hloc⟩, (hbytes ⟨0, 1⟩).1 hfree⟩
  refine ⟨(Lexer.reads_longestNumber "é1e+x" 2).1 49 (by decide) (by decide), hread.1, hread.2, ?_, ?_⟩
  · have hinside : ¬ ∃ l : Lexer, l.StandsAt "é1e+x" 1 := by
      rintro ⟨l, hl⟩
      exact absurd (Lexer.standsAt_iff.1 hl).isBoundary (by decide)
    exact ((Lexer.reads_longestNumber "é1e+x" 1).2.1 (by decide)).resolve_left hinside ⟨0, 1⟩
  · have hstands : (⟨"1e+.".toList, ⟨0, 1⟩, none⟩ : Lexer).StandsAt "é1e+." 2 := ⟨"é", rfl, by decide⟩
    obtain ⟨p, rest, -, -, hread, -, hfault, -⟩ := (Lexer.reads_longestNumber "é1e+." 2).2.2 _ hstands
    have hnone : Lexeme.numeric? "1e+.".toList = none := by decide
    have hfree : ¬ Lexeme.StandsFree p rest := by
      intro hfree
      have hsome := hnone.symm.trans (hread.2 hfree)
      cases hsome
    exact (hfault hfree).2 ⟨'1', rfl, .inl rfl⟩

end SqlStore
