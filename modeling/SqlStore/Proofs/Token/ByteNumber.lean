import SqlStore.Proofs.Token.ByteRules

/-! # A number byte by byte

The bytes of a number are read one after the other, and two flags tell what may still come. The number that is
read in this way is the one that has a mantissa and an exponent:

* **`Lexeme.exponentEnd?`** — the exponent behind a mantissa, where the number ends there.
  `Lexeme.numeric?_eq` puts a number together from these two;
* **`ByteLexer.numberEnd_cons`** — what one character decides. Digits are passed whatever the flags
  (`numberEnd_digits`);
* **`ByteLexer.numberEnd_exponent`** and **`ByteLexer.numberEnd_mantissa`** — what is passed behind a mantissa,
  and what from the second character of one on;
* **`ByteLexer.numeric_eq`** — so the same numbers are read from bytes and from characters. Inside a
  character there are none (`numeric_eq_none`). -/

namespace SqlStore

open Utf8 (RestAt size)

namespace Lexeme

/-! ## Mantissa and exponent -/

/-- A digit is one of the mantissa behind it. -/
theorem mantissa_cons {d : Char} (hd : d.isDigit = true) (cs : List Char) :
    mantissa (d :: cs) = d :: mantissa cs := by
  rw [mantissa, mantissa, List.takeWhile_cons_of_pos hd, List.dropWhile_cons_of_pos hd]
  split <;> rfl

/-- Without a digit or a point there is no mantissa. -/
theorem mantissa_eq_nil {c : Char} (hdigit : ¬ c.isDigit = true) (hpoint : c ≠ '.') (cs : List Char) :
    mantissa (c :: cs) = [] := by
  rw [mantissa, List.takeWhile_cons_of_neg hdigit, List.dropWhile_cons_of_neg hdigit]
  split
  · next heq => exact absurd (List.cons.inj heq).1 hpoint
  · rfl

/-- Whether a text goes on with what no number has a second time. -/
def GoesOn (text : List Char) : Prop := text.head? = some '.' ∨ text.head? = some 'e'

instance : DecidablePred GoesOn := fun text =>
  inferInstanceAs (Decidable (text.head? = some '.' ∨ text.head? = some 'e'))

/-- The exponent behind a mantissa, unless the text goes on behind it. -/
def exponentEnd? (text : List Char) : Option (List Char) :=
  match exponent? text with
  | none => none
  | some tail => if GoesOn (text.drop tail.length) then none else some tail

/-- What follows the marks and the digits of an exponent decides on it. -/
theorem exponentEnd?_append {marks text : List Char}
    (h : exponent? (marks ++ text) = some (marks ++ text.takeWhile Char.isDigit)) :
    exponentEnd? (marks ++ text) = if GoesOn (text.dropWhile Char.isDigit) then none
      else some (marks ++ text.takeWhile Char.isDigit) := by
  have hdrop : (marks ++ text).drop (marks ++ text.takeWhile Char.isDigit).length
      = text.dropWhile Char.isDigit := by
    rw [List.length_append, ← List.drop_drop, List.drop_left, drop_length_takeWhile]
  simp only [exponentEnd?, h, hdrop]

/-- A number is a mantissa and what follows it as an exponent. -/
theorem numeric?_eq (text : List Char) : numeric? text =
    if mantissa text = [] then none
    else (exponentEnd? (text.drop (mantissa text).length)).map fun tail =>
      ⟨.numeric, String.ofList (mantissa text ++ tail), (mantissa text ++ tail).length⟩ := by
  rw [numeric?]
  simp only [List.isEmpty_iff, exponentEnd?]
  split
  · rfl
  · cases exponent? (text.drop (mantissa text).length) with
    | none => rfl
    | some tail =>
      simp only [List.length_append, ← List.drop_drop]
      -- the character behind the exponent decides on both sides
      split
      · next hbehind => rw [hbehind, if_pos (.inl rfl), Option.map_none]
      · next hbehind => rw [hbehind, if_pos (.inr rfl), Option.map_none]
      · next hpoint hmarker =>
        rw [if_neg, Option.map_some]
        rintro (hhead | hhead) <;> obtain ⟨rest, hrest⟩ := List.head?_eq_some_iff.1 hhead
        · exact hpoint rest hrest
        · exact hmarker rest hrest

/-- What is read as mantissa and exponent stands at the front of the text. -/
theorem exists_append_of_exponentEnd? {text tail : List Char}
    (h : exponentEnd? (text.drop (mantissa text).length) = some tail) :
    ∃ rest, text = (mantissa text ++ tail) ++ rest := by
  obtain ⟨behind, htext, -, -⟩ := mantissa_form text
  have hdrop : (mantissa text ++ behind).drop (mantissa text).length = behind := List.drop_left
  rw [← htext] at hdrop
  unfold exponentEnd? at h
  split at h
  · cases h
  · next found hfound =>
    obtain ⟨-, heq⟩ := Option.ite_none_left_eq_some.1 h
    cases heq
    obtain ⟨rest, hrest, -⟩ := exponent?_form hfound
    exact ⟨rest, by rw [List.append_assoc, ← hrest, hdrop, ← htext]⟩

end Lexeme

namespace ByteLexer

variable {source : String} {text : List Char} {start : Nat} {cur : Cursor} {point marker : Bool}

/-! ## One character of a number -/

/-- At the end of the source a number ends. -/
theorem numberEnd_nil (h : RestAt source cur.pointer []) :
    numberEnd source start point marker cur = .ok (some cur) := by
  rw [numberEnd, byte?_nil h]

/-- What a character decides, and behind an `e` the character that follows it. -/
theorem numberEnd_cons {c : Char} (h : RestAt source cur.pointer (c :: text)) :
    numberEnd source start point marker cur =
      if cur.pointer = start then
        if c.isDigit ∨ c = '.' then numberEnd source start (c = '.') marker (cur.advance 1)
        else .ok none
      else if c = '.' then
        if point then .ok none else numberEnd source start true marker (cur.advance 1)
      else if c = 'e' then
        if marker then .ok none
        else if cur.pointer + 1 = (Utf8.encode source).length then .ok none
        else do
          let d ← byte source (cur.pointer + 1)
          if Char.ofUInt8 d = '+' ∨ Char.ofUInt8 d = '-' then
            numberEnd source start true true ((cur.advance 1).advance 1)
          else numberEnd source start true true (cur.advance 1)
      else if c.isDigit then numberEnd source start point marker (cur.advance 1)
      else .ok (some cur) := by
  obtain ⟨b, hb, hsame⟩ := exists_byte? h
  have hdigit := hsame asciiOnly_isDigit
  have hpoint : (Char.ofUInt8 b = '.') = (c = '.') := hsame (asciiOnly_eq (by decide))
  have hmarker : (Char.ofUInt8 b = 'e') = (c = 'e') := hsame (asciiOnly_eq (by decide))
  rw [numberEnd, hb]
  simp only [hdigit, hpoint, hmarker]

/-- Behind its first character a number goes on with a digit. -/
theorem numberEnd_digit {d : Char} (h : RestAt source cur.pointer (d :: text)) (hd : d.isDigit = true)
    (hstart : start < cur.pointer) : numberEnd source start point marker cur
      = numberEnd source start point marker (cur.behind [d]) := by
  have hpoint : d ≠ '.' := by
    rintro rfl
    cases hd
  have hmarker : d ≠ 'e' := by
    rintro rfl
    cases hd
  rw [numberEnd_cons h, if_neg (Nat.ne_of_gt hstart), if_neg hpoint, if_neg hmarker, if_pos hd,
    cur.advance_one (Lexeme.toNat_lt_of_isDigit hd)]

/-- Digits are passed one by one. -/
theorem numberEnd_digits {ds : List Char} (h : RestAt source cur.pointer (ds ++ text))
    (hds : ∀ d ∈ ds, d.isDigit = true) (hstart : start < cur.pointer) :
    numberEnd source start point marker cur
      = numberEnd source start point marker (cur.behind ds) := by
  induction ds generalizing cur with
  | nil => rfl
  | cons d ds ih =>
    obtain ⟨hd, hothers⟩ := List.forall_mem_cons.1 hds
    rw [numberEnd_digit h hd hstart, ih (h.forward [d]) hothers (Cursor.lt_behind hstart _),
      Cursor.behind_append]
    rfl

/-- The digits at the front of a text are passed. -/
theorem numberEnd_takeWhile (h : RestAt source cur.pointer text) (hstart : start < cur.pointer) :
    numberEnd source start point marker cur
      = numberEnd source start point marker (cur.behind (text.takeWhile Char.isDigit)) := by
  rw [← List.takeWhile_append_dropWhile (p := Char.isDigit) (l := text)] at h
  exact numberEnd_digits h (fun d hd => List.mem_takeWhile_imp hd) hstart

/-- What is left behind the digits at the front of a text. -/
theorem restAt_dropWhile (h : RestAt source cur.pointer text) (p : Char → Bool) :
    RestAt source (cur.behind (text.takeWhile p)).pointer (text.dropWhile p) := by
  rw [← List.takeWhile_append_dropWhile (p := p) (l := text)] at h
  exact h.forward _

/-! ## Behind the mantissa -/

/-- Behind an exponent a number ends, unless the text goes on with a point or another `e`. -/
theorem numberEnd_stop (h : RestAt source cur.pointer text) (hstart : start < cur.pointer)
    (hdigit : ∀ c ∈ text.head?, c.isDigit = false) :
    numberEnd source start true true cur
      = .ok (if Lexeme.GoesOn text then none else some cur) := by
  cases text with
  | nil => rw [numberEnd_nil h, if_neg (by simp [Lexeme.GoesOn])]
  | cons c rest =>
    rw [numberEnd_cons h, if_neg (Nat.ne_of_gt hstart)]
    by_cases hpoint : c = '.'
    · rw [if_pos hpoint, if_pos rfl, if_pos (.inl (hpoint ▸ rfl))]
    · by_cases hmarker : c = 'e'
      · rw [if_neg hpoint, if_pos hmarker, if_pos rfl, if_pos (.inr (hmarker ▸ rfl))]
      · rw [if_neg hpoint, if_neg hmarker, if_neg (Bool.eq_false_iff.1 (hdigit c rfl)),
          if_neg (by simp [Lexeme.GoesOn, hpoint, hmarker])]

/-- Behind the marks of an exponent its digits are passed, and then the number ends or is none. -/
theorem numberEnd_marks {marks : List Char} (h : RestAt source (cur.behind marks).pointer text)
    (hstart : start < cur.pointer)
    (hexponent : Lexeme.exponent? (marks ++ text) = some (marks ++ text.takeWhile Char.isDigit)) :
    numberEnd source start true true (cur.behind marks)
      = .ok ((Lexeme.exponentEnd? (marks ++ text)).map cur.behind) := by
  have hmarks := Cursor.lt_behind hstart marks
  rw [numberEnd_takeWhile h hmarks, numberEnd_stop (restAt_dropWhile h _) (Cursor.lt_behind hmarks _)
    (Lexeme.head?_dropWhile text), Lexeme.exponentEnd?_append hexponent, Cursor.behind_append]
  split <;> rfl

/-- Behind an `e` a sign is passed if there is one, and then the digits; at the end of the source there is
no number. -/
theorem numberEnd_marker (h : RestAt source cur.pointer ('e' :: text)) (hstart : start < cur.pointer) :
    numberEnd source start point false cur
      = .ok ((Lexeme.exponentEnd? ('e' :: text)).map cur.behind) := by
  have hmarker : cur.advance 1 = cur.behind ['e'] := cur.advance_one (by decide)
  have hbehind : RestAt source (cur.pointer + 1) text := h.tail
  rw [numberEnd_cons h, if_neg (Nat.ne_of_gt hstart), if_neg (by decide), if_pos rfl,
    if_neg Bool.false_ne_true]
  cases text with
  | nil =>
    rw [if_pos (hbehind.eq_length_iff.2 rfl)]
    rfl
  | cons d rest =>
    obtain ⟨b, hb, hsame⟩ := exists_byte hbehind
    have hplus : (Char.ofUInt8 b = '+') = (d = '+') := hsame (asciiOnly_eq (by decide))
    have hminus : (Char.ofUInt8 b = '-') = (d = '-') := hsame (asciiOnly_eq (by decide))
    rw [if_neg (mt hbehind.eq_length_iff.1 (List.cons_ne_nil d rest)), hb]
    show (if Char.ofUInt8 b = '+' ∨ Char.ofUInt8 b = '-' then _ else _) = _
    simp only [hplus, hminus, hmarker]
    by_cases hsign : d = '+' ∨ d = '-'
    · have hascii : d.toNat < 128 := by
        rcases hsign with rfl | rfl <;> decide
      have hexponent : Lexeme.exponent? ('e' :: d :: rest)
          = some (['e', d] ++ rest.takeWhile Char.isDigit) := if_pos hsign
      rw [if_pos hsign, Cursor.advance_one _ hascii, Cursor.behind_append]
      exact numberEnd_marks (h.forward ['e', d]) hstart hexponent
    · have hexponent : Lexeme.exponent? ('e' :: d :: rest)
          = some (['e'] ++ (d :: rest).takeWhile Char.isDigit) := if_neg hsign
      rw [if_neg hsign]
      exact numberEnd_marks (h.forward ['e']) hstart hexponent

/-- Behind a mantissa the exponent is passed. -/
theorem numberEnd_exponent (h : RestAt source cur.pointer text) (hstart : start < cur.pointer)
    (hdigit : ∀ c ∈ text.head?, c.isDigit = false) (hpoint : point = true ∨ text.head? ≠ some '.') :
    numberEnd source start point false cur = .ok ((Lexeme.exponentEnd? text).map cur.behind) := by
  cases text with
  | nil =>
    rw [numberEnd_nil h]
    rfl
  | cons c rest =>
    by_cases hmarker : c = 'e'
    · subst hmarker
      exact numberEnd_marker h hstart
    · have hexponent : Lexeme.exponent? (c :: rest) = some [] := by
        unfold Lexeme.exponent?
        split
        · next heq => exact absurd (List.cons.inj heq).1 hmarker
        · next heq => exact absurd (List.cons.inj heq).1 hmarker
        · rfl
      rw [numberEnd_cons h, if_neg (Nat.ne_of_gt hstart)]
      simp only [Lexeme.exponentEnd?, hexponent, List.length_nil, List.drop_zero]
      by_cases hc : c = '.'
      · subst hc
        rw [if_pos rfl, if_pos (hpoint.resolve_right fun hne => hne rfl), if_pos (.inl rfl)]
        rfl
      · rw [if_neg hc, if_neg hmarker, if_neg (Bool.eq_false_iff.1 (hdigit c rfl)),
          if_neg (by simp [Lexeme.GoesOn, hc, hmarker])]
        rfl

/-! ## Whole numbers -/

/-- Behind a point digits are passed and then the exponent. -/
theorem numberEnd_fraction (h : RestAt source cur.pointer text) (hstart : start < cur.pointer) :
    numberEnd source start true false cur
      = .ok ((Lexeme.exponentEnd? (text.dropWhile Char.isDigit)).map fun tail =>
          cur.behind (text.takeWhile Char.isDigit ++ tail)) := by
  rw [numberEnd_takeWhile h hstart, numberEnd_exponent (restAt_dropWhile h _)
    (Cursor.lt_behind hstart _) (Lexeme.head?_dropWhile text) (.inl rfl)]
  exact congrArg (fun passed => Except.ok (Option.map passed _)) (funext (cur.behind_append _))

/-- Behind its first digit the rest of a mantissa is passed and then the exponent. -/
theorem numberEnd_mantissa (h : RestAt source cur.pointer text) (hstart : start < cur.pointer) :
    numberEnd source start false false cur
      = .ok ((Lexeme.exponentEnd? (text.drop (Lexeme.mantissa text).length)).map fun tail =>
          cur.behind (Lexeme.mantissa text ++ tail)) := by
  have hrest := restAt_dropWhile h Char.isDigit
  have hwhole := Cursor.lt_behind hstart (text.takeWhile Char.isDigit)
  rw [numberEnd_takeWhile h hstart]
  by_cases hpoint : (text.dropWhile Char.isDigit).head? = some '.'
  · obtain ⟨fraction, hfraction⟩ := List.head?_eq_some_iff.1 hpoint
    have hmantissa : Lexeme.mantissa text
        = text.takeWhile Char.isDigit ++ '.' :: fraction.takeWhile Char.isDigit := by
      simp only [Lexeme.mantissa, hfraction]
    have hdrop : text.drop (Lexeme.mantissa text).length = fraction.dropWhile Char.isDigit := by
      rw [hmantissa, List.length_append, ← List.drop_drop, Lexeme.drop_length_takeWhile, hfraction,
        List.length_cons, List.drop_succ_cons, Lexeme.drop_length_takeWhile]
    rw [hfraction] at hrest
    rw [numberEnd_cons hrest, if_neg (Nat.ne_of_gt hwhole), if_pos rfl, if_neg Bool.false_ne_true,
      Cursor.advance_one _ (c := '.') (by decide), numberEnd_fraction (hrest.forward ['.'])
        (Cursor.lt_behind hwhole _), hdrop, hmantissa]
    simp only [Cursor.behind_append, List.append_assoc, List.cons_append, List.nil_append]
  · have hmantissa : Lexeme.mantissa text = text.takeWhile Char.isDigit := by
      unfold Lexeme.mantissa
      split
      · next rest hdrop => exact absurd (by rw [hdrop]; rfl) hpoint
      · rfl
    rw [numberEnd_exponent hrest hwhole (Lexeme.head?_dropWhile text) (.inr hpoint), hmantissa,
      Lexeme.drop_length_takeWhile]
    exact congrArg (fun passed => Except.ok (Option.map passed _)) (funext (cur.behind_append _))

/-- From its first character on a number is passed, mantissa and exponent. -/
theorem numberEnd_eq {start : Cursor} (h : RestAt source start.pointer text) (hne : text ≠ []) :
    numberEnd source start.pointer false false start
      = .ok (if Lexeme.mantissa text = [] then none
        else (Lexeme.exponentEnd? (text.drop (Lexeme.mantissa text).length)).map fun tail =>
          start.behind (Lexeme.mantissa text ++ tail)) := by
  obtain ⟨c, rest, rfl⟩ := List.exists_cons_of_ne_nil hne
  have hrest : RestAt source (start.behind [c]).pointer rest := h.forward [c]
  have hstart : start.pointer < (start.behind [c]).pointer :=
    Nat.lt_add_of_pos_right (Utf8.size_pos (List.cons_ne_nil c []))
  have hbehind : ∀ cs, (start.behind [c]).behind cs = start.behind (c :: cs) := start.behind_append [c]
  rw [numberEnd_cons h, if_pos rfl]
  by_cases hdigit : c.isDigit = true
  · have hpoint : decide (c = '.') = false := by
      rw [decide_eq_false_iff_not]
      rintro rfl
      cases hdigit
    rw [if_pos (.inl hdigit), hpoint, start.advance_one (Lexeme.toNat_lt_of_isDigit hdigit),
      numberEnd_mantissa hrest hstart, Lexeme.mantissa_cons hdigit, if_neg (List.cons_ne_nil _ _)]
    simp only [hbehind, List.length_cons, List.drop_succ_cons, List.cons_append]
  · by_cases hpoint : c = '.'
    · subst hpoint
      have hmantissa : Lexeme.mantissa ('.' :: rest) = '.' :: rest.takeWhile Char.isDigit := rfl
      rw [if_pos (.inr rfl), start.advance_one (c := '.') (by decide), decide_eq_true rfl,
        numberEnd_fraction hrest hstart, hmantissa, if_neg (List.cons_ne_nil _ _)]
      simp only [hbehind, List.length_cons, List.drop_succ_cons, List.cons_append,
        Lexeme.drop_length_takeWhile]
    · rw [if_neg (not_or.2 ⟨hdigit, hpoint⟩), if_pos (Lexeme.mantissa_eq_nil hdigit hpoint rest)]

/-- Numbers. -/
theorem numeric_eq {start : Cursor} (h : RestAt source start.pointer text) :
    numeric source start = .ok ((Lexeme.numeric? text).map (.ofLexeme start text)) := by
  by_cases hne : text = []
  · subst hne
    rw [numeric, numberEnd_nil h]
    exact if_pos rfl
  · rw [numeric, numberEnd_eq h hne, Lexeme.numeric?_eq]
    by_cases hmantissa : Lexeme.mantissa text = []
    · rw [if_pos hmantissa, if_pos hmantissa]
      rfl
    · rw [if_neg hmantissa, if_neg hmantissa]
      cases htail : Lexeme.exponentEnd? (text.drop (Lexeme.mantissa text).length) with
      | none => rfl
      | some tail =>
        obtain ⟨rest, hsplit⟩ := Lexeme.exists_append_of_exponentEnd? htail
        have hpointer : (start.behind (Lexeme.mantissa text ++ tail)).pointer ≠ start.pointer :=
          Nat.ne_of_gt (Nat.lt_add_of_pos_right
            (Utf8.size_pos (List.append_ne_nil_of_left_ne_nil hmantissa tail)))
        have htake : (Lexeme.mantissa text ++ tail ++ rest).take (Lexeme.mantissa text ++ tail).length
            = Lexeme.mantissa text ++ tail := List.take_left
        rw [← hsplit] at htake
        show (if (start.behind (Lexeme.mantissa text ++ tail)).pointer = start.pointer then _ else _) = _
        rw [if_neg hpointer, Cursor.behind_pointer, slice_eq (hsplit ▸ h)]
        exact congrArg (fun cs => Except.ok (some (Found.mk _ (start.behind cs)))) htake.symm

/-- Inside a character there is no number: only its first byte can be that of a digit or a point. -/
theorem numeric_eq_none {start : Cursor} (hinside : start.pointer ≤ (Utf8.encode source).length)
    (h : ¬ Utf8.IsBoundary source start.pointer) : numeric source start = .ok none := by
  rw [Utf8.isBoundary_iff_getElem?, not_or] at h
  obtain ⟨b, hget⟩ : ∃ b, (Utf8.encode source)[start.pointer]? = some b :=
    ⟨_, List.getElem?_eq_getElem (Nat.lt_of_le_of_ne hinside h.1)⟩
  have htrailing : Utf8.IsTrailing b := by
    by_contra hb
    exact h.2 ⟨b, hget, hb⟩
  have hbyte : byte? source start.pointer = .ok (some b) := by
    rw [byte?, if_pos hinside, hget]
  have hwide : 128 ≤ (Char.ofUInt8 b).toNat := htrailing.1
  have hstart : ¬ ((Char.ofUInt8 b).isDigit = true ∨ Char.ofUInt8 b = '.') := by
    rintro (hdigit | hpoint)
    · exact Nat.not_lt.2 hwide (Lexeme.toNat_lt_of_isDigit hdigit)
    · rw [hpoint] at hwide
      exact absurd hwide (by decide)
  have hend : numberEnd source start.pointer false false start = .ok none := by
    rw [numberEnd, hbyte]
    simp only [if_true, if_neg hstart]
  rw [numeric, hend]
  rfl

end ByteLexer

end SqlStore
