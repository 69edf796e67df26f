import SqlStore.Token.Lexeme
import Mathlib.Data.List.TakeWhile

/-! # The form of numbers

Which stretches of a text are numbers, said without reading them:

* **`Lexeme.IsMantissa`** and **`Lexeme.IsExponent`** — the two parts of a number;
* **`Lexeme.EndsNumber`** — what may stand behind a number so that it ends there;
* **`Lexeme.numeric?_append`** and **`Lexeme.exists_of_numeric?`** — these numbers are read and no
  others. Of what stands behind a number only the first character matters. -/

namespace SqlStore

namespace Lexeme

/-! ## Runs of characters -/

/-- A run of characters of a class, in front of a character that is not of the class, is what
`takeWhile` takes. -/
theorem takeWhile_append_run {p : Char → Bool} {cs rest : List Char} (hcs : ∀ c ∈ cs, p c = true)
    (hrest : ∀ c ∈ rest.head?, p c = false) :
    (cs ++ rest).takeWhile p = cs ∧ (cs ++ rest).dropWhile p = rest := by
  rw [List.takeWhile_append_of_pos hcs, List.dropWhile_append_of_pos hcs]
  cases rest with
  | nil => simp
  | cons c rest => simp [hrest c rfl]

/-- What `dropWhile` leaves does not begin with a character of the class. -/
theorem head?_dropWhile {p : Char → Bool} (cs : List Char) :
    ∀ c ∈ (cs.dropWhile p).head?, p c = false := by
  intro c hc
  have hhead := List.head?_dropWhile_not p cs
  rw [hc] at hhead
  exact hhead

/-- Behind what `takeWhile` takes stands what `dropWhile` leaves. -/
theorem drop_length_takeWhile (p : Char → Bool) (cs : List Char) :
    cs.drop (cs.takeWhile p).length = cs.dropWhile p := by
  have hsplit : cs = cs.takeWhile p ++ cs.dropWhile p := List.takeWhile_append_dropWhile.symm
  calc cs.drop (cs.takeWhile p).length
      = (cs.takeWhile p ++ cs.dropWhile p).drop (cs.takeWhile p).length := by rw [← hsplit]
    _ = cs.dropWhile p := List.drop_left

/-- A character that is no digit is not among digits. -/
theorem not_mem_of_digits {c : Char} (hc : c.isDigit = false) {ds : List Char}
    (hds : ∀ d ∈ ds, d.isDigit = true) : c ∉ ds := by
  intro hmem
  rw [hds c hmem] at hc
  cases hc

/-! ## The two parts of a number -/

/-- Digits, or digits with one point before, between or behind them, or the point alone. -/
inductive IsMantissa : List Char → Prop
  | digits {whole : List Char} (hne : whole ≠ []) (hwhole : ∀ d ∈ whole, d.isDigit = true) :
      IsMantissa whole
  | point {whole fraction : List Char} (hwhole : ∀ d ∈ whole, d.isDigit = true)
      (hfraction : ∀ d ∈ fraction, d.isDigit = true) : IsMantissa (whole ++ '.' :: fraction)

/-- Nothing, or an `e`, a sign if there is one, and any number of digits. -/
inductive IsExponent : List Char → Prop
  | none : IsExponent []
  | unsigned {ds : List Char} (hds : ∀ d ∈ ds, d.isDigit = true) : IsExponent ('e' :: ds)
  | signed {sign : Char} {ds : List Char} (hsign : sign = '+' ∨ sign = '-')
      (hds : ∀ d ∈ ds, d.isDigit = true) : IsExponent ('e' :: sign :: ds)

/-- Whether a number with this exponent ends in front of a text: no digit, point or `e` goes on there,
and behind a bare `e` there is something other than a sign. -/
structure EndsNumber (exponent behind : List Char) : Prop where
  head : ∀ c ∈ behind.head?, c.isDigit = false ∧ c ≠ '.' ∧ c ≠ 'e'
  bare : exponent = ['e'] → ∃ c ∈ behind.head?, c ≠ '+' ∧ c ≠ '-'

/-- Only the first character behind a number matters. -/
theorem EndsNumber.congr {exponent behind behind' : List Char} (h : EndsNumber exponent behind)
    (hhead : behind'.head? = behind.head?) : EndsNumber exponent behind' where
  head c hc := h.head c (hhead ▸ hc)
  bare he := hhead ▸ h.bare he

/-- A mantissa has characters. -/
theorem IsMantissa.ne_nil {cs : List Char} (h : IsMantissa cs) : cs ≠ [] := by
  cases h with
  | digits hne hwhole => exact hne
  | point hwhole hfraction => exact List.append_ne_nil_of_right_ne_nil _ (List.cons_ne_nil _ _)

/-- A mantissa begins with a digit or with a point. -/
theorem IsMantissa.head? {cs : List Char} (h : IsMantissa cs) :
    ∀ c ∈ cs.head?, c.isDigit = true ∨ c = '.' := by
  cases h with
  | digits hne hwhole => exact fun c hc => .inl (hwhole c (List.mem_of_mem_head? hc))
  | @point whole fraction hwhole hfraction =>
    cases whole with
    | nil => exact fun c hc => .inr (Option.some.inj hc).symm
    | cons d whole => exact fun c hc => .inl (Option.some.inj hc ▸ hwhole d List.mem_cons_self)

/-- A mantissa has no newline. -/
theorem IsMantissa.no_newline {cs : List Char} (h : IsMantissa cs) : '\n' ∉ cs := by
  cases h with
  | digits hne hwhole => exact not_mem_of_digits rfl hwhole
  | point hwhole hfraction =>
    simp [not_mem_of_digits (c := '\n') rfl hwhole, not_mem_of_digits (c := '\n') rfl hfraction]

/-- An exponent has no newline. -/
theorem IsExponent.no_newline {cs : List Char} (h : IsExponent cs) : '\n' ∉ cs := by
  cases h with
  | none => exact List.not_mem_nil
  | unsigned hds => simp [not_mem_of_digits (c := '\n') rfl hds]
  | signed hsign hds => rcases hsign with rfl | rfl <;> simp [not_mem_of_digits (c := '\n') rfl hds]

/-! ## Numbers are read -/

/-- A mantissa is read in front of anything but a digit or a point. -/
theorem mantissa_append {cs rest : List Char} (h : IsMantissa cs)
    (hrest : ∀ c ∈ rest.head?, c.isDigit = false ∧ c ≠ '.') : mantissa (cs ++ rest) = cs := by
  have hdigit : ∀ c ∈ rest.head?, c.isDigit = false := fun c hc => (hrest c hc).1
  cases h with
  | digits hne hwhole =>
    obtain ⟨htake, hdrop⟩ := takeWhile_append_run hwhole hdigit
    rw [mantissa, htake, hdrop]
    split
    · exact absurd rfl (hrest '.' rfl).2
    · rfl
  | @point whole fraction hwhole hfraction =>
    have hpoint : ∀ c ∈ ('.' :: (fraction ++ rest)).head?, c.isDigit = false := by
      rintro c ⟨⟩
      rfl
    obtain ⟨htake, hdrop⟩ := takeWhile_append_run hwhole hpoint
    rw [mantissa, List.append_assoc, List.cons_append, htake, hdrop]
    simp only [(takeWhile_append_run hfraction hdigit).1]

/-- An exponent is read in front of what ends its number. -/
theorem exponent?_append {tail behind : List Char} (h : IsExponent tail)
    (hends : EndsNumber tail behind) : exponent? (tail ++ behind) = some tail := by
  have hdigit : ∀ c ∈ behind.head?, c.isDigit = false := fun c hc => (hends.head c hc).1
  cases h with
  | none =>
    rw [List.nil_append]
    unfold exponent?
    split
    · exact absurd rfl (hends.head 'e' rfl).2.2
    · exact absurd rfl (hends.head 'e' rfl).2.2
    · rfl
  | @unsigned ds hds =>
    have hrun := (takeWhile_append_run hds hdigit).1
    -- the text goes on behind the `e`, and not with a sign
    obtain ⟨c, rest, hrest, hsign⟩ : ∃ c rest, ds ++ behind = c :: rest ∧ ¬ (c = '+' ∨ c = '-') := by
      cases ds with
      | nil =>
        obtain ⟨c, hc, hplus, hminus⟩ := hends.bare rfl
        obtain ⟨rest, rfl⟩ := List.head?_eq_some_iff.1 hc
        exact ⟨c, rest, rfl, not_or.2 ⟨hplus, hminus⟩⟩
      | cons d ds =>
        refine ⟨d, ds ++ behind, rfl, ?_⟩
        have hd := hds d List.mem_cons_self
        rintro (rfl | rfl) <;> exact absurd hd (by decide)
    rw [List.cons_append, hrest, exponent?, if_neg hsign, ← hrest, hrun]
  | @signed sign ds hsign hds =>
    rw [List.cons_append, List.cons_append, exponent?, if_pos hsign,
      (takeWhile_append_run hds hdigit).1]

/-- A number is read in front of what ends it. -/
theorem numeric?_append {head tail behind : List Char} (hhead : IsMantissa head)
    (htail : IsExponent tail) (hends : EndsNumber tail behind) :
    numeric? (head ++ tail ++ behind)
      = some ⟨.numeric, String.ofList (head ++ tail), (head ++ tail).length⟩ := by
  -- behind the mantissa stands the `e` of the exponent, or what ends the number
  have hnext : ∀ c ∈ (tail ++ behind).head?, c.isDigit = false ∧ c ≠ '.' := by
    cases htail with
    | none => exact fun c hc => ⟨(hends.head c hc).1, (hends.head c hc).2.1⟩
    | _ => rintro c ⟨⟩; decide
  have hmantissa := mantissa_append hhead hnext
  have hempty : head.isEmpty = false := by simpa using hhead.ne_nil
  rw [← List.append_assoc] at hmantissa
  have hdrop : (head ++ tail ++ behind).drop head.length = tail ++ behind := by
    rw [List.append_assoc, List.drop_left]
  simp only [numeric?, hmantissa, hempty, hdrop, exponent?_append htail hends, List.drop_left,
    Bool.false_eq_true, if_false]
  split
  · exact absurd rfl (hends.head '.' rfl).2.1
  · exact absurd rfl (hends.head 'e' rfl).2.2
  · rfl

/-! ## Nothing else is read -/

/-- What is read as a mantissa is one unless it is empty, and no digit follows it. -/
theorem mantissa_form (text : List Char) : ∃ rest, text = mantissa text ++ rest ∧
    (mantissa text ≠ [] → IsMantissa (mantissa text)) ∧ ∀ c ∈ rest.head?, c.isDigit = false := by
  have hdigits : ∀ cs : List Char, ∀ d ∈ cs.takeWhile Char.isDigit, d.isDigit = true :=
    fun cs d hd => List.mem_takeWhile_imp hd
  have hsplit : text.takeWhile Char.isDigit ++ text.dropWhile Char.isDigit = text :=
    List.takeWhile_append_dropWhile
  unfold mantissa
  split
  · next rest hrest =>
    refine ⟨rest.dropWhile Char.isDigit, ?_, fun _ => .point (hdigits text) (hdigits rest),
      head?_dropWhile rest⟩
    rw [List.append_assoc, List.cons_append, List.takeWhile_append_dropWhile, ← hrest, hsplit]
  · exact ⟨_, hsplit.symm, fun hne => .digits hne (hdigits text), head?_dropWhile text⟩

/-- What is read as an exponent is one. No digit follows it if there is an `e`, and something other than
a sign if there is nothing else. -/
theorem exponent?_form {text tail : List Char} (h : exponent? text = some tail) :
    ∃ behind, text = tail ++ behind ∧ IsExponent tail ∧
      (tail ≠ [] → ∀ c ∈ behind.head?, c.isDigit = false) ∧
      (tail = ['e'] → ∃ c ∈ behind.head?, c ≠ '+' ∧ c ≠ '-') := by
  have hdigits : ∀ cs : List Char, ∀ d ∈ cs.takeWhile Char.isDigit, d.isDigit = true :=
    fun cs d hd => List.mem_takeWhile_imp hd
  -- without an exponent, with a sign, with digits only, and at the end
  fun_cases exponent? text with
  | case1 => cases h
  | case2 c rest hsign =>
    rw [exponent?, if_pos hsign] at h
    cases h
    refine ⟨rest.dropWhile Char.isDigit, ?_, .signed hsign (hdigits rest),
      fun _ => head?_dropWhile rest, fun hbare => by cases hbare⟩
    rw [List.cons_append, List.cons_append, List.takeWhile_append_dropWhile]
  | case3 c rest hsign =>
    rw [exponent?, if_neg hsign] at h
    cases h
    refine ⟨(c :: rest).dropWhile Char.isDigit, ?_, .unsigned (hdigits _),
      fun _ => head?_dropWhile _, fun hbare => ?_⟩
    · rw [List.cons_append, List.takeWhile_append_dropWhile]
    · -- no digits were read, so the text goes on with `c`
      have hnone : (c :: rest).takeWhile Char.isDigit = [] := List.tail_eq_of_cons_eq hbare
      have hsame : (c :: rest).dropWhile Char.isDigit = c :: rest := by
        have hsplit := List.takeWhile_append_dropWhile (p := Char.isDigit) (l := c :: rest)
        rwa [hnone] at hsplit
      rw [hsame]
      exact ⟨c, rfl, not_or.1 hsign⟩
  | case4 =>
    simp only [exponent?] at h
    cases h
    exact ⟨text, rfl, .none, fun hne => absurd rfl hne, fun hbare => by cases hbare⟩

/-- What is read as a number is one, in front of what ends it. -/
theorem exists_of_numeric? {text : List Char} {x : Lexeme} (h : numeric? text = some x) :
    ∃ head tail behind, text = head ++ tail ++ behind ∧ IsMantissa head ∧ IsExponent tail ∧
      EndsNumber tail behind ∧
      x = ⟨.numeric, String.ofList (head ++ tail), (head ++ tail).length⟩ := by
  obtain ⟨rest, htext, hmantissa, hdigit⟩ := mantissa_form text
  have hdrop : (mantissa text ++ rest).drop (mantissa text).length = rest := List.drop_left
  rw [← htext] at hdrop
  simp only [numeric?, hdrop] at h
  split at h
  · cases h
  · next hempty =>
    split at h
    · cases h
    · next tail htail =>
      obtain ⟨behind, rfl, hexponent, hmore, hbare⟩ := exponent?_form htail
      have hbehind : text.drop (mantissa text ++ tail).length = behind := by
        rw [List.length_append, ← List.drop_drop, hdrop, List.drop_left]
      -- no digit stands behind the number, whichever part is its last
      have hnext : ∀ c ∈ behind.head?, c.isDigit = false := by
        cases tail with
        | nil => exact hdigit
        | cons c tail => exact hmore (List.cons_ne_nil _ _)
      rw [hbehind] at h
      refine ⟨mantissa text, tail, behind, by rw [List.append_assoc, ← htext],
        hmantissa (by simpa using hempty), hexponent, ?_, ?_⟩
      · refine ⟨fun c hc => ⟨hnext c hc, ?_⟩, hbare⟩
        obtain ⟨others, rfl⟩ := List.head?_eq_some_iff.1 hc
        constructor <;>
          · rintro rfl
            cases h
      · split at h
        · cases h
        · cases h
        · exact (Option.some.inj h).symm

end Lexeme

end SqlStore
