import SqlStore.Numeral

/-! # Numerals without a sign

* **`Numeral.read_nonneg`** — a numeral that does not begin with a minus is no negative integer;
* **`Numeral.isDigit_of_read`** — a numeral that does not begin with a sign has digits only;
* **`Numeral.read_decimal`** — the decimal digits of an integer that fits are read as that integer. -/

namespace SqlStore.Numeral

/-! ## What is read -/

/-- Reading on through digits keeps the number in the range of what has been read so far. -/
theorem readDigits_nonneg {n m : Int} {cs : List Char} (hn : 0 ≤ n ∧ n ≤ Int32.maxValue.toInt)
    (h : readDigits false n cs = .ok m) : 0 ≤ m ∧ m ≤ Int32.maxValue.toInt := by
  induction cs generalizing n with
  | nil =>
    cases h
    exact hn
  | cons c cs ih =>
    rw [readDigits] at h
    split at h
    · next hdigit =>
      -- a digit more makes the number no smaller
      have hc : 48 ≤ c.toNat := by
        rw [Char.isDigit_iff_toNat] at hdigit
        exact hdigit.1
      have hzero : ('0'.toNat : Int) = 48 := rfl
      have hnext : 0 ≤ appendDigit false n c := by
        simp only [appendDigit, Bool.false_eq_true, if_false]
        omega
      simp only at h
      split at h
      · cases h
      · next hmax =>
        split at h
        · cases h
        · exact ih ⟨hnext, Int.not_lt.1 hmax⟩ h
    · cases h

/-- A numeral without a minus in front is read by its digits. -/
theorem readInt_nonneg {cs : List Char} {m : Int} (hsign : cs.head? ≠ some '-')
    (h : readInt cs = .ok m) : 0 ≤ m ∧ m ≤ Int32.maxValue.toInt := by
  have hzero : (0 : Int) ≤ 0 ∧ 0 ≤ Int32.maxValue.toInt := by decide
  unfold readInt at h
  split at h
  · cases h
  · cases h
  · cases h
  · exact readDigits_nonneg hzero h
  · exact absurd rfl hsign
  · exact readDigits_nonneg hzero h

/-- A numeral without a minus in front is no negative integer. -/
theorem read_nonneg {text : String} {n : Int32} (hsign : text.toList.head? ≠ some '-')
    (h : read text = .ok n) : 0 ≤ n.toInt := by
  unfold read at h
  cases hread : readInt text.toList with
  | error fault =>
    rw [hread] at h
    cases h
  | ok m =>
    obtain ⟨hlow, hhigh⟩ := readInt_nonneg hsign hread
    have hmax : Int32.maxValue.toInt = 2 ^ 31 - 1 := rfl
    rw [hread] at h
    obtain rfl := Except.ok.inj h
    rw [Int32.toInt_ofInt_of_le (by omega) (by omega)]
    exact hlow

/-- What is read on through is digits. -/
theorem isDigit_of_readDigits {negative : Bool} {n m : Int} {cs : List Char}
    (h : readDigits negative n cs = .ok m) : ∀ c ∈ cs, c.isDigit = true := by
  induction cs generalizing n with
  | nil => exact List.forall_mem_nil _
  | cons c cs ih =>
    rw [readDigits] at h
    split at h
    · next hdigit =>
      dsimp only at h
      split at h
      · cases h
      · split at h
        · cases h
        · exact List.forall_mem_cons.2 ⟨hdigit, ih h⟩
    · cases h

/-- A numeral that does not begin with a sign has digits only. -/
theorem isDigit_of_read {text : String} {n : Int32} (hplus : text.toList.head? ≠ some '+')
    (hminus : text.toList.head? ≠ some '-') (h : read text = .ok n) :
    ∀ c ∈ text.toList, c.isDigit = true := by
  unfold read readInt at h
  split at h
  · cases h
  · cases h
  · cases h
  · next htext => exact absurd (congrArg List.head? htext) hplus
  · next htext => exact absurd (congrArg List.head? htext) hminus
  · cases hdigits : readDigits false 0 text.toList with
    | error fault =>
      rw [hdigits] at h
      cases h
    | ok m => exact isDigit_of_readDigits hdigits

/-! ## What is written -/

/-- More digits make no smaller number. -/
theorem le_ofDigitChars (n : Nat) (cs : List Char) : n ≤ Nat.ofDigitChars 10 cs n := by
  induction cs generalizing n with
  | nil => exact Nat.le_refl n
  | cons c cs ih =>
    rw [Nat.ofDigitChars_cons]
    have hnext := ih (10 * n + (c.toNat - '0'.toNat))
    omega

/-- Digits that stand for a number in range are read as it. -/
theorem readDigits_ofDigitChars {n : Nat} {cs : List Char} (hdigits : ∀ c ∈ cs, c.isDigit = true)
    (hmax : (Nat.ofDigitChars 10 cs n : Int) ≤ Int32.maxValue.toInt) :
    readDigits false n cs = .ok (Nat.ofDigitChars 10 cs n : Int) := by
  induction cs generalizing n with
  | nil => rfl
  | cons c cs ih =>
    have hdigit := hdigits c List.mem_cons_self
    have hc : 48 ≤ c.toNat := by
      rw [Char.isDigit_iff_toNat] at hdigit
      exact hdigit.1
    have hzero : '0'.toNat = 48 := rfl
    rw [Nat.ofDigitChars_cons] at hmax ⊢
    have hnext : appendDigit false n c = (10 * n + (c.toNat - '0'.toNat) : Nat) := by
      simp only [appendDigit, Bool.false_eq_true, if_false]
      omega
    -- the digits read so far are in range, since all of them are
    have hle := le_ofDigitChars (10 * n + (c.toNat - '0'.toNat)) cs
    have hmin : Int32.minValue.toInt ≤ 0 := by decide
    rw [readDigits, if_pos hdigit, hnext, if_neg (by omega), if_neg (by omega)]
    exact ih (fun d hd => hdigits d (List.mem_cons_of_mem c hd)) hmax

/-- The decimal digits of a number are digits. -/
theorem isDigit_of_mem_decimal {k : Nat} : ∀ c ∈ Nat.toDigits 10 k, c.isDigit = true :=
  fun _ hc => Nat.isDigit_of_mem_toDigits (by decide) (by decide) hc

/-- An integer that is not negative is written with its decimal digits. -/
theorem toList_decimal {n : Int32} (h : 0 ≤ n.toInt) :
    (toString n.toInt).toList = Nat.toDigits 10 n.toInt.toNat := by
  obtain ⟨k, hk⟩ := Int.eq_ofNat_of_zero_le h
  rw [hk]
  exact Nat.toList_repr

/-- Digits are read as a number without a sign. -/
theorem readInt_digits {cs : List Char} (hne : cs ≠ []) (hdigits : ∀ c ∈ cs, c.isDigit = true) :
    readInt cs = readDigits false 0 cs := by
  have hsign : ∀ c ∈ cs.head?, c ≠ '+' ∧ c ≠ '-' := by
    intro c hc
    have hdigit := hdigits c (List.mem_of_mem_head? hc)
    constructor <;>
      · rintro rfl
        exact absurd hdigit (by decide)
  unfold readInt
  split
  · exact absurd rfl hne
  · exact absurd rfl (hsign _ rfl).1
  · exact absurd rfl (hsign _ rfl).2
  · exact absurd rfl (hsign _ rfl).1
  · exact absurd rfl (hsign _ rfl).2
  · rfl

/-- The decimal digits of an integer that is not negative are read as it. -/
theorem read_decimal {n : Int32} (h : 0 ≤ n.toInt) : read (toString n.toInt) = .ok n := by
  have hvalue : Nat.ofDigitChars 10 (Nat.toDigits 10 n.toInt.toNat) 0 = n.toInt.toNat :=
    Nat.ofDigitChars_toDigits (by decide) (by decide)
  have hnat : (n.toInt.toNat : Int) = n.toInt := Int.toNat_of_nonneg h
  have hmax : (n.toInt.toNat : Int) ≤ Int32.maxValue.toInt := hnat ▸ Int32.toInt_le n
  have hread := readDigits_ofDigitChars (n := 0) (isDigit_of_mem_decimal (k := n.toInt.toNat))
    (by rwa [hvalue])
  rw [hvalue, hnat] at hread
  rw [read, toList_decimal h, readInt_digits Nat.toDigits_ne_nil isDigit_of_mem_decimal]
  show (readDigits false ((0 : Nat) : Int) _).map Int32.ofInt = _
  rw [hread]
  exact congrArg Except.ok (Int32.ofInt_toInt n)

end SqlStore.Numeral
