/-! # Byte strings and numbers

* **`Bytes`** — a byte string; its order is lexicographic, a proper beginning first;
* **`littleEndian width n`** — the `width` bytes of a number, least significant first;
* **`ofLittleEndian bytes`** — the number such bytes stand for;
* **`bigEndian`**, **`ofBigEndian`** — the same with the most significant byte first.

Writing undoes reading: `littleEndian_ofLittleEndian` and `bigEndian_ofBigEndian`. -/

namespace SqlStore

/-- A string of bytes. -/
abbrev Bytes := List UInt8

/-! ## Least significant byte first -/

/-- The `width` low bytes of `n`, least significant first. What does not fit is dropped. -/
def littleEndian : Nat → Nat → Bytes
  | 0, _ => []
  | width + 1, n => UInt8.ofNat (n % 256) :: littleEndian width (n / 256)

/-- The number whose bytes are given, least significant first. -/
def ofLittleEndian : Bytes → Nat
  | [] => 0
  | b :: rest => b.toNat + 256 * ofLittleEndian rest

/-- A number is written with exactly `width` bytes. -/
@[simp] theorem length_littleEndian (width n : Nat) : (littleEndian width n).length = width := by
  induction width generalizing n with
  | zero => rfl
  | succ width ih => simp [littleEndian, ih]

/-- Writing what was read gives the bytes back. -/
theorem littleEndian_ofLittleEndian (bytes : Bytes) :
    littleEndian bytes.length (ofLittleEndian bytes) = bytes := by
  induction bytes with
  | nil => rfl
  | cons b rest ih =>
    have hb : b.toNat < 256 := b.toNat_lt
    rw [List.length_cons, littleEndian, ofLittleEndian, Nat.add_mul_mod_self_left,
      Nat.mod_eq_of_lt hb, Nat.add_mul_div_left _ _ (by decide), Nat.div_eq_of_lt hb, Nat.zero_add,
      ih, UInt8.ofNat_toNat]

/-! ## Most significant byte first -/

/-- The `width` low bytes of `n`, most significant first. What does not fit is dropped. -/
def bigEndian (width n : Nat) : Bytes := (littleEndian width n).reverse

/-- The number whose bytes are given, most significant first. -/
def ofBigEndian (bytes : Bytes) : Nat := ofLittleEndian bytes.reverse

/-- A number is written with exactly `width` bytes. -/
@[simp] theorem length_bigEndian (width n : Nat) : (bigEndian width n).length = width := by
  simp [bigEndian]

/-- Writing what was read gives the bytes back. -/
theorem bigEndian_ofBigEndian (bytes : Bytes) :
    bigEndian bytes.length (ofBigEndian bytes) = bytes := by
  have h := littleEndian_ofLittleEndian bytes.reverse
  rw [List.length_reverse] at h
  rw [bigEndian, ofBigEndian, h, List.reverse_reverse]

end SqlStore
