import SqlStore.Bytes
import Mathlib.Algebra.Group.Nat.Defs

/-! # Numbers as bytes

* **`ofLittleEndian_littleEndian`**, **`ofBigEndian_bigEndian`** — a number is read back up to the range
  of its width;
* **`ofLittleEndian_lt`**, **`ofBigEndian_lt`** — bytes stand for a number in the range of their count;
* **`bigEndian_lt`** — the order of numbers is the order of their bytes, the most significant first. -/

namespace SqlStore

/-! ## Reading back -/

/-- Reading what was written gives the number modulo the range of the width. -/
theorem ofLittleEndian_littleEndian (width n : Nat) :
    ofLittleEndian (littleEndian width n) = n % 256 ^ width := by
  induction width generalizing n with
  | zero => simp [littleEndian, ofLittleEndian, Nat.mod_one]
  | succ width ih =>
    have low : (UInt8.ofNat (n % 256)).toNat = n % 256 := by
      simp
    rw [littleEndian, ofLittleEndian, ih, low, Nat.pow_succ', Nat.mod_mul]

/-- The number that bytes stand for is below the range of their count. -/
theorem ofLittleEndian_lt (bytes : Bytes) : ofLittleEndian bytes < 256 ^ bytes.length := by
  induction bytes with
  | nil => simp [ofLittleEndian]
  | cons b rest ih =>
    have hb : b.toNat < 256 := b.toNat_lt
    rw [ofLittleEndian, List.length_cons, Nat.pow_succ]
    omega

/-- The number that bytes stand for is below the range of their count. -/
theorem ofBigEndian_lt (bytes : Bytes) : ofBigEndian bytes < 256 ^ bytes.length := by
  have h := ofLittleEndian_lt bytes.reverse
  rwa [List.length_reverse] at h

/-- Reading what was written gives the number modulo the range of the width. -/
theorem ofBigEndian_bigEndian (width n : Nat) :
    ofBigEndian (bigEndian width n) = n % 256 ^ width := by
  simp [ofBigEndian, bigEndian, ofLittleEndian_littleEndian]

/-! ## The order of numbers -/

/-- One more byte than `width` is the next more significant one. -/
theorem littleEndian_succ (width n : Nat) :
    littleEndian (width + 1) n
      = littleEndian width n ++ [UInt8.ofNat (n / 256 ^ width % 256)] := by
  induction width generalizing n with
  | zero => simp [littleEndian]
  | succ width ih =>
    rw [littleEndian, ih, littleEndian, List.cons_append, Nat.div_div_eq_div_mul, Nat.pow_succ']

/-- The most significant byte stands first. -/
theorem bigEndian_succ (width n : Nat) :
    bigEndian (width + 1) n = UInt8.ofNat (n / 256 ^ width % 256) :: bigEndian width n := by
  rw [bigEndian, littleEndian_succ, List.reverse_append, List.reverse_singleton, bigEndian,
    List.singleton_append]

/-- A greater number has greater bytes. -/
theorem bigEndian_lt {width m n : Nat} (h : m % 256 ^ width < n % 256 ^ width) :
    bigEndian width m < bigEndian width n := by
  induction width with
  | zero => simp [Nat.mod_one] at h
  | succ width ih =>
    rw [Nat.mod_pow_succ, Nat.mod_pow_succ] at h
    rw [bigEndian_succ, bigEndian_succ, List.cons_lt_cons_iff]
    have hm : m / 256 ^ width % 256 < 256 := Nat.mod_lt _ (by decide)
    have hn : n / 256 ^ width % 256 < 256 := Nat.mod_lt _ (by decide)
    -- the leading bytes decide, and where they are equal the others do
    rcases Nat.lt_trichotomy (m / 256 ^ width % 256) (n / 256 ^ width % 256) with hlt | heq | hgt
    · left
      rw [UInt8.lt_iff_toNat_lt, UInt8.toNat_ofNat_of_lt' hm, UInt8.toNat_ofNat_of_lt' hn]
      exact hlt
    · right
      rw [heq] at h ⊢
      exact ⟨rfl, ih (Nat.lt_of_add_lt_add_right h)⟩
    · -- the leading byte of `m` alone already makes it the greater number
      have hlow : n % 256 ^ width < 256 ^ width := Nat.mod_lt _ (Nat.pow_pos (by decide))
      have hhigh : 256 ^ width * (n / 256 ^ width % 256) + 256 ^ width
          ≤ 256 ^ width * (m / 256 ^ width % 256) := by
        rw [← Nat.mul_succ]
        exact Nat.mul_le_mul_left _ hgt
      omega

end SqlStore
