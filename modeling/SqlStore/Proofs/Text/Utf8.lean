import SqlStore.Text.Utf8.RoundTrip
import Mathlib.Algebra.BigOperators.Group.List.Basic

/-! # The bytes of texts

* **`Utf8.encode_injective`** and **`Utf8.flatMap_prefix_iff`** — texts are told apart by their bytes, and a
  text opens with another exactly if its bytes do;
* **`Utf8.length_toList_le`** — no text has more characters than bytes;
* **`Utf8.le_toNat_of_mem`** — the bytes below 128 are those of ASCII characters, one each;
* **`Utf8.flatMap_toLower`** — letters change case in the bytes of a text as they do in the text. -/

namespace SqlStore

namespace Utf8

/-! ## Texts and their bytes -/

/-- The bytes of two texts stand one behind the other. -/
theorem encode_append (a b : String) : encode (a ++ b) = encode a ++ encode b := by
  simp [encode]

/-- Characters are told apart by their bytes, whatever follows them. -/
theorem encodeChar_append_inj {c d : Char} {rest rest' : Bytes}
    (h : String.utf8EncodeChar c ++ rest = String.utf8EncodeChar d ++ rest') : c = d ∧ rest = rest' := by
  obtain ⟨first, tail, hc, hread⟩ := readChar_encodeChar c rest
  obtain ⟨first', tail', hd, hread'⟩ := readChar_encodeChar d rest'
  rw [hc, hd, List.cons_append, List.cons_append] at h
  obtain ⟨rfl, htail⟩ := List.cons.inj h
  rw [htail, hread', Except.ok.injEq, Prod.mk.injEq] at hread
  exact ⟨hread.1.symm, hread.2.symm⟩

/-- Characters open with others exactly if their bytes do. -/
theorem flatMap_prefix_iff {cs ds : List Char} :
    cs.flatMap String.utf8EncodeChar <+: ds.flatMap String.utf8EncodeChar ↔ cs <+: ds := by
  constructor
  · intro h
    induction cs generalizing ds with
    | nil => exact List.nil_prefix
    | cons c cs ih =>
      obtain ⟨rest, hrest⟩ := h
      cases ds with
      | nil =>
        rw [List.flatMap_cons, List.flatMap_nil] at hrest
        have hnil := (List.append_eq_nil_iff.1 (List.append_eq_nil_iff.1 hrest).1).1
        exact absurd hnil String.utf8EncodeChar_ne_nil
      | cons d ds =>
        rw [List.flatMap_cons, List.flatMap_cons, List.append_assoc] at hrest
        obtain ⟨rfl, hothers⟩ := encodeChar_append_inj hrest
        exact List.cons_prefix_cons.2 ⟨rfl, ih ⟨rest, hothers⟩⟩
  · rintro ⟨rest, rfl⟩
    rw [List.flatMap_append]
    exact List.prefix_append _ _

/-- Texts are told apart by their bytes. -/
theorem encode_injective : Function.Injective encode := by
  intro s t h
  have hdecode := decode_encode s
  rw [h, decode_encode t] at hdecode
  exact (Except.ok.inj hdecode).symm

/-- Only the empty text has no bytes. -/
theorem encode_eq_nil_iff {s : String} : encode s = [] ↔ s = "" :=
  ⟨fun h => encode_injective h, fun h => congrArg encode h⟩

/-- Every character takes up a byte at least. -/
theorem length_toList_le (s : String) : s.toList.length ≤ (encode s).length := by
  rw [encode, List.length_flatMap, ← List.length_map fun c => (String.utf8EncodeChar c).length]
  apply List.length_le_sum_of_one_le
  intro width hwidth
  obtain ⟨c, -, rfl⟩ := List.mem_map.1 hwidth
  rw [String.length_utf8EncodeChar]
  exact c.utf8Size_pos

/-! ## ASCII characters -/

/-- Only ASCII characters have a byte below 128. -/
theorem le_toNat_of_mem {c : Char} (h : 127 < c.toNat) {b : UInt8}
    (hb : b ∈ String.utf8EncodeChar c) : 128 ≤ b.toNat := by
  rw [encodeChar_eq, if_neg (Nat.not_le.2 h)] at hb
  split at hb
  · simp only [List.mem_cons, List.not_mem_nil, or_false] at hb
    rcases hb with rfl | rfl <;> rw [UInt8.toNat_ofNat'] <;> omega
  · split at hb
    · simp only [List.mem_cons, List.not_mem_nil, or_false] at hb
      rcases hb with rfl | rfl | rfl <;> rw [UInt8.toNat_ofNat'] <;> omega
    · simp only [List.mem_cons, List.not_mem_nil, or_false] at hb
      rcases hb with rfl | rfl | rfl | rfl <;> rw [UInt8.toNat_ofNat'] <;> omega

/-- Every ASCII character takes up one byte. -/
theorem length_encode_of_lt {cs : List Char} (h : ∀ c ∈ cs, c.toNat < 128) :
    (encode (String.ofList cs)).length = cs.length := by
  have hone : ∀ c ∈ cs, (String.utf8EncodeChar c).length = 1 := by
    intro c hc
    rw [encodeChar_eq, if_pos (Nat.le_of_lt_succ (h c hc))]
    rfl
  rw [encode, String.toList_ofList, List.length_flatMap, List.map_congr_left hone, List.map_const',
    List.sum_replicate_nat, Nat.mul_one]

end Utf8

/-! ## Letter case -/

/-- The lower case of an upper-case letter lies 32 places behind it. -/
theorem toNat_toLower {c : Char} (h : c.val ≥ 'A'.val ∧ c.val ≤ 'Z'.val) :
    c.toLower.val.toNat = c.val.toNat + 32 := by
  have hval : c.toLower.val = c.val + ('a'.val - 'A'.val) := congrArg Char.val (dif_pos h)
  have hbound : c.val.toNat ≤ 90 := UInt32.le_iff_toNat_le.1 h.2
  have hdist : ('a'.val - 'A'.val).toNat = 32 := rfl
  rw [hval, UInt32.toNat_add, hdist, Nat.mod_eq_of_lt (by omega)]

namespace Utf8

/-- The byte of an upper-case letter becomes that of the lower-case one. -/
theorem toNat_toAsciiLower {b : UInt8} (h : 65 ≤ b.toNat ∧ b.toNat ≤ 90) :
    b.toAsciiLower.toNat = b.toNat + 32 := by
  have hletter : b - 65 < 26 := by
    rw [UInt8.lt_iff_toNat_lt, UInt8.toNat_sub]
    show (2 ^ 8 - 65 + b.toNat) % 2 ^ 8 < 26
    omega
  rw [UInt8.toAsciiLower, decide_eq_true hletter, UInt8.toNat_add]
  show (b.toNat + 32) % 2 ^ 8 = b.toNat + 32
  omega

/-- Every other byte stays as it is. -/
theorem toAsciiLower_eq {b : UInt8} (h : ¬ (65 ≤ b.toNat ∧ b.toNat ≤ 90)) : b.toAsciiLower = b := by
  have hb := b.toNat_lt
  have hother : ¬ b - 65 < 26 := by
    rw [UInt8.lt_iff_toNat_lt, UInt8.toNat_sub]
    show ¬ (2 ^ 8 - 65 + b.toNat) % 2 ^ 8 < 26
    omega
  rw [UInt8.toAsciiLower, decide_eq_false hother]
  exact UInt8.add_zero b

/-- A letter changes case in its byte, and every other character keeps its bytes. -/
theorem encodeChar_toLower (c : Char) :
    String.utf8EncodeChar c.toLower = (String.utf8EncodeChar c).map UInt8.toAsciiLower := by
  by_cases hupper : c.val ≥ 'A'.val ∧ c.val ≤ 'Z'.val
  · have hlow : 65 ≤ c.toNat := UInt32.le_iff_toNat_le.1 hupper.1
    have hhigh : c.toNat ≤ 90 := UInt32.le_iff_toNat_le.1 hupper.2
    have hlower : c.toLower.toNat = c.toNat + 32 := toNat_toLower hupper
    have hbyte : (UInt8.ofNat c.toNat).toNat = c.toNat := toNat_ofNat_of_lt (by omega)
    have hcase : UInt8.ofNat (c.toNat + 32) = (UInt8.ofNat c.toNat).toAsciiLower := by
      apply UInt8.toNat_inj.1
      rw [toNat_toAsciiLower (by omega), hbyte, toNat_ofNat_of_lt (by omega)]
    rw [encodeChar_eq, encodeChar_eq, if_pos (by omega), if_pos (by omega), List.map_singleton, hlower,
      hcase]
  · have hsame : c.toLower = c := dif_neg hupper
    have hbytes : ∀ b ∈ String.utf8EncodeChar c, b.toAsciiLower = b := by
      intro b hb
      apply toAsciiLower_eq
      rcases Nat.lt_or_ge 127 c.toNat with hwide | hascii
      · have hle := le_toNat_of_mem hwide hb
        omega
      · -- the byte of an ASCII character is its code point
        rw [encodeChar_eq, if_pos hascii, List.mem_singleton] at hb
        rw [hb, toNat_ofNat_of_lt (by omega)]
        exact fun h => hupper ⟨UInt32.le_iff_toNat_le.2 h.1, UInt32.le_iff_toNat_le.2 h.2⟩
    rw [hsame, List.map_congr_left hbytes, List.map_id']

/-- Letters change case in the bytes of a text as they do in the text. -/
theorem flatMap_toLower (text : List Char) :
    (text.map Char.toLower).flatMap String.utf8EncodeChar
      = (text.flatMap String.utf8EncodeChar).map UInt8.toAsciiLower := by
  induction text with
  | nil => rfl
  | cons c text ih =>
    rw [List.map_cons, List.flatMap_cons, List.flatMap_cons, List.map_append, ih, encodeChar_toLower]

end Utf8

end SqlStore
