import SqlStore.Error
import SqlStore.Proofs.Record.RoundTrip

/-! # Values and their bytes

For each type, the values of that type and the bytes that can be read as it are in bijection:

* **`Value.ofBytes_eq_ok_iff`** — bytes are read as a value of a type exactly if the value has that
  type and is stored as those bytes;
* **`Value.ofBytes_int_eq_ok_iff`** — the four bytes of an integer are its two's complement, the most
  significant first;
* **`Utf8.isValidUTF8_iff`** — the bytes of texts are those that are valid UTF-8;
* **`Value.ofBytes_bijective`** — which bytes are read, as what, and what is said of the others. -/

namespace SqlStore

/-! ## Valid UTF-8 -/

namespace Utf8

/-- The bytes of a text are those that the text is made of. -/
theorem toByteArray_encode (s : String) : (encode s).toByteArray = s.toUTF8 :=
  String.utf8Encode_toList

/-- Byte strings with the same array of bytes are the same. -/
theorem eq_of_toByteArray_eq {bytes others : Bytes}
    (h : bytes.toByteArray = others.toByteArray) : bytes = others := by
  have hdata := congrArg (fun array => array.data.toList) h
  simpa using hdata

/-- Bytes are valid UTF-8 if they are the bytes of some text. -/
theorem isValidUTF8_iff {bytes : Bytes} :
    bytes.toByteArray.IsValidUTF8 ↔ ∃ s, encode s = bytes := by
  constructor
  · rintro ⟨chars, hchars⟩
    refine ⟨String.ofList chars, ?_⟩
    rw [encode, String.toList_ofList]
    exact (eq_of_toByteArray_eq hchars).symm
  · rintro ⟨s, rfl⟩
    exact ⟨s.toList, rfl⟩

end Utf8

namespace Value

/-! ## Reading is the inverse of writing -/

/-- Bytes that are read as a value of a type are the bytes of that value, and its type is that one. -/
theorem toBytes_of_ofBytes {type : ColumnType} {bytes : Bytes} {v : Value}
    (h : ofBytes type bytes = .ok v) : v.type = type ∧ v.toBytes = bytes := by
  cases type with
  | int =>
    rw [ofBytes] at h
    split at h
    · next hlen =>
      cases h
      -- what four bytes stand for fits the number that they are read into
      have hbound : ofBigEndian bytes < 2 ^ 32 := by
        have hlt := ofBigEndian_lt bytes
        rw [hlen] at hlt
        exact hlt
      refine ⟨rfl, ?_⟩
      rw [toBytes, UInt32.toUInt32_toInt32, UInt32.toNat_ofNat_of_lt' hbound, ← hlen]
      exact bigEndian_ofBigEndian bytes
    · cases h
  | text =>
    rw [ofBytes] at h
    split at h
    · next s hdecode =>
      cases h
      exact ⟨rfl, Utf8.encode_of_decode hdecode⟩
    · cases h

/-- Bytes are read as a value of a type exactly if the value has that type and is stored as those
bytes. -/
theorem ofBytes_eq_ok_iff {type : ColumnType} {bytes : Bytes} {v : Value} :
    ofBytes type bytes = .ok v ↔ v.type = type ∧ v.toBytes = bytes := by
  constructor
  · exact toBytes_of_ofBytes
  · rintro ⟨rfl, rfl⟩
    exact ofBytes_toBytes v

/-! ## Integers -/

/-- The first byte of an integer counts from `-128`. -/
theorem toInt_toInt8 (b : UInt8) : b.toInt8.toInt = (b.toNat : Int).bmod (2 ^ 8) :=
  BitVec.toInt_eq_toNat_bmod b.toBitVec

/-- A number of 32 bits counts from `-2 ^ 31`. -/
theorem toInt_toInt32 (m : UInt32) : m.toInt32.toInt = (m.toNat : Int).bmod (2 ^ 32) :=
  BitVec.toInt_eq_toNat_bmod m.toBitVec

/-- Four bytes are the digits of an integer to the base `256`, the sign being in the first of them. -/
theorem toInt_ofBigEndian (a b c d : UInt8) :
    (UInt32.ofNat (ofBigEndian [a, b, c, d])).toInt32.toInt
      = ((a.toInt8.toInt * 256 + b.toNat) * 256 + c.toNat) * 256 + d.toNat := by
  have hread : ofBigEndian [a, b, c, d]
      = ((a.toNat * 256 + b.toNat) * 256 + c.toNat) * 256 + d.toNat := by
    simp only [ofBigEndian, List.reverse_cons, List.reverse_nil, List.nil_append,
      List.cons_append, ofLittleEndian]
    omega
  have ha := a.toNat_lt
  have hb := b.toNat_lt
  have hc := c.toNat_lt
  have hd := d.toNat_lt
  have hbound : ofBigEndian [a, b, c, d] < UInt32.size := by
    rw [hread, UInt32.size]
    omega
  -- from `2 ^ 31` on, both sides drop by `2 ^ 32`: the first byte by `256`, and it weighs `256 ^ 3`
  rw [toInt_toInt32, toInt_toInt8, UInt32.toNat_ofNat_of_lt' hbound, hread]
  simp only [Int.bmod_def]
  omega

/-- Four bytes are read as the integer of which they are the two's complement, the most significant
byte first. -/
theorem ofBytes_int_eq_ok_iff {a b c d : UInt8} {n : Int32} :
    ofBytes .int [a, b, c, d] = .ok (.int n) ↔
      n.toInt = ((a.toInt8.toInt * 256 + b.toNat) * 256 + c.toNat) * 256 + d.toNat := by
  have hread : ofBytes .int [a, b, c, d]
      = .ok (.int (UInt32.ofNat (ofBigEndian [a, b, c, d])).toInt32) := rfl
  rw [hread, ← toInt_ofBigEndian, Int32.toInt_inj, Except.ok.injEq, Value.int.injEq, eq_comm]

/-- Every integer has its four bytes. -/
theorem exists_ofBytes_eq_int (n : Int32) :
    ∃ a b c d, ofBytes .int [a, b, c, d] = .ok (.int n) :=
  ⟨_, _, _, _, ofBytes_eq_ok_iff.2 ⟨rfl, rfl⟩⟩

/-- Bytes are refused as an integer for their number. -/
theorem ofBytes_int_eq_error_iff {bytes : Bytes} :
    ofBytes .int bytes = .error (.width bytes.length) ↔ bytes.length ≠ 4 := by
  rw [ofBytes, intWidth]
  split
  · next hlen => simp [hlen]
  · next hlen => simp [hlen]

/-- Bytes are read as an integer if there are four of them. -/
theorem exists_ofBytes_int_iff {bytes : Bytes} :
    (∃ v, ofBytes .int bytes = .ok v) ↔ bytes.length = 4 := by
  rw [ofBytes, intWidth]
  split
  · next hlen => simp [hlen]
  · next hlen => simp [hlen]

/-! ## Texts -/

/-- Bytes are read as the text that is made of them. -/
theorem ofBytes_text_eq_ok_iff {bytes : Bytes} {s : String} :
    ofBytes .text bytes = .ok (.text s) ↔ bytes.toByteArray = s.toUTF8 := by
  rw [ofBytes_eq_ok_iff, ← Utf8.toByteArray_encode]
  constructor
  · rintro ⟨-, rfl⟩
    rfl
  · intro h
    exact ⟨rfl, (Utf8.eq_of_toByteArray_eq h).symm⟩

/-- Bytes are read as a text if they are valid UTF-8. -/
theorem exists_ofBytes_text_iff {bytes : Bytes} :
    (∃ v, ofBytes .text bytes = .ok v) ↔ bytes.toByteArray.IsValidUTF8 := by
  rw [Utf8.isValidUTF8_iff]
  simp only [← Utf8.decode_eq_ok_iff, ofBytes]
  cases Utf8.decode bytes <;> simp

/-- Other bytes are refused as a text for what is wrong with them. -/
theorem exists_ofBytes_text_eq_error_iff {bytes : Bytes} :
    (∃ fault, ofBytes .text bytes = .error (.utf8 fault)) ↔ ¬ bytes.toByteArray.IsValidUTF8 := by
  rw [← exists_ofBytes_text_iff, ofBytes]
  cases Utf8.decode bytes <;> simp

/-! ## All bytes -/

/-- A cell is reported as damaged for the fault of its bytes. -/
theorem mapError_damagedCell_iff {read : Except CellFault Value} {fault : CellFault} :
    read.mapError Error.damagedCell = .error (.damagedCell fault) ↔ read = .error fault := by
  cases read with
  | ok v => exact ⟨nofun, nofun⟩
  | error found =>
    constructor
    · rintro ⟨⟩
      rfl
    · rintro ⟨⟩
      rfl

/-- Reading and writing are inverse to each other: bytes are read as a value of a type exactly if the
value has that type and is stored as those bytes. Read as integers are the byte strings of length
four, each as the integer whose two's complement it is, which are all integers. Read as texts are the
byte strings that are valid UTF-8, each as the text that is made of it. Every other cell is reported
as damaged. -/
theorem ofBytes_bijective :
    (∀ type bytes v, ofBytes type bytes = .ok v ↔ v.type = type ∧ v.toBytes = bytes) ∧
    (∀ bytes, (∃ v, ofBytes .int bytes = .ok v) ↔ bytes.length = 4) ∧
    (∀ a b c d n, ofBytes .int [a, b, c, d] = .ok (.int n) ↔
      n.toInt = ((a.toInt8.toInt * 256 + b.toNat) * 256 + c.toNat) * 256 + d.toNat) ∧
    (∀ n, ∃ a b c d, ofBytes .int [a, b, c, d] = .ok (.int n)) ∧
    (∀ bytes, (∃ v, ofBytes .text bytes = .ok v) ↔ bytes.toByteArray.IsValidUTF8) ∧
    (∀ bytes s, ofBytes .text bytes = .ok (.text s) ↔ bytes.toByteArray = s.toUTF8) ∧
    (∀ bytes, (ofBytes .int bytes).mapError Error.damagedCell
        = .error (.damagedCell (.width bytes.length)) ↔ bytes.length ≠ 4) ∧
    ∀ bytes, (∃ fault, (ofBytes .text bytes).mapError Error.damagedCell
        = .error (.damagedCell (.utf8 fault))) ↔ ¬ bytes.toByteArray.IsValidUTF8 := by
  refine ⟨fun _ _ _ => ofBytes_eq_ok_iff, fun _ => exists_ofBytes_int_iff,
    fun _ _ _ _ _ => ofBytes_int_eq_ok_iff, exists_ofBytes_eq_int,
    fun _ => exists_ofBytes_text_iff, fun _ _ => ofBytes_text_eq_ok_iff, fun bytes => ?_,
    fun bytes => ?_⟩
  · rw [mapError_damagedCell_iff, ofBytes_int_eq_error_iff]
  · simp only [mapError_damagedCell_iff, exists_ofBytes_text_eq_error_iff]

end Value

end SqlStore
