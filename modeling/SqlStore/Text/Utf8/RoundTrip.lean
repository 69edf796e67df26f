import SqlStore.Text.Utf8

/-! # UTF-8 read and written

Reading UTF-8 and writing it are inverse to each other:

* **`readChar_encodeChar`** — the bytes of a character are read back whatever follows them;
* **`encodeChar_of_readChar`** — what is read as a character is the bytes of that character;
* **`decode_encode`** and **`encode_of_decode`** — the same for a whole text;
* **`decode_eq_ok_iff`** — so bytes are read as a text exactly if they are its written form. -/

namespace SqlStore.Utf8

/-! ## Bytes as numbers -/

/-- A number below 256 is the number of its byte. -/
theorem toNat_ofNat_of_lt {n : Nat} (h : n < 256) : (UInt8.ofNat n).toNat = n := by
  simp [Nat.mod_eq_of_lt h]

/-- A byte is the byte of its number. -/
theorem ofNat_eq_of_toNat_eq {b : UInt8} {n : Nat} (h : n = b.toNat) : UInt8.ofNat n = b := by
  rw [h, UInt8.ofNat_toNat]

/-- The code point of a character lies below the surrogates, or above them and below the end of
Unicode. -/
theorem toNat_range (c : Char) : c.toNat < 0xD800 ∨ 0xDFFF < c.toNat ∧ c.toNat < 0x110000 :=
  c.valid

/-- A number outside the surrogates and below the end of Unicode is a code point. -/
theorem toNat_charOfNat {n : Nat} (h : n < 0xD800 ∨ 0xDFFF < n ∧ n < 0x110000) :
    (Char.ofNat n).toNat = n := by
  have hvalid : n.isValidChar := h
  rw [Char.ofNat, dif_pos hvalid]
  rfl

/-! ## The parts of a character -/

/-- The bytes of a character, by the size of its code point. -/
theorem encodeChar_eq (c : Char) :
    String.utf8EncodeChar c =
      if c.toNat ≤ 0x7f then [UInt8.ofNat c.toNat]
      else if c.toNat ≤ 0x7ff then
        [UInt8.ofNat (c.toNat / 64 % 32 + 192), UInt8.ofNat (c.toNat % 64 + 128)]
      else if c.toNat ≤ 0xffff then
        [UInt8.ofNat (c.toNat / 4096 % 16 + 224), UInt8.ofNat (c.toNat / 64 % 64 + 128),
          UInt8.ofNat (c.toNat % 64 + 128)]
      else
        [UInt8.ofNat (c.toNat / 262144 % 8 + 240), UInt8.ofNat (c.toNat / 4096 % 64 + 128),
          UInt8.ofNat (c.toNat / 64 % 64 + 128), UInt8.ofNat (c.toNat % 64 + 128)] := rfl

/-- A trailing byte in range adds its six bits to the code point. -/
theorem readTrailing_cons {low high bits done n : Nat} {b : UInt8} {rest : Bytes}
    (h : low ≤ b.toNat ∧ b.toNat ≤ high) :
    readTrailing low high bits done (n + 1) (b :: rest)
      = readTrailing 0x80 0xBF (bits * 64 + b.toNat % 64) (done + 1) n rest := by
  rw [readTrailing, if_pos h]

/-- Where trailing bytes are read, the first of them is in range. -/
theorem readTrailing_succ_eq_ok {low high bits done n code : Nat} {bytes rest : Bytes}
    (h : readTrailing low high bits done (n + 1) bytes = .ok (code, rest)) :
    ∃ b tail, bytes = b :: tail ∧ (low ≤ b.toNat ∧ b.toNat ≤ high) ∧
      readTrailing 0x80 0xBF (bits * 64 + b.toNat % 64) (done + 1) n tail = .ok (code, rest) := by
  cases bytes with
  | nil => cases h
  | cons b tail =>
    rw [readTrailing] at h
    split at h
    · next hb => exact ⟨b, tail, rfl, hb, h⟩
    · cases h

/-- Where no trailing byte is due, none is read. -/
theorem readTrailing_zero_eq_ok {low high bits done code : Nat} {bytes rest : Bytes}
    (h : readTrailing low high bits done 0 bytes = .ok (code, rest)) :
    code = bits ∧ bytes = rest := by
  cases h
  exact ⟨rfl, rfl⟩

/-- A character is read where its first byte and the bytes after it are. -/
theorem readChar_eq_ok_iff {first : UInt8} {bytes rest : Bytes} {c : Char} :
    readChar first bytes = .ok (c, rest) ↔
      ∃ n low high bits code, lead? first = some ⟨n, low, high, bits⟩ ∧
        readTrailing low high bits 1 n bytes = .ok (code, rest) ∧ c = Char.ofNat code := by
  unfold readChar
  cases hlead : lead? first with
  | none => simp
  | some l =>
    obtain ⟨n, low, high, bits⟩ := l
    cases hread : readTrailing low high bits 1 n bytes with
    | error e =>
      constructor
      · intro h
        simp [hread, Except.map] at h
      · rintro ⟨_, _, _, _, code, hl, hr, -⟩
        cases hl
        rw [hread] at hr
        cases hr
    | ok found =>
      obtain ⟨code, after⟩ := found
      simp only [hread, Except.map, Except.ok.injEq, Prod.mk.injEq]
      constructor
      · rintro ⟨rfl, rfl⟩
        exact ⟨n, low, high, bits, code, rfl, hread, rfl⟩
      · rintro ⟨_, _, _, _, code', hl, hr, rfl⟩
        cases hl
        rw [hread] at hr
        cases hr
        exact ⟨rfl, rfl⟩

/-! ## One character -/

/-- The first byte of a character of two bytes. -/
theorem lead?_two {first : UInt8} (h : 0xC2 ≤ first.toNat ∧ first.toNat < 0xE0) :
    lead? first = some ⟨1, 0x80, 0xBF, first.toNat - 0xC0⟩ := by
  simp only [lead?]
  rw [if_neg (by omega), if_neg (by omega), if_pos h.2]

/-- The first byte of a character of three bytes. -/
theorem lead?_three {first : UInt8} (h : 0xE0 ≤ first.toNat ∧ first.toNat < 0xF0) :
    lead? first = some ⟨2, if first.toNat = 0xE0 then 0xA0 else 0x80,
      if first.toNat = 0xED then 0x9F else 0xBF, first.toNat - 0xE0⟩ := by
  simp only [lead?]
  rw [if_neg (by omega), if_neg (by omega), if_neg (by omega), if_pos h.2]

/-- The first byte of a character of four bytes. -/
theorem lead?_four {first : UInt8} (h : 0xF0 ≤ first.toNat ∧ first.toNat < 0xF5) :
    lead? first = some ⟨3, if first.toNat = 0xF0 then 0x90 else 0x80,
      if first.toNat = 0xF4 then 0x8F else 0xBF, first.toNat - 0xF0⟩ := by
  simp only [lead?]
  rw [if_neg (by omega), if_neg (by omega), if_neg (by omega), if_neg (by omega), if_pos h.2]

/-- A trailing byte that was written stands for six bits. -/
theorem toNat_trailing (n : Nat) : (UInt8.ofNat (n % 64 + 128)).toNat = n % 64 + 128 :=
  toNat_ofNat_of_lt (by omega)

/-- A trailing byte that was written is read back. -/
theorem readTrailing_written (n : Nat) {low high bits done left : Nat} {rest : Bytes}
    (hlow : low ≤ n % 64 + 128) (hhigh : n % 64 + 128 ≤ high) :
    readTrailing low high bits done (left + 1) (UInt8.ofNat (n % 64 + 128) :: rest)
      = readTrailing 0x80 0xBF (bits * 64 + n % 64) (done + 1) left rest := by
  have hbyte := toNat_trailing n
  have hbits : (n % 64 + 128) % 64 = n % 64 := by omega
  rw [readTrailing_cons (by rw [hbyte]; exact ⟨hlow, hhigh⟩), hbyte, hbits]

/-- A code point of seven bits is read back from its byte. -/
theorem readChar_one {v : Nat} (h : v ≤ 0x7f) (rest : Bytes) :
    readChar (UInt8.ofNat v) rest = .ok (Char.ofNat v, rest) := by
  have hfirst : (UInt8.ofNat v).toNat = v := toNat_ofNat_of_lt (by omega)
  refine readChar_eq_ok_iff.2 ⟨0, 0x80, 0xBF, v, v, ?_, rfl, rfl⟩
  simp only [lead?]
  rw [hfirst, if_pos (by omega)]

/-- A code point of eleven bits is read back from its two bytes. -/
theorem readChar_two {v : Nat} (h : 0x7f < v ∧ v ≤ 0x7ff) (rest : Bytes) :
    readChar (UInt8.ofNat (v / 64 % 32 + 192)) (UInt8.ofNat (v % 64 + 128) :: rest)
      = .ok (Char.ofNat v, rest) := by
  have hfirst : (UInt8.ofNat (v / 64 % 32 + 192)).toNat = v / 64 + 192 := by
    rw [toNat_ofNat_of_lt (by omega)]
    omega
  have hbits : (v / 64 + 192 - 0xC0) * 64 + v % 64 = v := by omega
  refine readChar_eq_ok_iff.2 ⟨_, _, _, _, v, lead?_two (by omega), ?_, rfl⟩
  rw [hfirst, readTrailing_written v (by omega) (by omega), readTrailing, hbits]

/-- A code point of sixteen bits that is no surrogate is read back from its three bytes. -/
theorem readChar_three {v : Nat} (h : 0x7ff < v ∧ v ≤ 0xffff) (hv : v < 0xD800 ∨ 0xDFFF < v)
    (rest : Bytes) :
    readChar (UInt8.ofNat (v / 4096 % 16 + 224))
        (UInt8.ofNat (v / 64 % 64 + 128) :: UInt8.ofNat (v % 64 + 128) :: rest)
      = .ok (Char.ofNat v, rest) := by
  have hfirst : (UInt8.ofNat (v / 4096 % 16 + 224)).toNat = v / 4096 + 224 := by
    rw [toNat_ofNat_of_lt (by omega)]
    omega
  have hbits : ((v / 4096 + 224 - 0xE0) * 64 + v / 64 % 64) * 64 + v % 64 = v := by omega
  refine readChar_eq_ok_iff.2 ⟨_, _, _, _, v, lead?_three (by omega), ?_, rfl⟩
  -- the second byte is in the range that the first one leaves
  rw [hfirst, readTrailing_written (v / 64) (by split <;> omega) (by split <;> omega),
    readTrailing_written v (by omega) (by omega), readTrailing, hbits]

/-- A code point of more than sixteen bits is read back from its four bytes. -/
theorem readChar_four {v : Nat} (h : 0xffff < v ∧ v < 0x110000) (rest : Bytes) :
    readChar (UInt8.ofNat (v / 262144 % 8 + 240))
        (UInt8.ofNat (v / 4096 % 64 + 128) :: UInt8.ofNat (v / 64 % 64 + 128)
          :: UInt8.ofNat (v % 64 + 128) :: rest)
      = .ok (Char.ofNat v, rest) := by
  have hfirst : (UInt8.ofNat (v / 262144 % 8 + 240)).toNat = v / 262144 + 240 := by
    rw [toNat_ofNat_of_lt (by omega)]
    omega
  have hbits : (((v / 262144 + 240 - 0xF0) * 64 + v / 4096 % 64) * 64 + v / 64 % 64) * 64 + v % 64
      = v := by omega
  refine readChar_eq_ok_iff.2 ⟨_, _, _, _, v, lead?_four (by omega), ?_, rfl⟩
  rw [hfirst, readTrailing_written (v / 4096) (by split <;> omega) (by split <;> omega),
    readTrailing_written (v / 64) (by omega) (by omega),
    readTrailing_written v (by omega) (by omega), readTrailing, hbits]

/-- The bytes of a character are not empty, and they are read back whatever follows them. -/
theorem readChar_encodeChar (c : Char) (rest : Bytes) :
    ∃ first tail, String.utf8EncodeChar c = first :: tail ∧
      readChar first (tail ++ rest) = .ok (c, rest) := by
  have hrange := toNat_range c
  have hchar : Char.ofNat c.toNat = c := Char.ofNat_toNat c
  rw [encodeChar_eq]
  by_cases h1 : c.toNat ≤ 0x7f
  · refine ⟨_, _, if_pos h1, ?_⟩
    rw [List.nil_append, readChar_one h1, hchar]
  rw [if_neg h1]
  by_cases h2 : c.toNat ≤ 0x7ff
  · refine ⟨_, _, if_pos h2, ?_⟩
    rw [List.cons_append, List.nil_append, readChar_two (by omega), hchar]
  rw [if_neg h2]
  by_cases h3 : c.toNat ≤ 0xffff
  · refine ⟨_, _, if_pos h3, ?_⟩
    rw [List.cons_append, List.cons_append, List.nil_append,
      readChar_three (by omega) (by omega), hchar]
  · refine ⟨_, _, if_neg h3, ?_⟩
    rw [List.cons_append, List.cons_append, List.cons_append, List.nil_append,
      readChar_four (by omega), hchar]

/-- A range that a first byte narrows lies among the trailing bytes. -/
theorem trailing_of_narrowed {p q : Prop} [Decidable p] [Decidable q] {low high n : Nat}
    (hlow : 0x80 ≤ low) (hhigh : high ≤ 0xBF)
    (h : (if p then low else 0x80) ≤ n ∧ n ≤ if q then high else 0xBF) : 0x80 ≤ n ∧ n ≤ 0xBF := by
  obtain ⟨hleft, hright⟩ := h
  constructor
  · split at hleft <;> omega
  · split at hright <;> omega

/-- What is read as a character is the bytes of that character. -/
theorem encodeChar_of_readChar {first : UInt8} {bytes rest : Bytes} {c : Char}
    (h : readChar first bytes = .ok (c, rest)) :
    first :: bytes = String.utf8EncodeChar c ++ rest := by
  obtain ⟨n, lowest, highest, bits, code, hlead, hread, rfl⟩ := readChar_eq_ok_iff.1 h
  have hbyte : first.toNat < 256 := first.toNat_lt
  by_cases h1 : first.toNat < 0x80
  · simp only [lead?, if_pos h1, Option.some.injEq] at hlead
    cases hlead
    obtain ⟨rfl, rfl⟩ := readTrailing_zero_eq_ok hread
    have hcode : (Char.ofNat first.toNat).toNat = first.toNat := toNat_charOfNat (by omega)
    rw [encodeChar_eq, hcode, if_pos (by omega), ofNat_eq_of_toNat_eq rfl]
    rfl
  by_cases h2 : first.toNat < 0xC2
  · simp [lead?, h1, h2] at hlead
  by_cases h3 : first.toNat < 0xE0
  · rw [lead?_two (by omega)] at hlead
    cases hlead
    obtain ⟨b, tail, rfl, hb, hread⟩ := readTrailing_succ_eq_ok hread
    obtain ⟨rfl, rfl⟩ := readTrailing_zero_eq_ok hread
    rw [encodeChar_eq, toNat_charOfNat (by omega), if_neg (by omega), if_pos (by omega),
      ofNat_eq_of_toNat_eq (b := first) (by omega), ofNat_eq_of_toNat_eq (b := b) (by omega)]
    rfl
  by_cases h4 : first.toNat < 0xF0
  · rw [lead?_three (by omega)] at hlead
    cases hlead
    obtain ⟨b, tail, rfl, hb, hread⟩ := readTrailing_succ_eq_ok hread
    obtain ⟨d, tail, rfl, hd, hread⟩ := readTrailing_succ_eq_ok hread
    obtain ⟨rfl, rfl⟩ := readTrailing_zero_eq_ok hread
    -- no form that is too long, and no surrogate
    have low : first.toNat = 0xE0 → 0xA0 ≤ b.toNat := fun h => by simpa [h] using hb.1
    have high : first.toNat = 0xED → b.toNat ≤ 0x9F := fun h => by simpa [h] using hb.2
    have hb' := trailing_of_narrowed (by decide) (by decide) hb
    rw [encodeChar_eq, toNat_charOfNat (by omega), if_neg (by omega), if_neg (by omega),
      if_pos (by omega), ofNat_eq_of_toNat_eq (b := first) (by omega),
      ofNat_eq_of_toNat_eq (b := b) (by omega), ofNat_eq_of_toNat_eq (b := d) (by omega)]
    rfl
  by_cases h5 : first.toNat < 0xF5
  · rw [lead?_four (by omega)] at hlead
    cases hlead
    obtain ⟨b, tail, rfl, hb, hread⟩ := readTrailing_succ_eq_ok hread
    obtain ⟨d, tail, rfl, hd, hread⟩ := readTrailing_succ_eq_ok hread
    obtain ⟨e, tail, rfl, he, hread⟩ := readTrailing_succ_eq_ok hread
    obtain ⟨rfl, rfl⟩ := readTrailing_zero_eq_ok hread
    -- no form that is too long, and nothing above the last code point
    have low : first.toNat = 0xF0 → 0x90 ≤ b.toNat := fun h => by simpa [h] using hb.1
    have high : first.toNat = 0xF4 → b.toNat ≤ 0x8F := fun h => by simpa [h] using hb.2
    have hb' := trailing_of_narrowed (by decide) (by decide) hb
    rw [encodeChar_eq, toNat_charOfNat (by omega), if_neg (by omega), if_neg (by omega),
      if_neg (by omega), ofNat_eq_of_toNat_eq (b := first) (by omega),
      ofNat_eq_of_toNat_eq (b := b) (by omega), ofNat_eq_of_toNat_eq (b := d) (by omega),
      ofNat_eq_of_toNat_eq (b := e) (by omega)]
    rfl
  · simp [lead?, h1, h2, h3, h4, h5] at hlead

/-! ## Whole texts -/

/-- Reading on over the bytes of a character. -/
theorem decodeFrom_encodeChar (index : Nat) (c : Char) (rest : Bytes) :
    decodeFrom index (String.utf8EncodeChar c ++ rest)
      = (decodeFrom (index + c.utf8Size) rest).map (c :: ·) := by
  obtain ⟨first, tail, hbytes, hread⟩ := readChar_encodeChar c rest
  rw [hbytes, List.cons_append, decodeFrom]
  split
  · next h => rw [hread] at h; cases h
  · next h => rw [hread] at h; cases h
  · next h =>
    rw [hread] at h
    cases h
    rfl

/-- The bytes of characters are read back. -/
theorem decodeFrom_flatMap (index : Nat) (cs : List Char) :
    decodeFrom index (cs.flatMap String.utf8EncodeChar) = .ok cs := by
  induction cs generalizing index with
  | nil => rw [List.flatMap_nil, decodeFrom]
  | cons c cs ih => rw [List.flatMap_cons, decodeFrom_encodeChar, ih]; rfl

/-- What is read as characters is their bytes. -/
theorem flatMap_of_decodeFrom {index : Nat} {bytes : Bytes} {cs : List Char}
    (h : decodeFrom index bytes = .ok cs) : bytes = cs.flatMap String.utf8EncodeChar := by
  fun_induction decodeFrom index bytes generalizing cs with
  | case1 =>
    cases h
    rfl
  | case2 => cases h
  | case3 => cases h
  | case4 index first bytes c rest hread ih =>
    cases hrest : decodeFrom (index + c.utf8Size) rest with
    | error e => rw [hrest] at h; cases h
    | ok ds =>
      rw [hrest] at h
      cases h
      rw [List.flatMap_cons, ← ih hrest]
      exact encodeChar_of_readChar hread

/-- The bytes of a text are read back as that text. -/
theorem decode_encode (s : String) : decode (encode s) = .ok s := by
  rw [decode, encode, decodeFrom_flatMap]
  exact congrArg Except.ok String.ofList_toList

/-- Bytes that are read as a text are the bytes of that text. -/
theorem encode_of_decode {bytes : Bytes} {s : String} (h : decode bytes = .ok s) :
    encode s = bytes := by
  unfold decode at h
  cases hcs : decodeFrom 0 bytes with
  | error e => rw [hcs] at h; cases h
  | ok cs =>
    rw [hcs] at h
    cases h
    rw [encode, String.toList_ofList, flatMap_of_decodeFrom hcs]

/-- Bytes are read as a text exactly if they are its written form. -/
theorem decode_eq_ok_iff {bytes : Bytes} {s : String} :
    decode bytes = .ok s ↔ encode s = bytes :=
  ⟨encode_of_decode, fun h => h ▸ decode_encode s⟩

end SqlStore.Utf8
