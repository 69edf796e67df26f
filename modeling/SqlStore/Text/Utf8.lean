import SqlStore.Bytes

/-! # UTF-8

A text as bytes, one to four for each character:

* **`Utf8.encode`** — the bytes of a text;
* **`Utf8.Lead`** — what the first byte of a character says about the bytes after it;
* **`Utf8.decode`** — the text that bytes stand for, or the first place where they stop being
  UTF-8. Each character has one form only: the ranges for the second byte leave out the forms that
  are longer than needed, the surrogates, and what lies above the last code point. -/

namespace SqlStore.Utf8

/-- The bytes of a text. -/
def encode (text : String) : Bytes := text.toList.flatMap String.utf8EncodeChar

/-! ## Faults -/

/-- How bytes fail to be UTF-8. All bytes before `index` are well formed. -/
inductive Fault where
  /-- `length` bytes at `index` cannot begin a character with the byte after them. -/
  | invalid (index length : Nat)
  /-- The bytes end inside the character that begins at `index`. -/
  | incomplete (index : Nat)
  deriving DecidableEq, Repr

/-- The text of a fault. -/
def Fault.message : Fault → String
  | .invalid index length => s!"invalid utf-8 sequence of {length} bytes from index {index}"
  | .incomplete index => s!"incomplete utf-8 byte sequence from index {index}"

/-! ## One character -/

/-- What the first byte of a character says: how many bytes follow it, the range of the first of
these, and the bits of the code point that it carries itself. -/
structure Lead where
  trailing : Nat
  low : Nat
  high : Nat
  bits : Nat
  deriving DecidableEq, Repr

/-- Reads a first byte; nothing for a byte that begins no character. -/
def lead? (first : UInt8) : Option Lead :=
  let n := first.toNat
  if n < 0x80 then some ⟨0, 0x80, 0xBF, n⟩
  else if n < 0xC2 then none
  else if n < 0xE0 then some ⟨1, 0x80, 0xBF, n - 0xC0⟩
  else if n < 0xF0 then
    some ⟨2, if n = 0xE0 then 0xA0 else 0x80, if n = 0xED then 0x9F else 0xBF, n - 0xE0⟩
  else if n < 0xF5 then
    some ⟨3, if n = 0xF0 then 0x90 else 0x80, if n = 0xF4 then 0x8F else 0xBF, n - 0xF0⟩
  else none

/-- Reads the trailing bytes of a character, the first of them between `low` and `high`, and gives
its code point and what follows. A byte out of range is answered with the number of bytes of the
character in front of it, a missing byte with nothing. -/
def readTrailing (low high bits done : Nat) : Nat → Bytes → Except (Option Nat) (Nat × Bytes)
  | 0, rest => .ok (bits, rest)
  | _ + 1, [] => .error none
  | n + 1, b :: rest =>
    if low ≤ b.toNat ∧ b.toNat ≤ high then
      readTrailing 0x80 0xBF (bits * 64 + b.toNat % 64) (done + 1) n rest
    else .error (some done)

/-- Reads the character that begins with the byte `first`. -/
def readChar (first : UInt8) (rest : Bytes) : Except (Option Nat) (Char × Bytes) :=
  match lead? first with
  | none => .error (some 1)
  | some l =>
    (readTrailing l.low l.high l.bits 1 l.trailing rest).map fun (code, rest) =>
      (Char.ofNat code, rest)

/-- Trailing bytes are taken off the front. -/
theorem length_readTrailing_le {low high bits done n code : Nat} {bytes rest : Bytes}
    (h : readTrailing low high bits done n bytes = .ok (code, rest)) :
    rest.length ≤ bytes.length := by
  induction n generalizing low high bits done bytes with
  | zero =>
    cases h
    exact Nat.le_refl _
  | succ n ih =>
    cases bytes with
    | nil => cases h
    | cons b bytes =>
      rw [readTrailing] at h
      split at h
      · exact Nat.le_succ_of_le (ih h)
      · cases h

/-- What follows a character is no longer than what follows its first byte. -/
theorem length_readChar_le {first : UInt8} {bytes rest : Bytes} {c : Char}
    (h : readChar first bytes = .ok (c, rest)) : rest.length ≤ bytes.length := by
  unfold readChar at h
  split at h
  · cases h
  · next l _ =>
    cases hread : readTrailing l.low l.high l.bits 1 l.trailing bytes with
    | error e => simp [hread, Except.map] at h
    | ok found =>
      simp only [hread, Except.map, Except.ok.injEq, Prod.mk.injEq] at h
      exact h.2 ▸ length_readTrailing_le hread

/-! ## A whole text -/

/-- The characters of bytes of which the first stands at `index`. -/
def decodeFrom (index : Nat) : Bytes → Except Fault (List Char)
  | [] => .ok []
  | first :: rest =>
    match _h : readChar first rest with
    | .error none => .error (.incomplete index)
    | .error (some length) => .error (.invalid index length)
    | .ok (c, rest) => (decodeFrom (index + c.utf8Size) rest).map (c :: ·)
termination_by bytes => bytes.length
decreasing_by exact Nat.lt_succ_of_le (length_readChar_le _h)

/-- The text that bytes stand for. -/
def decode (bytes : Bytes) : Except Fault String :=
  (decodeFrom 0 bytes).map String.ofList

end SqlStore.Utf8
