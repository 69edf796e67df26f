/-! # Signed 32-bit numerals

A numeral is an optional sign and at least one ASCII digit:

* **`Numeral.Fault`** — why a text is no signed 32-bit integer;
* **`Numeral.read`** — the integer, or the first fault met from left to right. Leading zeros are
  accepted, and the range is checked digit by digit, so an invalid character wins over a number that
  only its later digits would make too large. -/

namespace SqlStore.Numeral

/-- Why a text is not a signed 32-bit integer. -/
inductive Fault where
  | empty
  | invalidDigit
  | tooLarge
  | tooSmall
  deriving DecidableEq, Repr

/-- The text of a fault. -/
def Fault.message : Fault → String
  | .empty => "cannot parse integer from empty string"
  | .invalidDigit => "invalid digit found in string"
  | .tooLarge => "number too large to fit in target type"
  | .tooSmall => "number too small to fit in target type"

/-- The digit `c` appended to the decimal number `n`, away from zero. -/
def appendDigit (negative : Bool) (n : Int) (c : Char) : Int :=
  let digit : Int := c.toNat - '0'.toNat
  if negative then 10 * n - digit else 10 * n + digit

/-- Reads the digits that follow what has been read as `n`. -/
def readDigits (negative : Bool) (n : Int) : List Char → Except Fault Int
  | [] => .ok n
  | c :: cs =>
    if c.isDigit then
      let n := appendDigit negative n c
      if Int32.maxValue.toInt < n then .error .tooLarge
      else if n < Int32.minValue.toInt then .error .tooSmall
      else readDigits negative n cs
    else .error .invalidDigit

/-- The integer a text stands for. A sign needs a digit after it. -/
def readInt : List Char → Except Fault Int
  | [] => .error .empty
  | ['+'] => .error .invalidDigit
  | ['-'] => .error .invalidDigit
  | '+' :: digits => readDigits false 0 digits
  | '-' :: digits => readDigits true 0 digits
  | digits => readDigits false 0 digits

/-- The signed 32-bit integer a text stands for. -/
def read (text : String) : Except Fault Int32 :=
  (readInt text.toList).map Int32.ofInt

end SqlStore.Numeral
