import SqlStore.Text.LetterCase

/-! # Lower case

* **`Text.lowerChar`** — the lower-case form of a character by itself, one or two characters;
* **`Text.lowercase`** — the lower-case form of a text. Only the capital sigma depends on what is
  around it: at the end of a word it becomes the final sigma. -/

namespace SqlStore.Text

/-- The lower-case form of a character by itself. The capital I with a dot keeps the dot, as a mark of
its own; no other character has a lower-case form of two. -/
def lowerChar (c : Char) : List Char :=
  if c.toNat < 0x80 then [c.toLower]
  else if c = 'İ' then ['i', '\u0307']
  else
    match lowerRuns.findSome? fun run => run.lower? c.toNat with
    | some code => [Char.ofNat code]
    | none => [c]

/-- Whether a cased character comes first once ignored ones are passed over. -/
def casedAhead (cs : List Char) : Bool :=
  match cs.dropWhile fun c => inRanges caseIgnorableRanges c.toNat with
  | c :: _ => inRanges casedRanges c.toNat
  | [] => false

/-- The lower-case form of the characters that follow `before`, which is given last character
first. -/
def lowerFrom (before : List Char) : List Char → List Char
  | [] => []
  | c :: rest =>
    let lower :=
      if c = 'Σ' then if casedAhead before && !casedAhead rest then ['ς'] else ['σ']
      else lowerChar c
    lower ++ lowerFrom (c :: before) rest

/-- The lower-case form of a text. -/
def lowercase (s : String) : String := String.ofList (lowerFrom [] s.toList)

end SqlStore.Text
