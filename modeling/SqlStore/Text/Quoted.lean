/-! # Quoted text

A quoted text stands between two copies of a delimiter, and a delimiter inside it is written
twice, so every text has exactly one quoted form:

* **`Quoted.double q cs`** — the text with each delimiter doubled;
* **`Quoted.enclose q cs`** — the quoted form, delimiters at both ends;
* **`Quoted.read? q text`** — the quoted text at the front, with the number of characters it
  takes up; nothing when the text opens with something else or the quote is never closed.

`read?_enclose` says that reading undoes writing whatever follows, short of another delimiter. -/

namespace SqlStore.Quoted

/-! ## Writing -/

/-- The text with every delimiter written twice. -/
def double (q : Char) : List Char → List Char
  | [] => []
  | c :: cs => if c = q then q :: q :: double q cs else c :: double q cs

/-- The quoted form of a text. -/
def enclose (q : Char) (cs : List Char) : List Char :=
  q :: (double q cs ++ [q])

/-! ## Reading -/

/-- Reads on after the opening delimiter: the contents up to the closing delimiter and the number
of characters read, the closing delimiter included. A doubled delimiter is one of the contents. -/
def close? (q : Char) : List Char → Option (List Char × Nat)
  | [] => none
  | [c] => if c = q then some ([], 1) else none
  | c :: d :: rest =>
    if c = q then
      if d = q then (close? q rest).map fun (cs, width) => (q :: cs, width + 2)
      else some ([], 1)
    else (close? q (d :: rest)).map fun (cs, width) => (c :: cs, width + 1)

/-- The contents of the quoted text at the front and the number of characters it takes up. -/
def read? (q : Char) : List Char → Option (List Char × Nat)
  | [] => none
  | c :: rest =>
    if c = q then (close? q rest).map fun (cs, width) => (cs, width + 1) else none

/-- A quoted text takes up its opening delimiter at least. -/
theorem width_pos_of_read? {q : Char} {text cs : List Char} {width : Nat}
    (h : read? q text = some (cs, width)) : 0 < width := by
  cases text with
  | nil => simp [read?] at h
  | cons c rest =>
    simp only [read?, Option.ite_none_right_eq_some, Option.map_eq_some_iff] at h
    obtain ⟨_, ⟨_, _⟩, _, h⟩ := h
    simp only [Prod.mk.injEq] at h
    omega

/-! ## Reading undoes writing -/

/-- Cons reading of `double`. -/
theorem double_cons (q c : Char) (cs : List Char) :
    double q (c :: cs) = if c = q then q :: q :: double q cs else c :: double q cs := rfl

/-- A plain character in front of a text that closes is one more character of the contents. -/
theorem close?_cons_of_ne {q c : Char} (h : c ≠ q) (text : List Char) :
    close? q (c :: text) = (close? q text).map fun (cs, width) => (c :: cs, width + 1) := by
  cases text with
  | nil => simp [close?, h]
  | cons d rest => simp [close?, h]

/-- The closing delimiter ends the contents unless another one follows it. -/
theorem close?_delimiter {q : Char} {rest : List Char} (h : rest.head? ≠ some q) :
    close? q (q :: rest) = some ([], 1) := by
  cases rest with
  | nil => simp [close?]
  | cons d rest =>
    have hd : d ≠ q := by simpa using h
    simp [close?, hd]

/-- Reading on through a doubled text and its closing delimiter gives the text back. -/
theorem close?_double {q : Char} {rest : List Char} (h : rest.head? ≠ some q) (cs : List Char) :
    close? q (double q cs ++ q :: rest) = some (cs, (double q cs).length + 1) := by
  induction cs with
  | nil => simpa [double] using close?_delimiter h
  | cons c cs ih =>
    by_cases hc : c = q
    · subst hc
      simp [double, close?, ih]
    · simp [double, hc, close?_cons_of_ne hc, ih]

/-- Reading a quoted form gives the text it was written from. -/
theorem read?_enclose {q : Char} {rest : List Char} (h : rest.head? ≠ some q) (cs : List Char) :
    read? q (enclose q cs ++ rest) = some (cs, (enclose q cs).length) := by
  simp [read?, enclose, close?_double h]

end SqlStore.Quoted
