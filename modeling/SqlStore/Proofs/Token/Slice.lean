import SqlStore.Proofs.Text.Utf8
import SqlStore.Proofs.Token.Number

/-! # The characters of a lexeme

A lexeme is read from a slice at the front of a text, and the slice determines its value:

* **`Quoted.halve`** — a text with doubled delimiters halved, the reverse of doubling them;
* **`Lexeme.valueOf`** — the value that a slice has as a token of some kind: what stands between its
  delimiters if it is quoted, reserved words and bare names in lower case, and otherwise the slice;
* **`Lexeme.Spells x slice`** — `slice` is the source of `x`: it has its width and its value, a
  delimiter at both ends if it is quoted, and no newline if it is not;
* **`Lexeme.first?_spells`** — every lexeme that is read has such a slice at the front of the text;
* **`Lexeme.rule_of_first?`** — it is what the rule for its class matches. -/

namespace SqlStore

/-! ## Quoted texts -/

namespace Quoted

/-- The text with every doubled delimiter written once. -/
def halve (q : Char) : List Char → List Char
  | [] => []
  | [c] => [c]
  | c :: d :: rest => if c = q ∧ d = q then q :: halve q rest else c :: halve q (d :: rest)

/-- A plain character is kept. -/
theorem halve_cons_of_ne {q c : Char} (h : c ≠ q) (cs : List Char) :
    halve q (c :: cs) = c :: halve q cs := by
  cases cs with
  | nil => rfl
  | cons d rest => rw [halve, if_neg (fun hq => h hq.1)]

/-- Halving undoes doubling. -/
theorem halve_double (q : Char) (cs : List Char) : halve q (double q cs) = cs := by
  induction cs with
  | nil => rfl
  | cons c cs ih =>
    rw [double_cons]
    by_cases h : c = q
    · rw [if_pos h, halve, if_pos ⟨rfl, rfl⟩, ih, h]
    · rw [if_neg h, halve_cons_of_ne h, ih]

/-- What is read up to a closing delimiter is the doubled contents and the delimiter, and no further
delimiter follows. -/
theorem append_of_close? {q : Char} {text cs : List Char} {width : Nat}
    (h : close? q text = some (cs, width)) :
    ∃ rest, text = double q cs ++ q :: rest ∧ rest.head? ≠ some q ∧
      width = (double q cs).length + 1 := by
  -- cases as in the recursion: a doubled delimiter, the closing one, or any other character
  fun_induction close? q text generalizing cs width with
  | case1 => cases h
  | case2 =>
    cases h
    exact ⟨[], rfl, by simp, rfl⟩
  | case3 => cases h
  | case4 rest ih =>
    -- a doubled delimiter is one of the contents
    obtain ⟨⟨cs', width'⟩, hrest, heq⟩ := Option.map_eq_some_iff.1 h
    obtain ⟨rfl, rfl⟩ := Prod.mk.inj heq
    obtain ⟨rest', rfl, hend, rfl⟩ := ih hrest
    exact ⟨rest', by simp [double], hend, by simp [double]⟩
  | case5 d rest hd =>
    cases h
    exact ⟨d :: rest, rfl, by simpa using hd, rfl⟩
  | case6 c d rest hc ih =>
    obtain ⟨⟨cs', width'⟩, hrest, heq⟩ := Option.map_eq_some_iff.1 h
    obtain ⟨rfl, rfl⟩ := Prod.mk.inj heq
    obtain ⟨rest', htext, hend, rfl⟩ := ih hrest
    refine ⟨rest', ?_, hend, ?_⟩
    · rw [htext, double_cons, if_neg hc, List.cons_append]
    · rw [double_cons, if_neg hc, List.length_cons]

/-- What is read as a quoted text is the quoted form of its contents, and no further delimiter
follows. -/
theorem append_of_read? {q : Char} {text cs : List Char} {width : Nat}
    (h : read? q text = some (cs, width)) :
    ∃ rest, text = enclose q cs ++ rest ∧ rest.head? ≠ some q ∧ width = (enclose q cs).length := by
  cases text with
  | nil => cases h
  | cons c text =>
    rw [read?, Option.ite_none_right_eq_some] at h
    obtain ⟨rfl, h⟩ := h
    obtain ⟨⟨cs', width'⟩, hclose, heq⟩ := Option.map_eq_some_iff.1 h
    obtain ⟨rfl, rfl⟩ := Prod.mk.inj heq
    obtain ⟨rest, rfl, hend, rfl⟩ := append_of_close? hclose
    exact ⟨rest, by simp [enclose], hend, by simp [enclose]⟩

end Quoted

namespace Lexeme

/-! ## The value of a slice -/

/-- The delimiter of a slice that is quoted: of a string always, of a name if it begins with one. -/
def delimiter? (kind : TokenKind) (slice : List Char) : Option Char :=
  match kind with
  | .string => some '\''
  | .identifier => if slice.head? = some '"' then some '"' else none
  | _ => none

/-- The value of a slice as a token of some kind. -/
def valueOf (kind : TokenKind) (slice : List Char) : String :=
  match delimiter? kind slice with
  | some q => String.ofList (Quoted.halve q (slice.drop 1).dropLast)
  | none =>
    match kind with
    | .keyword => String.ofList (slice.map Char.toLower)
    | .identifier => String.ofList (slice.map Char.toLower)
    | _ => String.ofList slice

/-- A slice is the source of a lexeme. -/
structure Spells (x : Lexeme) (slice : List Char) : Prop where
  width : x.width = slice.length
  value : x.value = valueOf x.kind slice
  delimited : ∀ q ∈ delimiter? x.kind slice, ∃ inner, slice = q :: (inner ++ [q])
  newline : delimiter? x.kind slice = none → '\n' ∉ slice

/-- A slice without delimiters is the source of a lexeme of its width and value. -/
theorem Spells.plain {x : Lexeme} {slice : List Char} (hdelimiter : delimiter? x.kind slice = none)
    (hwidth : x.width = slice.length) (hvalue : x.value = valueOf x.kind slice)
    (hnewline : '\n' ∉ slice) : x.Spells slice where
  width := hwidth
  value := hvalue
  delimited q hq := by
    rw [hdelimiter] at hq
    cases hq
  newline _ := hnewline

/-- A quoted form is the source of a lexeme with its contents as value. -/
theorem Spells.quoted {kind : TokenKind} {q : Char} {cs : List Char}
    (hdelimiter : delimiter? kind (Quoted.enclose q cs) = some q) :
    Spells ⟨kind, String.ofList cs, (Quoted.enclose q cs).length⟩ (Quoted.enclose q cs) where
  width := rfl
  value := by
    have hinner : ((Quoted.enclose q cs).drop 1).dropLast = Quoted.double q cs := by
      simp [Quoted.enclose]
    simp only [valueOf, hdelimiter, hinner, Quoted.halve_double]
  delimited q' hq' := by
    rw [hdelimiter] at hq'
    obtain rfl := Option.some.inj hq'
    exact ⟨Quoted.double q cs, rfl⟩
  newline hnone := by
    rw [hdelimiter] at hnone
    cases hnone

/-! ## Reserved words and symbols -/

/-- What is found by reading on is a word found before, or it is made of what was read before and of a
slice in lower case. -/
theorem longestPending_spells {best : Option String} {pending : List (String × List Char)}
    {before text : List Char} {word : String}
    (hpending : ∀ q ∈ pending, q.1.toList = before ++ q.2)
    (h : longestPending Char.toLower best pending text = some word) :
    best = some word ∨
      ∃ slice rest, text = slice ++ rest ∧ word.toList = before ++ slice.map Char.toLower := by
  induction text generalizing best pending before with
  | nil => exact .inl (by simpa [longestPending] using h)
  | cons c text ih =>
    rw [longestPending] at h
    split at h
    · exact .inl h
    · -- what is pending now has been read up to and with this character
      have hleft : ∀ q ∈ agreeing c.toLower pending, q.1.toList = (before ++ [c.toLower]) ++ q.2 := by
        intro q hq
        rw [hpending _ (mem_agreeing_iff.1 hq), List.append_assoc]
        rfl
      rcases ih (fun q hq => hleft q (List.mem_filter.1 hq).1) h with hbest | ⟨slice, rest, rfl, hword⟩
      -- nothing longer was found, so the word ends here or it was found before
      · rcases Option.or_eq_some_iff.1 hbest with hcomplete | ⟨-, hbest⟩
        · obtain ⟨⟨option, todo⟩, hfind, rfl⟩ := Option.map_eq_some_iff.1 hcomplete
          have htodo : todo = [] := by simpa using List.find?_some hfind
          have hoption := hleft _ (List.mem_of_find?_eq_some hfind)
          exact .inr ⟨[c], text, rfl, by rw [hoption, htodo, List.append_nil]; rfl⟩
        · exact .inl hbest
      · exact .inr ⟨c :: slice, rest, rfl, by rw [hword, List.append_assoc]; rfl⟩

/-- The longest match is a slice at the front of the text, in lower case. -/
theorem longestMatch_spells {options : List String} {text : List Char} {word : String}
    (h : longestMatch options text = some word) :
    ∃ slice rest, text = slice ++ rest ∧ word.toList = slice.map Char.toLower := by
  have hpending : ∀ q ∈ options.map fun option => (option, option.toList),
      q.1.toList = [] ++ q.2 := by
    intro q hq
    obtain ⟨option, -, rfl⟩ := List.mem_map.1 hq
    rfl
  rcases longestPending_spells hpending h with hnone | hfound
  · cases hnone
  · exact hfound

/-- Only a lower-case letter is the lower case of another character. -/
theorem eq_of_toLower_eq {c d : Char} (h : c.toLower = d) (hd : d.isLower = false) : c = d := by
  by_cases hupper : c.val ≥ 'A'.val ∧ c.val ≤ 'Z'.val
  · -- an upper-case letter becomes a lower-case one, which `d` is not
    have hbounds : 65 ≤ c.val.toNat ∧ c.val.toNat ≤ 90 :=
      ⟨UInt32.le_iff_toNat_le.1 hupper.1, UInt32.le_iff_toNat_le.1 hupper.2⟩
    have hlower : c.toLower.isLower = true := by
      show (decide (c.toLower.val ≥ 'a'.val) && decide (c.toLower.val ≤ 'z'.val)) = true
      rw [Bool.and_eq_true, decide_eq_true_eq, decide_eq_true_eq, ge_iff_le,
        UInt32.le_iff_toNat_le, UInt32.le_iff_toNat_le, toNat_toLower hupper]
      show 97 ≤ c.val.toNat + 32 ∧ c.val.toNat + 32 ≤ 122
      omega
    rw [h, hd] at hlower
    cases hlower
  · have hsame : c.toLower = c := dif_neg hupper
    rw [← h, hsame]

/-- A reserved word has a slice of its own. -/
theorem keyword?_spells {text : List Char} {x : Lexeme} (h : keyword? text = some x) :
    ∃ slice rest, text = slice ++ rest ∧ x.Spells slice := by
  obtain ⟨word, hword, rfl⟩ := Option.map_eq_some_iff.1 h
  obtain ⟨slice, rest, rfl, hslice⟩ := longestMatch_spells hword
  have hvalue : word = String.ofList (slice.map Char.toLower) := by
    rw [← hslice, String.ofList_toList]
  have hnewline : '\n' ∉ slice := by
    intro hmem
    have hlower : '\n' ∈ word.toList := by
      rw [hslice]
      exact List.mem_map.2 ⟨'\n', hmem, by decide⟩
    obtain ⟨k, -, rfl⟩ := List.mem_map.1 (longestMatch_mem hword)
    -- no reserved word has a newline
    revert hlower
    cases k <;> decide
  refine ⟨slice, rest, rfl, .plain rfl ?_ hvalue hnewline⟩
  rw [← String.length_toList, hslice, List.length_map]

/-- A symbol has a slice of its own. -/
theorem symbol?_spells {text : List Char} {x : Lexeme} (h : symbol? text = some x) :
    ∃ slice rest, text = slice ++ rest ∧ x.Spells slice := by
  obtain ⟨mark, hmark, rfl⟩ := Option.map_eq_some_iff.1 h
  obtain ⟨slice, rest, rfl, hslice⟩ := longestMatch_spells hmark
  have hplain : ∀ d ∈ mark.toList, d.isLower = false ∧ d ≠ '\n' := by
    obtain ⟨s, -, rfl⟩ := List.mem_map.1 (longestMatch_mem hmark)
    have hall : s.spelling.toList.all (fun d => !d.isLower && d != '\n') = true := by
      cases s <;> rfl
    intro d hd
    simpa using List.all_eq_true.1 hall d hd
  -- no symbol has letters, so lower case changes nothing
  have hsame : slice.map Char.toLower = slice.map id := by
    apply List.map_congr_left
    intro c hc
    have hlower : c.toLower ∈ mark.toList := by
      rw [hslice]
      exact List.mem_map.2 ⟨c, hc, rfl⟩
    exact (eq_of_toLower_eq rfl (hplain _ hlower).1).symm
  rw [hsame, List.map_id] at hslice
  refine ⟨slice, rest, rfl, .plain rfl ?_ ?_ fun hmem => (hplain _ (hslice ▸ hmem)).2 rfl⟩
  · rw [← String.length_toList, hslice]
  · show mark = String.ofList slice
    rw [← hslice, String.ofList_toList]

/-! ## Numbers and names -/

/-- A number has a slice of its own. -/
theorem numeric?_spells {text : List Char} {x : Lexeme} (h : numeric? text = some x) :
    ∃ slice rest, text = slice ++ rest ∧ x.Spells slice := by
  obtain ⟨head, tail, rest, htext, hhead, htail, -, rfl⟩ := exists_of_numeric? h
  refine ⟨head ++ tail, rest, htext, .plain rfl rfl rfl ?_⟩
  rw [List.mem_append, not_or]
  exact ⟨hhead.no_newline, htail.no_newline⟩

/-- A bare name has a slice of its own. -/
theorem bareName?_spells {text : List Char} {x : Lexeme} (h : bareName? text = some x) :
    ∃ slice rest, text = slice ++ rest ∧ x.Spells slice := by
  cases text with
  | nil => cases h
  | cons c rest =>
    rw [bareName?, Option.ite_none_right_eq_some] at h
    obtain ⟨halpha, h⟩ := h
    cases h
    -- a name that begins with a letter does not begin with a quote
    have hdelimiter : delimiter? .identifier (c :: rest.takeWhile isNamePart) = none := by
      rw [delimiter?, List.head?_cons, if_neg]
      intro hquote
      rw [Option.some.inj hquote] at halpha
      exact absurd halpha (by decide)
    refine ⟨c :: rest.takeWhile isNamePart, rest.dropWhile isNamePart, ?_,
      .plain hdelimiter rfl ?_ ?_⟩
    · rw [List.cons_append, List.takeWhile_append_dropWhile]
    · simp only [valueOf, hdelimiter]
    · rw [List.mem_cons, not_or]
      constructor
      · rintro rfl
        exact absurd halpha (by decide)
      · exact fun hmem => absurd (List.mem_takeWhile_imp hmem) (by decide)

/-! ## Quoted texts and any lexeme -/

/-- A string has a slice of its own. -/
theorem string?_spells {text : List Char} {x : Lexeme} (h : string? text = some x) :
    ∃ slice rest, text = slice ++ rest ∧ x.Spells slice := by
  obtain ⟨⟨contents, width⟩, hread, rfl⟩ := Option.map_eq_some_iff.1 h
  obtain ⟨rest, rfl, -, rfl⟩ := Quoted.append_of_read? hread
  exact ⟨_, rest, rfl, .quoted rfl⟩

/-- A name has a slice of its own. -/
theorem identifier?_spells {text : List Char} {x : Lexeme} (h : identifier? text = some x) :
    ∃ slice rest, text = slice ++ rest ∧ x.Spells slice := by
  unfold identifier? at h
  split at h
  · next contents width hread =>
    cases h
    obtain ⟨rest, rfl, -, rfl⟩ := Quoted.append_of_read? hread
    exact ⟨_, rest, rfl, .quoted rfl⟩
  · exact bareName?_spells h

/-- Every lexeme has a slice at the front of the text, which determines its value. -/
theorem first?_spells {text : List Char} {x : Lexeme} (h : first? text = some x) :
    ∃ slice rest, text = slice ++ rest ∧ x.Spells slice := by
  -- the first reader that finds a lexeme gives it
  rcases first?_eq_some_iff.1 h with h | ⟨-, h | ⟨-, h | ⟨-, h | ⟨-, h⟩⟩⟩⟩
  · exact keyword?_spells h
  · exact symbol?_spells h
  · exact string?_spells h
  · exact numeric?_spells h
  · exact identifier?_spells h

/-! ## The class of a lexeme -/

/-- The rule for a class. -/
def rule : TokenKind → List Char → Option Lexeme
  | .keyword => keyword?
  | .symbol => symbol?
  | .string => string?
  | .numeric => numeric?
  | .identifier => identifier?

/-- What the rule for a class matches is of this class. -/
theorem kind_of_rule {kind : TokenKind} {text : List Char} {x : Lexeme}
    (h : rule kind text = some x) : x.kind = kind := by
  cases kind with
  | keyword =>
    obtain ⟨word, -, rfl⟩ := Option.map_eq_some_iff.1 h
    rfl
  | symbol =>
    obtain ⟨mark, -, rfl⟩ := Option.map_eq_some_iff.1 h
    rfl
  | string =>
    obtain ⟨contents, -, rfl⟩ := Option.map_eq_some_iff.1 h
    rfl
  | numeric =>
    obtain ⟨head, tail, behind, -, -, -, -, rfl⟩ := exists_of_numeric? h
    rfl
  | identifier =>
    have hname : identifier? text = some x := h
    unfold identifier? at hname
    split at hname
    · cases hname
      rfl
    · cases text with
      | nil => cases hname
      | cons c rest =>
        rw [bareName?, Option.ite_none_right_eq_some] at hname
        exact Option.some.inj hname.2 ▸ rfl

/-- A lexeme is what the rule for its class matches. -/
theorem rule_of_first? {text : List Char} {x : Lexeme} (h : first? text = some x) :
    rule x.kind text = some x := by
  have hrule : ∀ kind, rule kind text = some x → rule x.kind text = some x :=
    fun kind hkind => kind_of_rule hkind ▸ hkind
  rcases first?_eq_some_iff.1 h with h | ⟨-, h | ⟨-, h | ⟨-, h | ⟨-, h⟩⟩⟩⟩
  · exact hrule .keyword h
  · exact hrule .symbol h
  · exact hrule .string h
  · exact hrule .numeric h
  · exact hrule .identifier h

end Lexeme

end SqlStore
