import SqlStore.Proofs.Record.RoundTrip
import SqlStore.Proofs.Token.Pieces
import Mathlib.Data.List.Flatten

/-! # The tokens of a text

What the tokens of a text owe to it:

* **`TokenStream.exists_slice`** — every token is read from a slice of the text;
* **`TokenStream.length_tokens_le`** — there are no more tokens than characters;
* **`TokenStream.fits_of_mem`** — if the text is written in full, so is the value of every token;
* **`TokenStream.no_sign_of_mem`** — no number begins with a sign. -/

namespace SqlStore

/-! ## The width of a value -/

/-- Halving delimiters leaves characters out and adds none. -/
theorem Quoted.halve_sublist (q : Char) (cs : List Char) : (halve q cs).Sublist cs := by
  fun_induction halve q cs with
  | case1 => exact .slnil
  | case2 c => exact .refl _
  | case3 c d rest hq ih =>
    obtain ⟨rfl, rfl⟩ := hq
    exact (ih.cons _).cons_cons _
  | case4 c d rest _ ih => exact ih.cons_cons c

/-- The value of a slice takes up no more bytes than the slice. -/
theorem Lexeme.length_encode_valueOf_le (kind : TokenKind) (slice : List Char) :
    (Utf8.encode (valueOf kind slice)).length ≤ (slice.flatMap String.utf8EncodeChar).length := by
  have hsublist : ∀ {cs : List Char}, cs.Sublist slice →
      (Utf8.encode (String.ofList cs)).length ≤ (slice.flatMap String.utf8EncodeChar).length := by
    intro cs hcs
    rw [Utf8.encode, String.toList_ofList]
    exact (hcs.flatMap _).length_le
  have hlower : (Utf8.encode (String.ofList (slice.map Char.toLower))).length
      ≤ (slice.flatMap String.utf8EncodeChar).length := by
    rw [Utf8.encode, String.toList_ofList, Utf8.flatMap_toLower, List.length_map]
  -- between delimiters, in lower case, or as it is
  unfold valueOf
  split
  · exact hsublist ((Quoted.halve_sublist _ _).trans
      ((List.dropLast_sublist _).trans (List.drop_sublist 1 slice)))
  · split
    · exact hlower
    · exact hlower
    · exact hsublist (.refl slice)

/-! ## Numbers -/

/-- A number begins with a digit or with a point. -/
theorem Lexeme.head?_of_first? {text : List Char} {x : Lexeme} (h : first? text = some x)
    (hkind : x.kind = .numeric) : ∀ c ∈ x.value.toList.head?, c.isDigit = true ∨ c = '.' := by
  have hrule := rule_of_first? h
  rw [hkind] at hrule
  obtain ⟨head, tail, behind, -, hhead, -, -, rfl⟩ := exists_of_numeric? hrule
  -- it begins as its mantissa does
  obtain ⟨c, cs, rfl⟩ := List.exists_cons_of_ne_nil hhead.ne_nil
  rw [String.toList_ofList]
  exact hhead.head?

/-! ## Tokens in a text -/

namespace TokenStream

/-- Every token of a text is read from a slice of it, in front of what stands behind the slice. -/
theorem exists_slice {text : String} {t : Token} (h : t ∈ (ofText text).tokens) :
    ∃ before slice behind, text.toList = before ++ (slice ++ behind) ∧
      t.value = Lexeme.valueOf t.kind slice ∧
      Lexeme.first? (slice ++ behind) = some ⟨t.kind, t.value, slice.length⟩ := by
  obtain ⟨pieces, rest, fault, htext, hread, hstream, -⟩ :=
    ofLexer_pieces (Lexer.ofText text) [] rfl rfl
  rw [ofText, hstream] at h
  obtain ⟨piece, hpiece, htoken⟩ := List.mem_filterMap.1 h
  cases piece with
  | blank c => cases htoken
  | lexeme slice t' =>
    obtain rfl := Option.some.inj htoken
    obtain ⟨before, after, rfl⟩ := List.append_of_mem hpiece
    obtain ⟨-, -, hvalue, -, hfirst⟩ := hread.readAt rfl
    have hchars : charsOf (.lexeme slice t' :: after) = slice ++ charsOf after := rfl
    refine ⟨charsOf before, slice, charsOf after ++ rest, ?_, hvalue, hfirst⟩
    rw [show text.toList = _ from htext, charsOf_append, hchars, List.append_assoc,
      List.append_assoc]

/-- Every token takes a character at least. -/
theorem length_tokens_ofLexer_le (l : Lexer) : (ofLexer l).tokens.length ≤ l.text.length := by
  -- induction as the lexer reads: a token makes what is left shorter
  fun_induction ofLexer l with
  | case1 => exact Nat.zero_le _
  | case2 => exact Nat.zero_le _
  | case3 l t l' hnext rest ih =>
    have hshorter := Lexer.length_next_lt hnext
    exact Nat.succ_le_of_lt (Nat.lt_of_le_of_lt ih hshorter)

variable {text : String} {t : Token}

/-- A text has no more tokens than bytes. -/
theorem length_tokens_le (text : String) :
    (ofText text).tokens.length ≤ (Utf8.encode text).length :=
  Nat.le_trans (length_tokens_ofLexer_le _) (Utf8.length_toList_le text)

/-- The values of the tokens of a text that is written in full are written in full. -/
theorem fits_of_mem (htext : Text.Fits text) (h : t ∈ (ofText text).tokens) : Text.Fits t.value := by
  obtain ⟨before, slice, behind, hslice, hvalue, -⟩ := exists_slice h
  have hsublist : slice.Sublist text.toList :=
    hslice ▸ (List.sublist_append_left slice behind).trans (List.sublist_append_right before _)
  refine Nat.lt_of_le_of_lt ?_ htext
  calc (Utf8.encode t.value).length
      ≤ (slice.flatMap String.utf8EncodeChar).length :=
        hvalue ▸ Lexeme.length_encode_valueOf_le t.kind slice
    _ ≤ (Utf8.encode text).length := (hsublist.flatMap _).length_le

/-- The numbers of a text begin with a digit or with a point. -/
theorem head?_of_mem (h : t ∈ (ofText text).tokens) (hkind : t.kind = .numeric) :
    ∀ c ∈ t.value.toList.head?, c.isDigit = true ∨ c = '.' := by
  obtain ⟨before, slice, behind, -, -, hfirst⟩ := exists_slice h
  exact Lexeme.head?_of_first? hfirst hkind

/-- No number of a text begins with a sign. -/
theorem no_sign_of_mem (h : t ∈ (ofText text).tokens) (hkind : t.kind = .numeric) :
    t.value.toList.head? ≠ some '+' ∧ t.value.toList.head? ≠ some '-' := by
  have hhead := head?_of_mem h hkind
  exact ⟨fun hplus => absurd (hhead _ hplus) (by decide),
    fun hminus => absurd (hhead _ hminus) (by decide)⟩

end TokenStream

end SqlStore
