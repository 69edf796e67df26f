import SqlStore.Proofs.Token.ByteLexer
import SqlStore.Proofs.Token.Word

/-! # The rules on bytes

Where a source can be divided, the rules on its bytes find what the rules on characters find in the text that
is left there, and no look at the source goes wrong:

* **`Cursor.behind`** — the place behind characters of one line;
* **`ByteLexer.AsciiOnly`** — questions that have one answer for all characters that are not ASCII;
* **`ByteLexer.exists_byte?`** — such a question has the same answer for a character and for its first byte;
* **`ByteLexer.exists_slice_iff`** — a source has slices exactly between places where it can be divided;
* **`ByteLexer.keyword_eq`**, **`symbol_eq`**, **`string_eq`**, **`identifier_eq`** — the same rule on bytes and
  on characters. Numbers have a module of their own. -/

namespace SqlStore

open Utf8 (RestAt size)

namespace Cursor

/-- The place behind characters of one line. -/
def behind (cur : Cursor) (cs : List Char) : Cursor :=
  ⟨cur.pointer + size cs, cur.loc.right cs.length⟩

@[simp] theorem behind_pointer (cur : Cursor) (cs : List Char) :
    (cur.behind cs).pointer = cur.pointer + size cs := rfl

@[simp] theorem behind_nil (cur : Cursor) : cur.behind [] = cur := rfl

/-- Characters are passed one after the other. -/
theorem behind_append (cur : Cursor) (cs ds : List Char) :
    (cur.behind cs).behind ds = cur.behind (cs ++ ds) := by
  simp only [behind, Location.right, Utf8.size_append, List.length_append, Nat.add_assoc]

/-- Behind characters a place lies no less far on. -/
theorem lt_behind {cur : Cursor} {place : Nat} (h : place < cur.pointer) (cs : List Char) :
    place < (cur.behind cs).pointer :=
  Nat.lt_of_lt_of_le h (Nat.le_add_right _ _)

/-- A character is passed with its bytes. -/
theorem advance_utf8Size (cur : Cursor) (c : Char) : cur.advance c.utf8Size = cur.behind [c] := by
  simp [advance, behind]

/-- An ASCII character is passed with one byte. -/
theorem advance_one (cur : Cursor) {c : Char} (h : c.toNat < 128) : cur.advance 1 = cur.behind [c] := by
  have hsize : size [c] = 1 := Utf8.size_eq_length (List.forall_mem_singleton.2 h)
  rw [advance, behind, hsize, List.length_singleton]

end Cursor

/-- What a lexeme at the front of a text is where the text is left of a source. -/
def Found.ofLexeme (start : Cursor) (text : List Char) (x : Lexeme) : Found :=
  ⟨some ⟨x.kind, x.value, start.loc⟩, start.behind (text.take x.width)⟩

namespace ByteLexer

variable {source : String} {place : Nat} {text : List Char}

/-! ## Looking at a place between characters -/

/-- At the end there is no byte. -/
theorem byte?_nil (h : RestAt source place []) : byte? source place = .ok none := by
  rw [byte?, if_pos h.le_length, h.getElem?_encode]
  rfl

/-- Whether a question about characters has one answer for all that are not ASCII. -/
def AsciiOnly {β : Type} (f : Char → β) : Prop :=
  ∀ c d : Char, 128 ≤ c.toNat → 128 ≤ d.toNat → f c = f d

/-- A class of ASCII characters is such a question. -/
theorem asciiOnly_of_lt {p : Char → Bool} (h : ∀ c, p c = true → c.toNat < 128) : AsciiOnly p := by
  have hfalse : ∀ c : Char, 128 ≤ c.toNat → p c = false := fun c hc =>
    Bool.eq_false_iff.2 fun hp => Nat.not_lt.2 hc (h c hp)
  intro c d hc hd
  rw [hfalse c hc, hfalse d hd]

/-- Being one ASCII character is such a question. -/
theorem asciiOnly_eq {a : Char} (h : a.toNat < 128) : AsciiOnly (· = a) := by
  have hne : ∀ c : Char, 128 ≤ c.toNat → (c = a) = False := fun c hc =>
    eq_false fun heq => Nat.not_lt.2 hc (heq ▸ h)
  intro c d hc hd
  exact (hne c hc).trans (hne d hd).symm

theorem asciiOnly_isNamePart : AsciiOnly Lexeme.isNamePart :=
  asciiOnly_of_lt fun _ h => (Lexeme.isNamePart_iff.1 h).toNat_lt

theorem asciiOnly_isAlpha : AsciiOnly Char.isAlpha :=
  asciiOnly_of_lt fun _ => Lexeme.toNat_lt_of_isAlpha

theorem asciiOnly_isDigit : AsciiOnly Char.isDigit :=
  asciiOnly_of_lt fun _ => Lexeme.toNat_lt_of_isDigit

theorem asciiOnly_afterBlank? (loc : Location) : AsciiOnly loc.afterBlank? := by
  have hnone : ∀ c : Char, 128 ≤ c.toNat → loc.afterBlank? c = none := fun c hc =>
    afterBlank?_eq_none loc (by rintro (rfl | rfl | rfl) <;> exact absurd hc (by decide))
  intro c d hc hd
  rw [hnone c hc, hnone d hd]

/-- The first byte of a character is its own ASCII character, or neither is one. -/
theorem exists_encodeChar_eq (c : Char) : ∃ b bytes, String.utf8EncodeChar c = b :: bytes ∧
    ∀ {β : Type} {f : Char → β}, AsciiOnly f → f (Char.ofUInt8 b) = f c := by
  obtain ⟨b, bytes, hc, -, -⟩ := Utf8.encodeChar_trailing c
  refine ⟨b, bytes, hc, fun {β f} hf => ?_⟩
  rcases Nat.lt_or_ge 127 c.toNat with hwide | hascii
  · have hb : 128 ≤ b.toNat := Utf8.le_toNat_of_mem hwide (hc ▸ List.mem_cons_self)
    exact hf _ _ hb hwide
  · rw [Utf8.encodeChar_eq, if_pos hascii] at hc
    obtain ⟨rfl, -⟩ := List.cons.inj hc
    have hsame : Char.ofUInt8 (UInt8.ofNat c.toNat) = c :=
      Char.toNat_inj.1 (Utf8.toNat_ofNat_of_lt (by omega))
    rw [hsame]

/-- A byte tells as much of the character it begins as a question about ASCII characters asks. -/
theorem exists_byte? {c : Char} (h : RestAt source place (c :: text)) :
    ∃ b, byte? source place = .ok (some b) ∧
      ∀ {β : Type} {f : Char → β}, AsciiOnly f → f (Char.ofUInt8 b) = f c := by
  obtain ⟨b, bytes, hc, hb⟩ := exists_encodeChar_eq c
  refine ⟨b, ?_, hb⟩
  rw [byte?, if_pos h.le_length, h.getElem?_encode, List.flatMap_cons, hc]
  rfl

/-- The same where a byte has to be. -/
theorem exists_byte {c : Char} (h : RestAt source place (c :: text)) :
    ∃ b, byte source place = .ok b ∧
      ∀ {β : Type} {f : Char → β}, AsciiOnly f → f (Char.ofUInt8 b) = f c := by
  obtain ⟨b, bytes, hc, hb⟩ := exists_encodeChar_eq c
  refine ⟨b, ?_, hb⟩
  rw [byte, h.getElem?_encode, List.flatMap_cons, hc]
  rfl

/-- The bytes behind the place are those of the text that is left. -/
theorem bytesFrom_eq (h : RestAt source place text) :
    bytesFrom source place = .ok (text.flatMap String.utf8EncodeChar) := by
  rw [bytesFrom, if_pos h.le_length, h.drop_encode]

/-- The characters of a slice are in the source, and its bytes are theirs. -/
theorem slice_eq_ok_iff {first last : Nat} {cs : List Char} : slice source first last = .ok cs ↔
    first + size cs = last ∧ ∃ rest, RestAt source first (cs ++ rest) := by
  constructor
  · intro h
    unfold slice at h
    split at h
    · next hle =>
      split at h
      · cases h
      · next front behind hfront =>
        split at h
        · cases h
        · next found rest hfound =>
          cases h
          obtain ⟨hsource, hfirst⟩ := Utf8.split?_eq_some_iff.1 hfront
          obtain ⟨rfl, hsize⟩ := Utf8.split?_eq_some_iff.1 hfound
          exact ⟨by omega, rest, front, hsource, hfirst⟩
    · cases h
  · rintro ⟨rfl, rest, before, hsource, rfl⟩
    rw [slice, if_pos (Nat.le_add_right _ _), Nat.add_sub_cancel_left, hsource]
    simp only [Utf8.split?_size_append]

/-- There is a slice exactly from one place where a source can be divided on to another one. -/
theorem exists_slice_iff {first last : Nat} : (∃ cs, slice source first last = .ok cs) ↔
    first ≤ last ∧ Utf8.IsBoundary source first ∧ Utf8.IsBoundary source last := by
  constructor
  · rintro ⟨cs, h⟩
    obtain ⟨rfl, rest, hrest⟩ := slice_eq_ok_iff.1 h
    exact ⟨Nat.le_add_right _ _, hrest.isBoundary, (hrest.forward cs).isBoundary⟩
  · rintro ⟨hle, ⟨text, front, hfront, rfl⟩, ⟨rest, whole, hwhole, rfl⟩⟩
    have hprefix : front <+: whole := by
      rcases List.prefix_or_prefix_of_prefix (List.prefix_append front text)
          (hfront ▸ hwhole ▸ List.prefix_append whole rest) with h | ⟨cs, rfl⟩
      · exact h
      · have hempty : cs = [] := by
          by_contra hne
          have hpos := Utf8.size_pos hne
          rw [Utf8.size_append] at hle
          omega
        exact ⟨[], by rw [hempty, List.append_nil, List.append_nil]⟩
    obtain ⟨cs, rfl⟩ := hprefix
    refine ⟨cs, slice_eq_ok_iff.2 ⟨(Utf8.size_append front cs).symm, rest, front, ?_, rfl⟩⟩
    rw [hwhole, List.append_assoc]

/-- A slice that ends behind some characters has these. -/
theorem slice_eq {cs : List Char} (h : RestAt source place (cs ++ text)) :
    slice source place (place + size cs) = .ok cs :=
  slice_eq_ok_iff.2 ⟨rfl, text, h⟩

/-- A slice up to the end has all that is left. -/
theorem slice_length_eq (h : RestAt source place text) :
    slice source place (Utf8.encode source).length = .ok text := by
  rw [h.length_encode]
  rw [← List.append_nil text] at h
  exact slice_eq h

/-! ## Options and symbols -/

variable {start : Cursor}

/-- ASCII options are found in bytes where they are found in characters. -/
theorem option_eq (h : RestAt source start.pointer text) (kind : TokenKind) {options : List String}
    (hascii : ∀ word ∈ options, (Utf8.encode word).length = word.length) :
    option kind options source start = .ok ((longestMatch options text).map fun word =>
      .ofLexeme start text ⟨kind, word, word.length⟩) := by
  rw [option, bytesFrom_eq h]
  refine congrArg Except.ok ?_
  rw [← longestMatch_eq_longestInBytes]
  refine Option.map_congr fun word hword => ?_
  obtain ⟨cs, rest, rfl, hword'⟩ := Lexeme.longestMatch_spells hword
  have hlength : cs.length = word.length := by
    rw [← String.length_toList, hword', List.length_map]
  have hsize : (Utf8.encode word).length = size cs := by
    rw [← Utf8.size_map_toLower, ← hword']
    rfl
  have hwidth := hascii word (longestMatch_mem hword)
  rw [Found.ofLexeme, ← hlength, List.take_left, Cursor.behind, ← hsize, hwidth, hlength]

/-- Reserved words. -/
theorem keyword_eq (h : RestAt source start.pointer text) :
    keyword source start = .ok ((Lexeme.keyword? text).map (.ofLexeme start text)) := by
  have hascii : ∀ word ∈ Keyword.all.map Keyword.spelling,
      (Utf8.encode word).length = word.length := by decide
  rw [keyword, option_eq h .keyword hascii, Lexeme.keyword?, Option.map_map]
  rfl

/-- The blank at the front of a text. -/
def blankAt? (start : Cursor) : List Char → Option Found
  | [] => none
  | c :: _ => (start.loc.afterBlank? c).map fun loc => ⟨none, ⟨start.pointer + 1, loc⟩⟩

/-- Blanks, and symbols. -/
theorem symbol_eq (h : RestAt source start.pointer text) :
    symbol source start
      = .ok ((blankAt? start text).or ((Lexeme.symbol? text).map (.ofLexeme start text))) := by
  have hascii : ∀ word ∈ Symbol.all.map Symbol.spelling,
      (Utf8.encode word).length = word.length := by decide
  cases text with
  | nil =>
    simp only [symbol, byte?_nil h]
    rfl
  | cons c rest =>
    obtain ⟨b, hb, hsame⟩ := exists_byte? h
    simp only [symbol, hb, blankAt?, bind, Except.bind, hsame (asciiOnly_afterBlank? start.loc)]
    cases start.loc.afterBlank? c with
    | some loc => rfl
    | none =>
      rw [option_eq h .symbol hascii, Lexeme.symbol?, Option.map_map]
      rfl

/-! ## Quoted texts -/

/-- The closing delimiter is found in characters and in bytes. -/
theorem close?_eq (q : Char) (cur : Cursor) (contents text : List Char) :
    close? q cur contents text = (Quoted.close? q text).map fun (cs, width) =>
      (contents ++ cs, cur.behind (text.take width)) := by
  -- cases as in the recursion: a doubled delimiter, the closing one, or any other character
  fun_induction Quoted.close? q text generalizing cur contents with
  | case1 => rfl
  | case2 =>
    rw [close?, if_pos rfl, Cursor.advance_utf8Size]
    simp
  | case3 c hc =>
    rw [close?, if_neg hc]
    rfl
  | case4 rest ih =>
    rw [close?, if_pos rfl, if_pos rfl, ih, Cursor.advance_utf8Size, Cursor.advance_utf8Size,
      Cursor.behind_append, Option.map_map]
    refine congrArg (Option.map · _) (funext fun found => ?_)
    simp [Cursor.behind_append]
  | case5 d rest hd =>
    rw [close?, if_pos rfl, if_neg hd, Cursor.advance_utf8Size]
    simp
  | case6 c d rest hc ih =>
    rw [close?, if_neg hc, ih, Cursor.advance_utf8Size, Option.map_map]
    refine congrArg (Option.map · _) (funext fun found => ?_)
    simp [Cursor.behind_append]

/-- Quoted texts. -/
theorem quoted_eq (h : RestAt source start.pointer text) (q : Char) (kind : TokenKind) :
    quoted q kind source start = .ok ((Quoted.read? q text).map fun (cs, width) =>
      .ofLexeme start text ⟨kind, String.ofList cs, width⟩) := by
  simp only [quoted, slice_length_eq h]
  cases text with
  | nil => rfl
  | cons c rest =>
    show (if c = q then _ else _) = _
    rw [Quoted.read?]
    by_cases hc : c = q
    · subst hc
      rw [if_pos rfl, if_pos rfl, close?_eq, Cursor.advance_utf8Size]
      simp only [Option.map_map]
      refine congrArg (fun f => Except.ok (Option.map f _)) (funext fun found => ?_)
      simp [Found.ofLexeme, Cursor.behind_append]
    · rw [if_neg hc, if_neg hc]
      rfl

/-- Texts between single quotes. -/
theorem string_eq (h : RestAt source start.pointer text) :
    string source start = .ok ((Lexeme.string? text).map (.ofLexeme start text)) := by
  rw [string, quoted_eq h, Lexeme.string?, Option.map_map]
  rfl

/-! ## Names -/

/-- A bare name ends where it does in characters. -/
theorem nameEnd_eq {cur : Cursor} (h : RestAt source cur.pointer text) :
    nameEnd source cur = .ok (cur.behind (text.takeWhile Lexeme.isNamePart)) := by
  -- induction on the text; a character of the name is passed with its one byte
  induction text generalizing cur with
  | nil =>
    rw [nameEnd, byte?_nil h]
    rfl
  | cons c rest ih =>
    obtain ⟨b, hb, hsame⟩ := exists_byte? h
    rw [nameEnd, hb]
    simp only [hsame asciiOnly_isNamePart]
    by_cases hc : Lexeme.isNamePart c = true
    · have hascii := (Lexeme.isNamePart_iff.1 hc).toNat_lt
      rw [if_pos hc, List.takeWhile_cons_of_pos hc, cur.advance_one hascii,
        ih (h.forward [c]), Cursor.behind_append]
      rfl
    · rw [if_neg hc, List.takeWhile_cons_of_neg hc, Cursor.behind_nil]

/-- Bare names. -/
theorem bareName_eq (h : RestAt source start.pointer text) :
    bareName source start = .ok ((Lexeme.bareName? text).map (.ofLexeme start text)) := by
  cases text with
  | nil =>
    rw [bareName, byte?_nil h]
    rfl
  | cons c rest =>
    obtain ⟨b, hb, hsame⟩ := exists_byte? h
    rw [bareName, hb]
    show (if (Char.ofUInt8 b).isAlpha = true then _ else _) = _
    rw [hsame asciiOnly_isAlpha, Lexeme.bareName?]
    by_cases hc : c.isAlpha = true
    · have hname : Lexeme.isNamePart c = true := by
        rw [Lexeme.isNamePart, Char.isAlphanum, hc]
        rfl
      have hascii := (Lexeme.isNamePart_iff.1 hname).toNat_lt
      have hsplit : c :: rest = (c :: rest.takeWhile Lexeme.isNamePart)
          ++ rest.dropWhile Lexeme.isNamePart := by
        rw [List.cons_append, List.takeWhile_append_dropWhile]
      have hend : nameEnd source (start.behind [c])
          = .ok (start.behind (c :: rest.takeWhile Lexeme.isNamePart)) := by
        rw [nameEnd_eq (h.forward [c]), Cursor.behind_append]
        rfl
      rw [if_pos hc, if_pos hc, start.advance_one hascii, hend]
      show (slice source start.pointer
        (start.pointer + size (c :: rest.takeWhile Lexeme.isNamePart)) >>= _) = _
      rw [slice_eq (hsplit ▸ h)]
      have htake : (c :: rest).take (c :: rest.takeWhile Lexeme.isNamePart).length
          = c :: rest.takeWhile Lexeme.isNamePart := by
        rw [hsplit, List.take_left]
      exact congrArg (fun cs => Except.ok (some (Found.mk _ (start.behind cs)))) htake.symm
    · rw [if_neg hc, if_neg hc]
      rfl

/-- Names. -/
theorem identifier_eq (h : RestAt source start.pointer text) :
    identifier source start = .ok ((Lexeme.identifier? text).map (.ofLexeme start text)) := by
  rw [identifier, quoted_eq h, Lexeme.identifier?]
  cases Quoted.read? '"' text with
  | none => exact bareName_eq h
  | some found => rfl

end ByteLexer

end SqlStore
