import SqlStore.Proofs.Token.Cursor
import SqlStore.Proofs.Token.LongestOption

/-! # Options in the bytes of a source

A place in a source may be any place among its bytes, also one inside a character:

* **`longestInBytes options bytes`** — the longest option that bytes open with, read byte by byte;
* **`longestBy_encode_iff`** — the longest option is the same in characters and in bytes;
* **`Lexer.StandsAt.longestMatch_eq`** — so this is the longest match wherever a lexer can stand;
* **`longestInBytes_longest`** — what is found at any place of a source, and what ends the reading. -/

namespace SqlStore

/-! ## The longest option in bytes -/

/-- The longest non-empty option that bytes open with once their ASCII letters are in lower case. -/
def longestInBytes (options : List String) (bytes : Bytes) : Option String :=
  longestPending UInt8.toAsciiLower none (options.map fun option => (option, Utf8.encode option)) bytes

/-- Of two beginnings of one list, the shorter one is a beginning of the other. -/
theorem prefix_iff_length_le {α : Type} {as bs cs : List α} (ha : as <+: cs) (hb : bs <+: cs) :
    as <+: bs ↔ as.length ≤ bs.length :=
  ⟨List.IsPrefix.length_le, List.prefix_of_prefix_length_le ha hb⟩

/-- The longest option is the same in characters and in bytes. -/
theorem longestBy_encode_iff {options : List String} {text : List Char} {word : String} :
    LongestBy UInt8.toAsciiLower Utf8.encode options (text.flatMap String.utf8EncodeChar) word ↔
      LongestBy Char.toLower String.toList options text word := by
  have hfront : ∀ option : String,
      Utf8.encode option <+: (text.flatMap String.utf8EncodeChar).map UInt8.toAsciiLower ↔
        option.toList <+: text.map Char.toLower := fun option => by
    rw [← Utf8.flatMap_toLower]
    exact Utf8.flatMap_prefix_iff
  have hlength : ∀ option : String, option.toList <+: text.map Char.toLower →
      word.toList <+: text.map Char.toLower →
      ((Utf8.encode option).length ≤ (Utf8.encode word).length ↔
        option.toList.length ≤ word.toList.length) := fun option hoption hword => by
    rw [← prefix_iff_length_le hoption hword,
      ← prefix_iff_length_le ((hfront option).2 hoption) ((hfront word).2 hword)]
    exact Utf8.flatMap_prefix_iff
  constructor
  · rintro ⟨hmem, hnil, hopens, hlongest⟩
    have hword := (hfront word).1 hopens
    refine ⟨hmem, fun h => hnil (by rw [Utf8.encode, h]; rfl), hword, fun option hoption hstands => ?_⟩
    exact (hlength option hstands hword).1 (hlongest option hoption ((hfront option).2 hstands))
  · rintro ⟨hmem, hnil, hopens, hlongest⟩
    have hempty : word ≠ "" := fun h => hnil (by rw [h]; rfl)
    refine ⟨hmem, fun h => hempty (Utf8.encode_eq_nil_iff.1 h), (hfront word).2 hopens,
      fun option hoption hstands => ?_⟩
    have hchars := (hfront option).1 hstands
    exact (hlength option hchars hopens).2 (hlongest option hoption hchars)

/-- The longest match in a text is the longest option in its bytes. -/
theorem longestMatch_eq_longestInBytes (options : List String) (text : List Char) :
    longestMatch options text = longestInBytes options (text.flatMap String.utf8EncodeChar) := by
  refine Option.ext fun word => ?_
  rw [longestMatch_eq_some_iff, isLongest_iff, ← longestBy_encode_iff, longestInBytes,
    longestPending_eq_some_iff Utf8.encode_injective]

/-- Wherever a lexer stands, its longest match is the longest option in the bytes behind that place. -/
theorem Lexer.StandsAt.longestMatch_eq {l : Lexer} {source : String} {pointer : Nat}
    (h : l.StandsAt source pointer) (options : List String) :
    longestMatch options l.text = longestInBytes options ((Utf8.encode source).drop pointer) := by
  obtain ⟨before, rfl, rfl⟩ := h
  rw [Utf8.encode_append, List.drop_left, longestMatch_eq_longestInBytes, Utf8.encode,
    String.toList_ofList]

/-- What no option goes on behind ends the reading. -/
theorem longestInBytes_append {options : List String} {read rest : Bytes}
    (h : ∀ option ∈ options, read.map UInt8.toAsciiLower <+: Utf8.encode option →
      Utf8.encode option = read.map UInt8.toAsciiLower) :
    longestInBytes options (read ++ rest) = longestInBytes options read := by
  apply Lexeme.longestPending_append
  intro q hq b _ hfront
  obtain ⟨option, hoption, rfl⟩ := List.mem_map.1 hq
  have hlen := hfront.length_le
  have hwhole := h option hoption ((List.prefix_append _ _).trans hfront)
  rw [hwhole, List.length_append] at hlen
  exact Nat.not_succ_le_self _ hlen

/-- At every place of a source and for all options, the longest option is found that is not empty and is
spelled by the bytes behind this place in any letter case, and nothing if there is none. Where no option
goes on behind the bytes read so far, what follows them makes no difference. This is what a lexer finds
that stands at the place. -/
theorem longestInBytes_longest (options : List String) (source : String) (pointer : Nat) :
    (∀ word, longestInBytes options ((Utf8.encode source).drop pointer) = some word ↔
      LongestBy UInt8.toAsciiLower Utf8.encode options ((Utf8.encode source).drop pointer) word) ∧
    (longestInBytes options ((Utf8.encode source).drop pointer) = none ↔ ∀ option ∈ options,
      Utf8.encode option <+: ((Utf8.encode source).drop pointer).map UInt8.toAsciiLower → option = "") ∧
    (∀ read rest, (Utf8.encode source).drop pointer = read ++ rest →
      (∀ option ∈ options, read.map UInt8.toAsciiLower <+: Utf8.encode option →
        Utf8.encode option = read.map UInt8.toAsciiLower) →
      longestInBytes options ((Utf8.encode source).drop pointer) = longestInBytes options read) ∧
    ∀ l : Lexer, l.StandsAt source pointer →
      longestMatch options l.text = longestInBytes options ((Utf8.encode source).drop pointer) := by
  refine ⟨fun word => longestPending_eq_some_iff Utf8.encode_injective, ?_, ?_, ?_⟩
  · simp only [longestInBytes, longestPending_eq_none_iff, Utf8.encode_eq_nil_iff]
  · intro read rest hsplit hends
    rw [hsplit]
    exact longestInBytes_append hends
  · intro l hl
    exact hl.longestMatch_eq options

/-- Inside a character no option is spelled. Behind it the longest of three is, and the letter that follows
it is not looked at. -/
theorem longestInBytes_longest_insideCharacter :
    longestInBytes ["in", "int", "into"] ((Utf8.encode "éINTox").drop 1) = none ∧
      longestMatch ["in", "int", "into"] "INTox".toList = some "into" ∧
      longestInBytes ["in", "int", "into"] ((Utf8.encode "éINTox").drop 2)
        = longestInBytes ["in", "int", "into"] (Utf8.encode "INTo") := by
  have hstands : (⟨"INTox".toList, ⟨0, 1⟩, none⟩ : Lexer).StandsAt "éINTox" 2 := ⟨"é", rfl, by decide⟩
  obtain ⟨hsome, -, hends, hlexer⟩ := longestInBytes_longest ["in", "int", "into"] "éINTox" 2
  refine ⟨(longestInBytes_longest ["in", "int", "into"] "éINTox" 1).2.1.2 (by decide), ?_, ?_⟩
  · rw [hlexer _ hstands]
    exact (hsome "into").2 ⟨by decide, by decide, by decide, by decide⟩
  · exact hends _ (Utf8.encode "x") (by decide) (by decide)

end SqlStore
