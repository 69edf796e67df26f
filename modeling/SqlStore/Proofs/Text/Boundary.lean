import SqlStore.Proofs.Text.Utf8

/-! # Places between characters

A text can be divided at some of the places among its bytes, which are where a character begins and where
the text ends:

* **`Utf8.size`** — the number of bytes of characters;
* **`Utf8.RestAt`** — what is left of a source at a place where it can be divided;
* **`Utf8.IsBoundary`** — these places. `isBoundary_iff_getElem?` tells them by the byte behind them;
* **`Utf8.split?`** — characters divided behind a number of bytes. `split?_eq_some_iff` says that this
  divides no character and goes no further than the end. -/

namespace SqlStore.Utf8

/-! ## The number of bytes -/

/-- The number of bytes of characters. -/
def size (cs : List Char) : Nat := (cs.flatMap String.utf8EncodeChar).length

@[simp] theorem size_nil : size [] = 0 := rfl

@[simp] theorem size_cons (c : Char) (cs : List Char) : size (c :: cs) = c.utf8Size + size cs := by
  rw [size, List.flatMap_cons, List.length_append, String.length_utf8EncodeChar, size]

@[simp] theorem size_append (cs ds : List Char) : size (cs ++ ds) = size cs + size ds := by
  rw [size, List.flatMap_append, List.length_append, size, size]

/-- ASCII characters have one byte each. -/
theorem size_eq_length {cs : List Char} (h : ∀ c ∈ cs, c.toNat < 128) : size cs = cs.length := by
  have hlength := length_encode_of_lt h
  rwa [encode, String.toList_ofList] at hlength

/-- Characters have bytes. -/
theorem size_pos {cs : List Char} (h : cs ≠ []) : 0 < size cs := by
  obtain ⟨c, cs, rfl⟩ := List.exists_cons_of_ne_nil h
  rw [size_cons]
  exact Nat.add_pos_left c.utf8Size_pos _

/-- Letter case makes no difference to the number of bytes. -/
theorem size_map_toLower (cs : List Char) : size (cs.map Char.toLower) = size cs := by
  rw [size, flatMap_toLower, List.length_map, size]

/-! ## Places in a source -/

/-- Whether `text` is what is left of a source behind a number of bytes, which divide no character. -/
def RestAt (source : String) (place : Nat) (text : List Char) : Prop :=
  ∃ before, source.toList = before ++ text ∧ size before = place

/-- Whether a source can be divided at a place among its bytes. -/
def IsBoundary (source : String) (place : Nat) : Prop := ∃ text, RestAt source place text

namespace RestAt

variable {source : String} {place : Nat} {text : List Char}

/-- In front of all bytes the whole source is left. -/
theorem zero (source : String) : RestAt source 0 source.toList := ⟨[], rfl, rfl⟩

/-- Behind some characters what follows them is left. -/
theorem forward (cs : List Char) (h : RestAt source place (cs ++ text)) :
    RestAt source (place + size cs) text := by
  obtain ⟨before, hsource, rfl⟩ := h
  exact ⟨before ++ cs, by rw [hsource, List.append_assoc], size_append before cs⟩

/-- Behind one character what follows it is left. -/
theorem tail {c : Char} (h : RestAt source place (c :: text)) :
    RestAt source (place + c.utf8Size) text := by
  have hforward := forward [c] h
  rwa [size_cons, size_nil, Nat.add_zero] at hforward

/-- The bytes in front of a place and behind it are those of the source. -/
theorem length_encode (h : RestAt source place text) :
    (encode source).length = place + size text := by
  obtain ⟨before, hsource, rfl⟩ := h
  rw [← size_append, ← hsource]
  rfl

/-- No place lies behind the end of its source. -/
theorem le_length (h : RestAt source place text) : place ≤ (encode source).length :=
  h.length_encode ▸ Nat.le_add_right _ _

/-- The bytes behind a place are those of the characters left there. -/
theorem drop_encode (h : RestAt source place text) :
    (encode source).drop place = text.flatMap String.utf8EncodeChar := by
  obtain ⟨before, hsource, rfl⟩ := h
  rw [encode, hsource, List.flatMap_append, size, List.drop_left]

/-- The byte behind a place is the first one of the characters left there. -/
theorem getElem?_encode (h : RestAt source place text) :
    (encode source)[place]? = (text.flatMap String.utf8EncodeChar).head? := by
  rw [← h.drop_encode, List.head?_drop]

/-- Nothing is left exactly at the end. -/
theorem eq_length_iff (h : RestAt source place text) :
    place = (encode source).length ↔ text = [] := by
  rw [h.length_encode]
  constructor
  · intro heq
    by_contra hne
    have hpos := size_pos hne
    omega
  · rintro rfl
    rfl

/-- Characters behind a place end at another one. -/
theorem isBoundary (h : RestAt source place text) : IsBoundary source place := ⟨text, h⟩

end RestAt

/-- No place where a source can be divided lies behind its end. -/
theorem IsBoundary.le_length {source : String} {place : Nat} (h : IsBoundary source place) :
    place ≤ (encode source).length := by
  obtain ⟨text, h⟩ := h
  exact h.le_length

/-! ## The byte behind a place -/

/-- Whether a byte goes on with a character that others began. -/
def IsTrailing (b : UInt8) : Prop := 128 ≤ b.toNat ∧ b.toNat < 192

instance : DecidablePred IsTrailing := fun b =>
  inferInstanceAs (Decidable (128 ≤ b.toNat ∧ b.toNat < 192))

/-- Six bits under the mark of a trailing byte are one. -/
theorem isTrailing_ofNat (n : Nat) : IsTrailing (UInt8.ofNat (n % 64 + 128)) := by
  rw [IsTrailing, toNat_ofNat_of_lt (by omega)]
  omega

/-- Numbers below and above those of trailing bytes are not theirs. -/
theorem not_isTrailing_ofNat {n : Nat} (h : n < 128 ∨ 192 ≤ n ∧ n < 256) :
    ¬ IsTrailing (UInt8.ofNat n) := by
  rw [IsTrailing, toNat_ofNat_of_lt (by omega)]
  omega

/-- The first byte of a character is no trailing one, and all others are. -/
theorem encodeChar_trailing (c : Char) : ∃ b bytes,
    String.utf8EncodeChar c = b :: bytes ∧ ¬ IsTrailing b ∧ ∀ d ∈ bytes, IsTrailing d := by
  -- by the number of bytes, one to four
  rw [encodeChar_eq]
  split
  · exact ⟨_, [], rfl, not_isTrailing_ofNat (by omega), List.forall_mem_nil _⟩
  · split
    · refine ⟨_, _, rfl, not_isTrailing_ofNat (by omega), ?_⟩
      exact List.forall_mem_singleton.2 (isTrailing_ofNat _)
    · split
      · refine ⟨_, _, rfl, not_isTrailing_ofNat (by omega), ?_⟩
        exact List.forall_mem_cons.2
          ⟨isTrailing_ofNat _, List.forall_mem_singleton.2 (isTrailing_ofNat _)⟩
      · refine ⟨_, _, rfl, not_isTrailing_ofNat (by omega), ?_⟩
        exact List.forall_mem_cons.2 ⟨isTrailing_ofNat _, List.forall_mem_cons.2
          ⟨isTrailing_ofNat _, List.forall_mem_singleton.2 (isTrailing_ofNat _)⟩⟩

/-- A byte that is no trailing one begins a character wherever it stands. -/
theorem exists_append_of_not_isTrailing {cs : List Char} {i : Nat} {b : UInt8}
    (h : (cs.flatMap String.utf8EncodeChar)[i]? = some b) (hb : ¬ IsTrailing b) :
    ∃ front back, cs = front ++ back ∧ size front = i := by
  induction cs generalizing i with
  | nil => cases h
  | cons c cs ih =>
    obtain ⟨first, bytes, hc, -, hbytes⟩ := encodeChar_trailing c
    rw [List.flatMap_cons] at h
    rcases Nat.lt_or_ge i (String.utf8EncodeChar c).length with hinside | hbehind
    · rw [List.getElem?_append_left hinside, hc] at h
      cases i with
      | zero => exact ⟨[], c :: cs, rfl, rfl⟩
      | succ i => exact absurd (hbytes b (List.mem_of_getElem? h)) hb
    · rw [List.getElem?_append_right hbehind] at h
      obtain ⟨front, back, rfl, hfront⟩ := ih h
      refine ⟨c :: front, back, rfl, ?_⟩
      rw [size_cons, hfront, ← String.length_utf8EncodeChar, Nat.add_sub_cancel' hbehind]

/-- A source can be divided at its end and where no trailing byte stands. -/
theorem isBoundary_iff_getElem? {source : String} {place : Nat} : IsBoundary source place ↔
    place = (encode source).length ∨ ∃ b ∈ (encode source)[place]?, ¬ IsTrailing b := by
  constructor
  · rintro ⟨text, h⟩
    cases text with
    | nil => exact .inl (h.eq_length_iff.2 rfl)
    | cons c text =>
      obtain ⟨b, bytes, hc, hb, -⟩ := encodeChar_trailing c
      refine .inr ⟨b, ?_, hb⟩
      rw [h.getElem?_encode, List.flatMap_cons, hc]
      rfl
  · rintro (rfl | ⟨b, hget, hb⟩)
    · exact ⟨[], source.toList, (List.append_nil _).symm, rfl⟩
    · obtain ⟨front, back, hsource, hfront⟩ := exists_append_of_not_isTrailing hget hb
      exact ⟨back, front, hsource, hfront⟩

instance (source : String) : DecidablePred (IsBoundary source) := fun _ =>
  decidable_of_iff _ isBoundary_iff_getElem?.symm

/-! ## Dividing characters -/

/-- Characters divided behind a number of bytes; nothing if that lies inside a character or beyond the
end. -/
def split? : Nat → List Char → Option (List Char × List Char)
  | 0, cs => some ([], cs)
  | _ + 1, [] => none
  | n + 1, c :: cs =>
    if c.utf8Size ≤ n + 1 then
      (split? (n + 1 - c.utf8Size) cs).map fun (front, back) => (c :: front, back)
    else none

/-- Characters are divided behind those that have the number of bytes. -/
theorem split?_size_append (front back : List Char) :
    split? (size front) (front ++ back) = some (front, back) := by
  induction front with
  | nil => cases back <;> rfl
  | cons c front ih =>
    obtain ⟨n, hn⟩ := Nat.exists_eq_succ_of_ne_zero (Nat.ne_of_gt (size_pos (List.cons_ne_nil c front)))
    have hrest : n + 1 - c.utf8Size = size front := by
      rw [size_cons] at hn
      omega
    have hle : c.utf8Size ≤ n + 1 := by
      rw [size_cons] at hn
      omega
    rw [hn, List.cons_append, split?, if_pos hle, hrest, ih, Option.map_some]

/-- What characters are divided into has their bytes, in front the given number of them. -/
theorem split?_eq_some_iff {n : Nat} {cs front back : List Char} :
    split? n cs = some (front, back) ↔ cs = front ++ back ∧ size front = n := by
  constructor
  · intro h
    fun_induction split? n cs generalizing front back with
    | case1 =>
      cases h
      exact ⟨rfl, rfl⟩
    | case2 => cases h
    | case3 n c cs hle ih =>
      obtain ⟨⟨front', back'⟩, hsplit, heq⟩ := Option.map_eq_some_iff.1 h
      obtain ⟨rfl, rfl⟩ := Prod.mk.inj heq
      obtain ⟨rfl, hsize⟩ := ih hsplit
      refine ⟨rfl, ?_⟩
      rw [size_cons, hsize]
      omega
    | case4 => cases h
  · rintro ⟨rfl, rfl⟩
    exact split?_size_append front back

end SqlStore.Utf8
