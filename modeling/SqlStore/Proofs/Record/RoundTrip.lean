import SqlStore.Proofs.Bytes
import SqlStore.Table.Record
import SqlStore.Text.Utf8.RoundTrip

/-! # Records read back

What a format writes it reads back from the front of any bytes that begin with it:

* **`Format.ReadsBack f fits`** — the law, for the values that `fits` allows. A length or a count is
  written with eight bytes, so only those below `2 ^ 64` are written in full;
* **`Table.Fits`**, **`Row.Fits`** — the tables and rows all of whose lengths are;
* **`Table.readsBack`**, **`Row.readsBack`**, **`rowCounter_readsBack`** — the law for what a table
  store keeps, assembled from one lemma for each way of building formats. -/

namespace SqlStore

namespace Format

variable {α β : Type}

/-- A format reads back what it wrote, and what follows it is left over. -/
def ReadsBack (f : Format α) (fits : α → Prop) : Prop :=
  ∀ x rest, fits x → f.read (f.write x ++ rest) = .ok (x, rest)

/-- The front of a byte string that begins with a written value is that value. -/
theorem ReadsBack.readFront {f : Format α} {fits : α → Prop} (h : f.ReadsBack fits) {x : α}
    (hx : fits x) : f.readFront (f.write x) = .ok x := by
  have hread := h x [] hx
  rw [List.append_nil] at hread
  rw [Format.readFront, hread]
  rfl

/-- A law that holds for many values holds for fewer. -/
theorem ReadsBack.mono {f : Format α} {fits fewer : α → Prop} (h : f.ReadsBack fits)
    (himp : ∀ x, fewer x → fits x) : f.ReadsBack fewer :=
  fun x rest hx => h x rest (himp x hx)

/-! ## Numbers, byte strings and texts -/

/-- Numbers in the range of their width are read back. -/
theorem readsBack_natural (width : Nat) : (natural width).ReadsBack (· < 256 ^ width) := by
  intro n rest hn
  have hfront : (littleEndian width n ++ rest).take width = littleEndian width n :=
    List.take_left' (length_littleEndian width n)
  have hrest : (littleEndian width n ++ rest).drop width = rest :=
    List.drop_left' (length_littleEndian width n)
  simp only [natural, hfront, hrest, length_littleEndian, Nat.lt_irrefl, if_false,
    ofLittleEndian_littleEndian, Nat.mod_eq_of_lt hn]

/-- Lengths and counts below `2 ^ 64` are read back. -/
theorem readsBack_count : count.ReadsBack (· < 2 ^ 64) := readsBack_natural 8

/-- Byte strings are read back if their length is. -/
theorem readsBack_block : block.ReadsBack (·.length < 2 ^ 64) := by
  intro bytes rest hlen
  have hcount := readsBack_count bytes.length (bytes ++ rest) hlen
  simp only [block, List.append_assoc, hcount, bind, Except.bind, List.take_left,
    List.drop_left, Nat.lt_irrefl, if_false]

/-- Texts are read back if their length in bytes is. -/
theorem readsBack_text : text.ReadsBack fun s => (Utf8.encode s).length < 2 ^ 64 := by
  intro s rest hlen
  have hblock := readsBack_block (Utf8.encode s) rest hlen
  simp only [text, hblock, bind, Except.bind, Utf8.decode_encode]

/-! ## Formats from formats -/

/-- Two values one after the other are read back if each is. -/
theorem ReadsBack.pair {f : Format α} {g : Format β} {fits : α → Prop} {fits' : β → Prop}
    (hf : f.ReadsBack fits) (hg : g.ReadsBack fits') :
    (f.pair g).ReadsBack fun x => fits x.1 ∧ fits' x.2 := by
  rintro ⟨a, b⟩ rest ⟨ha, hb⟩
  have hfirst := hf a (g.write b ++ rest) ha
  have hsecond := hg b rest hb
  simp only [Format.pair, List.append_assoc, hfirst, hsecond, bind, Except.bind]

/-- Values under another name are read back if the names undo each other. -/
theorem ReadsBack.imap {f : Format α} {fits : α → Prop} (hf : f.ReadsBack fits) {pack : α → β}
    {unpack : β → α} (hpack : ∀ x, pack (unpack x) = x) :
    (f.imap pack unpack).ReadsBack fun x => fits (unpack x) := by
  intro x rest hx
  have hread := hf (unpack x) rest hx
  simp only [Format.imap, hread, Except.map, hpack]

/-- An optional value is read back if the value is. -/
theorem ReadsBack.optional {f : Format α} {fits : α → Prop} (hf : f.ReadsBack fits) :
    f.optional.ReadsBack fun o => ∀ x ∈ o, fits x := by
  intro o rest ho
  cases o with
  | none => rfl
  | some x =>
    have hread := hf x rest (ho x rfl)
    have hne : ¬ (1 : UInt8) = 0 := by decide
    simp only [Format.optional, List.cons_append, if_neg hne, if_true, hread, Except.map]

/-- As many values as were written are read back. -/
theorem ReadsBack.readMany {f : Format α} {fits : α → Prop} (hf : f.ReadsBack fits) (xs : List α)
    (rest : Bytes) (hxs : ∀ x ∈ xs, fits x) :
    f.readMany xs.length (xs.flatMap f.write ++ rest) = .ok (xs, rest) := by
  -- what follows a value are the others, and `rest` behind them
  induction xs with
  | nil => rfl
  | cons x xs ih =>
    have hfirst := hf x (xs.flatMap f.write ++ rest) (hxs x List.mem_cons_self)
    have hothers := ih fun y hy => hxs y (List.mem_cons_of_mem x hy)
    simp only [List.length_cons, List.flatMap_cons, List.append_assoc, Format.readMany, hfirst,
      hothers, bind, Except.bind]

/-- A list is read back if its count and its members are. -/
theorem ReadsBack.list {f : Format α} {fits : α → Prop} (hf : f.ReadsBack fits) :
    f.list.ReadsBack fun xs => xs.length < 2 ^ 64 ∧ ∀ x ∈ xs, fits x := by
  rintro xs rest ⟨hlen, hxs⟩
  have hcount := readsBack_count xs.length (xs.flatMap f.write ++ rest) hlen
  simp only [Format.list, List.append_assoc, hcount, bind, Except.bind, hf.readMany xs rest hxs]

/-- An alternative is read back if there are no more of them than four bytes can tell apart. -/
theorem readsBack_choice [DecidableEq α] {alternatives : List α}
    (hlen : alternatives.length ≤ 256 ^ 4) :
    (choice alternatives).ReadsBack (· ∈ alternatives) := by
  intro x rest hx
  have hindex : alternatives.idxOf x < alternatives.length := List.idxOf_lt_length_of_mem hx
  have hread := readsBack_natural 4 (alternatives.idxOf x) rest (Nat.lt_of_lt_of_le hindex hlen)
  have hget : alternatives[alternatives.idxOf x]? = some x := by
    rw [List.getElem?_eq_getElem hindex, List.getElem_idxOf hindex]
  simp only [natural] at hread
  simp only [choice, natural, hread, bind, Except.bind, hget]

end Format

/-! ## Tables, rows and counters -/

/-- Whether the length of a text in bytes fits its record. -/
def Text.Fits (s : String) : Prop := (Utf8.encode s).length < 2 ^ 64
  deriving Decidable

/-- Whether the lengths in a table definition fit its record. -/
def Table.Fits (t : Table) : Prop :=
  Text.Fits t.name ∧ t.columns.length < 2 ^ 64 ∧ ∀ c ∈ t.columns, Text.Fits c.name
  deriving Decidable

/-- Whether the lengths in a row fit its record. -/
def Row.Fits (row : Row) : Prop :=
  row.length < 2 ^ 64 ∧ ∀ slot ∈ row, ∀ bytes ∈ slot, bytes.length < 2 ^ 64
  deriving Decidable

/-- A column is read back. -/
theorem Column.readsBack : Column.format.ReadsBack fun c => Text.Fits c.name := by
  have htype : (Format.choice [ColumnType.int, ColumnType.text]).ReadsBack fun _ => True :=
    (Format.readsBack_choice (by decide)).mono fun type _ => by cases type <;> decide
  exact ((Format.readsBack_text.pair htype).imap fun _ => rfl).mono fun c hc => ⟨hc, trivial⟩

/-- A table definition is read back. -/
theorem Table.readsBack : Table.format.ReadsBack Table.Fits :=
  (Format.readsBack_text.pair Column.readsBack.list).imap fun _ => rfl

/-- A row is read back. -/
theorem Row.readsBack : Row.format.ReadsBack Row.Fits :=
  Format.readsBack_block.optional.list

/-- A counter is read back. -/
theorem rowCounter_readsBack : rowCounter.ReadsBack (· < 2 ^ 64) := Format.readsBack_natural 8

/-! ## Values -/

/-- The bytes of a value are read as that value by a column of its type. -/
theorem Value.ofBytes_toBytes (v : Value) : Value.ofBytes v.type v.toBytes = .ok v := by
  cases v with
  | int n =>
    have hlen : (bigEndian intWidth n.toUInt32.toNat).length = intWidth := length_bigEndian _ _
    -- four bytes hold all 32 bits of the number
    have hbound : n.toUInt32.toNat < 256 ^ intWidth := n.toUInt32.toNat_lt
    have hread : ofBigEndian (bigEndian intWidth n.toUInt32.toNat) = n.toUInt32.toNat := by
      rw [ofBigEndian_bigEndian, Nat.mod_eq_of_lt hbound]
    rw [toBytes, type, ofBytes, if_pos hlen, hread, UInt32.ofNat_toNat, Int32.toInt32_toUInt32]
  | text s =>
    simp only [toBytes, type, ofBytes, Utf8.decode_encode]

end SqlStore
