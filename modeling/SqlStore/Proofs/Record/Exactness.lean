import SqlStore.Proofs.Record.RoundTrip
import SqlStore.Proofs.Results
import SqlStore.Table.Store

/-! # Records are read from their own bytes only

Whatever a format reads from the front of a byte string stands there as it is written:

* **`Format.Canonical f fits`** — the law, with one lemma for each way of building formats. It is the other
  direction of `Format.ReadsBack`;
* **`Format.ReadsIn`** — how many values are begun where a number of them is read.
  `Format.Canonical.exists_readsIn` bounds it by the bytes there are, whatever that number is;
* **`TableStore.ReadsExactly f fits`** — a stored record is read as the value it begins with, and one that
  begins with none is damaged;
* **`TableStore.readRecord_exact`** — so it is with tables, rows and counters. -/

namespace SqlStore

namespace Format

variable {α β : Type}

/-- Whatever a format reads fits and stands in front as the format writes it. -/
def Canonical (f : Format α) (fits : α → Prop) : Prop :=
  ∀ bytes x rest, f.read bytes = .ok (x, rest) → fits x ∧ bytes = f.write x ++ rest

/-! ## Numbers, byte strings and texts -/

/-- Only numbers in the range of their width are read. -/
theorem canonical_natural (width : Nat) : (natural width).Canonical (· < 256 ^ width) := by
  intro bytes n rest h
  simp only [natural] at h
  split at h
  · cases h
  · next hfront =>
    cases h
    have hlen : (bytes.take width).length = width :=
      Nat.le_antisymm (List.length_take_le width bytes) (Nat.le_of_not_lt hfront)
    have hwritten := littleEndian_ofLittleEndian (bytes.take width)
    have hbound := ofLittleEndian_lt (bytes.take width)
    rw [hlen] at hwritten hbound
    refine ⟨hbound, ?_⟩
    simp only [natural, hwritten, List.take_append_drop]

/-- Only lengths and counts below `2 ^ 64` are read. -/
theorem canonical_count : count.Canonical (· < 2 ^ 64) := canonical_natural 8

/-- A byte string is read where its length and all its bytes stand. -/
theorem canonical_block : block.Canonical (·.length < 2 ^ 64) := by
  intro bytes x rest h
  obtain ⟨⟨length, behind⟩, hcount, hbytes⟩ := bind_eq_ok_iff.1 h
  obtain ⟨hbound, rfl⟩ := canonical_count _ _ _ hcount
  dsimp only at hbytes
  split at hbytes
  · cases hbytes
  · next hfront =>
    cases hbytes
    have hlen : (behind.take length).length = length :=
      Nat.le_antisymm (List.length_take_le length behind) (Nat.le_of_not_lt hfront)
    refine ⟨lt_of_eq_of_lt hlen hbound, ?_⟩
    simp only [block, hlen, List.append_assoc, List.take_append_drop]

/-- A text is read where its length and all its bytes stand. -/
theorem canonical_text : text.Canonical fun s => (Utf8.encode s).length < 2 ^ 64 := by
  intro bytes s rest h
  obtain ⟨⟨front, behind⟩, hblock, htext⟩ := bind_eq_ok_iff.1 h
  obtain ⟨hbound, rfl⟩ := canonical_block _ _ _ hblock
  dsimp only at htext
  split at htext
  · next hdecode =>
    cases htext
    obtain rfl := Utf8.encode_of_decode hdecode
    exact ⟨hbound, rfl⟩
  · cases htext

/-! ## Formats from formats -/

/-- Two values are read where one stands behind the other. -/
theorem Canonical.pair {f : Format α} {g : Format β} {fits : α → Prop} {fits' : β → Prop}
    (hf : f.Canonical fits) (hg : g.Canonical fits') :
    (f.pair g).Canonical fun x => fits x.1 ∧ fits' x.2 := by
  intro bytes x rest h
  obtain ⟨⟨a, behind⟩, hfirst, hothers⟩ := bind_eq_ok_iff.1 h
  obtain ⟨⟨b, after⟩, hsecond, hpair⟩ := bind_eq_ok_iff.1 hothers
  cases hpair
  obtain ⟨ha, rfl⟩ := hf _ _ _ hfirst
  obtain ⟨hb, rfl⟩ := hg _ _ _ hsecond
  exact ⟨⟨ha, hb⟩, (List.append_assoc _ _ _).symm⟩

/-- A reading under another name succeeds if the reading does. -/
theorem map_read_eq_ok {read : Except Record.Fault (α × Bytes)} {pack : α → β} {y : β} {rest : Bytes}
    (h : (read.map fun (x, rest) => (pack x, rest)) = .ok (y, rest)) :
    ∃ x, read = .ok (x, rest) ∧ y = pack x := by
  cases read with
  | error e => cases h
  | ok found =>
    cases h
    exact ⟨found.1, rfl, rfl⟩

/-- Values under another name are read where the values are, if the names undo each other. -/
theorem Canonical.imap {f : Format α} {fits : α → Prop} (hf : f.Canonical fits) {pack : α → β}
    {unpack : β → α} (hunpack : ∀ a, unpack (pack a) = a) :
    (f.imap pack unpack).Canonical fun x => fits (unpack x) := by
  intro bytes x rest h
  obtain ⟨a, hread, rfl⟩ := map_read_eq_ok h
  simp only [Format.imap, hunpack]
  exact hf _ _ _ hread

/-- An optional value is read behind a tag that tells whether there is one. -/
theorem Canonical.optional {f : Format α} {fits : α → Prop} (hf : f.Canonical fits) :
    f.optional.Canonical fun o => ∀ x ∈ o, fits x := by
  intro bytes o rest h
  cases bytes with
  | nil => cases h
  | cons tag bytes =>
    simp only [Format.optional] at h
    split at h
    · next htag =>
      cases h
      exact ⟨nofun, congrArg (· :: rest) htag⟩
    · split at h
      · next htag =>
        obtain ⟨x, hread, rfl⟩ := map_read_eq_ok h
        obtain ⟨hx, rfl⟩ := hf _ _ _ hread
        refine ⟨fun y hy => Option.some.inj hy ▸ hx, ?_⟩
        rw [htag]
        rfl
      · cases h

/-- As many values are read as are asked for, one behind the other. -/
theorem Canonical.readMany {f : Format α} {fits : α → Prop} (hf : f.Canonical fits) {n : Nat}
    {bytes rest : Bytes} {xs : List α} (h : f.readMany n bytes = .ok (xs, rest)) :
    xs.length = n ∧ (∀ x ∈ xs, fits x) ∧ bytes = xs.flatMap f.write ++ rest := by
  induction n generalizing bytes xs with
  | zero =>
    cases h
    exact ⟨rfl, nofun, rfl⟩
  | succ n ih =>
    obtain ⟨⟨x, behind⟩, hfirst, hbehind⟩ := bind_eq_ok_iff.1 h
    obtain ⟨⟨others, after⟩, hothers, hlist⟩ := bind_eq_ok_iff.1 hbehind
    cases hlist
    obtain ⟨hx, rfl⟩ := hf _ _ _ hfirst
    obtain ⟨rfl, hfit, rfl⟩ := ih hothers
    exact ⟨rfl, List.forall_mem_cons.2 ⟨hx, hfit⟩, by rw [List.flatMap_cons, List.append_assoc]⟩

/-- A list is read where its count and all its members stand. -/
theorem Canonical.list {f : Format α} {fits : α → Prop} (hf : f.Canonical fits) :
    f.list.Canonical fun xs => xs.length < 2 ^ 64 ∧ ∀ x ∈ xs, fits x := by
  intro bytes xs rest h
  obtain ⟨⟨n, behind⟩, hcount, hmembers⟩ := bind_eq_ok_iff.1 h
  obtain ⟨hbound, rfl⟩ := canonical_count _ _ _ hcount
  obtain ⟨rfl, hfit, rfl⟩ := hf.readMany hmembers
  exact ⟨⟨hbound, hfit⟩, by simp only [Format.list, List.append_assoc]⟩

/-- An alternative is read where its index stands, if no alternative is given twice. -/
theorem canonical_choice [DecidableEq α] {alternatives : List α} (hnodup : alternatives.Nodup) :
    (choice alternatives).Canonical (· ∈ alternatives) := by
  intro bytes x rest h
  obtain ⟨⟨index, behind⟩, hindex, hfound⟩ := bind_eq_ok_iff.1 h
  obtain ⟨-, rfl⟩ := canonical_natural 4 _ _ _ hindex
  dsimp only at hfound
  split at hfound
  · next hget =>
    cases hfound
    obtain ⟨hbound, rfl⟩ := List.getElem?_eq_some_iff.1 hget
    refine ⟨List.getElem_mem hbound, ?_⟩
    simp only [choice, natural, hnodup.idxOf_getElem]
  · cases hfound

/-! ## How long reading goes on -/

/-- Reading `n` values comes to `result` after so many of them have been begun: those that are read and the
one that is not, if there is one. -/
inductive ReadsIn (f : Format α) :
    Nat → Nat → Bytes → Except Record.Fault (List α × Bytes) → Prop
  /-- Nothing is left to read. -/
  | done {bytes : Bytes} : f.ReadsIn 0 0 bytes (.ok ([], bytes))
  /-- The next value cannot be read. -/
  | fault {n : Nat} {bytes : Bytes} {e : Record.Fault} (h : f.read bytes = .error e) :
    f.ReadsIn 1 (n + 1) bytes (.error e)
  /-- The next value is read, and so are the others or not. -/
  | more {begun n : Nat} {bytes rest : Bytes} {x : α} {result : Except Record.Fault (List α × Bytes)}
    (h : f.read bytes = .ok (x, rest)) (others : f.ReadsIn begun n rest result) :
    f.ReadsIn (begun + 1) (n + 1) bytes (result.map fun (xs, rest) => (x :: xs, rest))

/-- A value that cannot be read ends the reading. -/
theorem readMany_of_error {f : Format α} {bytes : Bytes} {e : Record.Fault} (h : f.read bytes = .error e)
    (n : Nat) : f.readMany (n + 1) bytes = .error e := by
  rw [Format.readMany, h]
  rfl

/-- A value that is read goes in front of the others. -/
theorem readMany_of_ok {f : Format α} {bytes rest : Bytes} {x : α} (h : f.read bytes = .ok (x, rest))
    (n : Nat) :
    f.readMany (n + 1) bytes = (f.readMany n rest).map fun (xs, rest) => (x :: xs, rest) := by
  simp only [Format.readMany, h, bind, Except.bind]
  cases f.readMany n rest <;> rfl

/-- Where every value takes up some bytes, no more of them are begun than there are bytes, and one. -/
theorem Canonical.exists_readsIn {f : Format α} {fits : α → Prop} (hf : f.Canonical fits)
    (hwrite : ∀ x, f.write x ≠ []) (n : Nat) (bytes : Bytes) :
    ∃ begun, begun ≤ bytes.length + 1 ∧ f.ReadsIn begun n bytes (f.readMany n bytes) := by
  induction n generalizing bytes with
  | zero => exact ⟨0, Nat.zero_le _, .done⟩
  | succ n ih =>
    cases hread : f.read bytes with
    | error e => exact ⟨1, Nat.le_add_left _ _, readMany_of_error hread n ▸ .fault hread⟩
    | ok found =>
      obtain ⟨x, rest⟩ := found
      obtain ⟨begun, hbegun, hothers⟩ := ih rest
      refine ⟨begun + 1, ?_, readMany_of_ok hread n ▸ .more hread hothers⟩
      -- what is left is shorter by the bytes of this value
      have hpos : 0 < (f.write x).length := List.length_pos_iff.2 (hwrite x)
      have hlen := congrArg List.length (hf _ _ _ hread).2
      rw [List.length_append] at hlen
      omega

end Format

/-! ## Tables, rows and counters -/

/-- A column is read where it stands. -/
theorem Column.canonical : Column.format.Canonical fun c => Text.Fits c.name := by
  intro bytes c rest h
  have htype : (Format.choice [ColumnType.int, ColumnType.text]).Canonical
      (· ∈ [ColumnType.int, ColumnType.text]) := Format.canonical_choice (by decide)
  obtain ⟨⟨hname, -⟩, hbytes⟩ := (Format.canonical_text.pair htype).imap (fun _ => rfl) _ _ _ h
  exact ⟨hname, hbytes⟩

/-- A table definition is read where it stands. -/
theorem Table.canonical : Table.format.Canonical Table.Fits :=
  (Format.canonical_text.pair Column.canonical.list).imap fun _ => rfl

/-- A row is read where it stands. -/
theorem Row.canonical : Row.format.Canonical Row.Fits :=
  Format.canonical_block.optional.list

/-- A counter is read where it stands. -/
theorem rowCounter_canonical : rowCounter.Canonical (· < 2 ^ 64) := Format.canonical_natural 8

/-- A column takes up the bytes of the length of its name, and more. -/
theorem Column.write_ne_nil (c : Column) : Column.format.write c ≠ [] := by
  intro h
  have hlen := congrArg List.length h
  simp [Column.format, Format.imap, Format.pair, Format.text, Format.block, Format.count,
    Format.natural] at hlen

/-- A slot takes up the byte of its tag. -/
theorem Format.optional_write_ne_nil {α : Type} (f : Format α) (o : Option α) :
    f.optional.write o ≠ [] := by
  cases o <;> exact List.cons_ne_nil _ _

/-! ## Stored records -/

namespace TableStore

/-- Whether a stored record is read as the value that it begins with, and is damaged if it begins with
none. -/
structure ReadsExactly {α : Type} (f : Format α) (fits : α → Prop) : Prop where
  eq_ok_iff : ∀ bytes x, readRecord f bytes = .ok x ↔ fits x ∧ f.write x <+: bytes
  eq_error_iff : ∀ bytes, (∃ fault, readRecord f bytes = .error (.damagedRecord fault)) ↔
    ∀ x, fits x → ¬ f.write x <+: bytes

/-- A record is read if its format reads it at the front. -/
theorem readRecord_eq_ok_iff {α : Type} {f : Format α} {bytes : Bytes} {x : α} :
    readRecord f bytes = .ok x ↔ ∃ rest, f.read bytes = .ok (x, rest) := by
  unfold readRecord Format.readFront
  cases f.read bytes with
  | error e =>
    constructor
    · exact nofun
    · rintro ⟨_, ⟨⟩⟩
  | ok found =>
    constructor
    · rintro ⟨⟩
      exact ⟨found.2, rfl⟩
    · rintro ⟨_, ⟨⟩⟩
      rfl

/-- A record is read or damaged. -/
theorem readRecord_cases {α : Type} (f : Format α) (bytes : Bytes) :
    (∃ x, readRecord f bytes = .ok x) ∨ ∃ fault, readRecord f bytes = .error (.damagedRecord fault) := by
  unfold readRecord Format.readFront
  cases f.read bytes with
  | error e => exact .inr ⟨e, rfl⟩
  | ok found => exact .inl ⟨found.1, rfl⟩

/-- Records are read exactly if their format reads back what it wrote and nothing else. -/
theorem ReadsExactly.of {α : Type} {f : Format α} {fits : α → Prop} (hback : f.ReadsBack fits)
    (hown : f.Canonical fits) : ReadsExactly f fits := by
  have hok : ∀ bytes x, readRecord f bytes = .ok x ↔ fits x ∧ f.write x <+: bytes := by
    intro bytes x
    rw [readRecord_eq_ok_iff]
    constructor
    · rintro ⟨rest, hread⟩
      obtain ⟨hx, rfl⟩ := hown _ _ _ hread
      exact ⟨hx, List.prefix_append _ _⟩
    · rintro ⟨hx, rest, rfl⟩
      exact ⟨rest, hback x rest hx⟩
  refine ⟨hok, fun bytes => ?_⟩
  constructor
  · rintro ⟨fault, hfault⟩ x hx hfront
    rw [(hok bytes x).2 ⟨hx, hfront⟩] at hfault
    cases hfault
  · intro hnone
    rcases readRecord_cases f bytes with ⟨x, hx⟩ | hfault
    · obtain ⟨hfits, hfront⟩ := (hok bytes x).1 hx
      exact absurd hfront (hnone x hfits)
    · exact hfault

/-- A stored table, row or counter is read as the value whose bytes it begins with, whatever follows them,
and every other byte string is damaged. Whatever count it declares, no more columns or slots are begun than
there are bytes, and one. -/
theorem readRecord_exact :
    ReadsExactly Table.format Table.Fits ∧ ReadsExactly Row.format Row.Fits ∧
    ReadsExactly rowCounter (· < 2 ^ 64) ∧
    (∀ n bytes, ∃ begun, begun ≤ bytes.length + 1 ∧
      Column.format.ReadsIn begun n bytes (Column.format.readMany n bytes)) ∧
    ∀ n bytes, ∃ begun, begun ≤ bytes.length + 1 ∧
      Format.block.optional.ReadsIn begun n bytes (Format.block.optional.readMany n bytes) :=
  ⟨.of Table.readsBack Table.canonical, .of Row.readsBack Row.canonical,
    .of rowCounter_readsBack rowCounter_canonical,
    Column.canonical.exists_readsIn Column.write_ne_nil,
    Format.canonical_block.optional.exists_readsIn (Format.optional_write_ne_nil _)⟩

-- as many slots as can be declared, with three bytes behind their count
example : readRecord Row.format (List.replicate 8 255 ++ [0, 1, 2]) =
    .error (.damagedRecord .endOfInput) := rfl

end TableStore

end SqlStore
