import SqlStore.Bytes

/-! # An ordered store of byte strings

Keys and values are byte strings; keys are kept in ascending lexicographic order.

* **`ByteStore`** — the entries, with the order as part of the type;
* **`get?`**, **`set`**, **`erase`** — one entry at a time, with `get?_set` and `get?_erase` saying
  what each leaves in the store;
* **`Bound`** and **`within`** — the entries whose keys lie between two bounds, in order;
* **`scan`** — the same for callers that choose both bounds. Once anything has been stored, bounds
  that are in the wrong order, or that exclude the one key they share, are a fault;
* **`scanPrefix`** and **`erasePrefix`** — find and remove the entries whose keys begin with a given
  byte string, as a range of keys; `mem_prefixRange_iff` says that it is the right range. -/

namespace SqlStore

/-! ## Ordered entries -/

/-- Whether keys strictly ascend along the entries. -/
def Ascending (entries : List (Bytes × Bytes)) : Prop :=
  entries.Pairwise fun a b => a.1 < b.1

/-- The entries with the value of `key` set to `value`, in order. -/
def insertEntry (key value : Bytes) : List (Bytes × Bytes) → List (Bytes × Bytes)
  | [] => [(key, value)]
  | (k, v) :: rest =>
    if k < key then (k, v) :: insertEntry key value rest
    else if k = key then (key, value) :: rest
    else (key, value) :: (k, v) :: rest

/-- Inserting brings in no other entry. -/
theorem mem_insertEntry {key value : Bytes} {e : Bytes × Bytes} {entries : List (Bytes × Bytes)}
    (h : e ∈ insertEntry key value entries) : e = (key, value) ∨ e ∈ entries := by
  induction entries with
  | nil => simpa [insertEntry] using h
  | cons first rest ih =>
    obtain ⟨k, v⟩ := first
    rw [insertEntry] at h
    split at h
    · rcases List.mem_cons.1 h with h | h
      · exact .inr (h ▸ List.mem_cons_self)
      · exact (ih h).imp_right (List.mem_cons_of_mem _)
    · split at h
      · rcases List.mem_cons.1 h with h | h
        · exact .inl h
        · exact .inr (List.mem_cons_of_mem _ h)
      · simpa using h

/-- Inserting keeps the order. -/
theorem Ascending.insertEntry {entries : List (Bytes × Bytes)} (h : Ascending entries)
    (key value : Bytes) : Ascending (insertEntry key value entries) := by
  induction entries with
  | nil => exact List.pairwise_singleton _ _
  | cons first rest ih =>
    obtain ⟨k, v⟩ := first
    obtain ⟨below, order⟩ := List.pairwise_cons.1 h
    rw [SqlStore.insertEntry]
    split
    · next hlt =>
      refine List.pairwise_cons.2 ⟨fun e he => ?_, ih order⟩
      rcases mem_insertEntry he with rfl | he
      · exact hlt
      · exact below e he
    · next hge =>
      split
      · next heq =>
        subst heq
        exact List.pairwise_cons.2 ⟨below, order⟩
      -- `key` is in front of `k`, and so of everything behind `k`
      · next hne =>
        have hlt : key < k := by
          rcases Decidable.em (key < k) with hlt | hnlt
          · exact hlt
          · exact absurd (List.le_antisymm hnlt hge) hne
        refine List.pairwise_cons.2 ⟨fun e he => ?_, h⟩
        rcases List.mem_cons.1 he with rfl | he
        · exact hlt
        · exact List.lt_trans hlt (below e he)

/-- The value of `key` among the entries. -/
def lookupEntry (key : Bytes) : List (Bytes × Bytes) → Option Bytes
  | [] => none
  | (k, v) :: rest => if key = k then some v else lookupEntry key rest

/-- What is looked up after an insertion. -/
theorem lookupEntry_insertEntry (key value other : Bytes) (entries : List (Bytes × Bytes)) :
    lookupEntry other (insertEntry key value entries)
      = if other = key then some value else lookupEntry other entries := by
  induction entries with
  | nil => rfl
  | cons first rest ih =>
    obtain ⟨k, v⟩ := first
    rw [insertEntry]
    split
    · next hlt =>
      have hne : k ≠ key := fun h => List.lt_irrefl key (h ▸ hlt)
      simp only [lookupEntry, ih]
      by_cases hother : other = key
      · subst hother
        simp [Ne.symm hne]
      · simp [hother]
    · split
      · next heq =>
        subst heq
        simp only [lookupEntry]
        split <;> rfl
      · rfl

/-- What is looked up after the entries of a key are removed. -/
theorem lookupEntry_filter (key other : Bytes) (entries : List (Bytes × Bytes)) :
    lookupEntry other (entries.filter (·.1 ≠ key))
      = if other = key then none else lookupEntry other entries := by
  induction entries with
  | nil => simp [lookupEntry]
  | cons first rest ih =>
    obtain ⟨k, v⟩ := first
    by_cases hk : k = key
    · subst hk
      rw [List.filter_cons_of_neg (by simp), ih]
      by_cases hother : other = k <;> simp [lookupEntry, hother]
    · rw [List.filter_cons_of_pos (by simpa using hk), lookupEntry, lookupEntry, ih]
      by_cases hother : other = key
      · subst hother
        simp [Ne.symm hk]
      · simp [hother]

/-! ## The store -/

/-- A store of byte strings in the order of their keys. It remembers whether anything was ever
stored, also after everything has been erased. -/
structure ByteStore where
  entries : List (Bytes × Bytes) := []
  everStored : Bool := false
  ascending : Ascending entries := by exact List.Pairwise.nil
  entries_eq_nil : everStored = false → entries = [] := by simp

namespace ByteStore

/-- The store in which nothing was ever stored. -/
def empty : ByteStore := {}

/-- Stores are equal if they hold the same entries and agree on whether anything was stored. -/
theorem ext_of_entries {s t : ByteStore} (hentries : s.entries = t.entries)
    (hever : s.everStored = t.everStored) : s = t := by
  cases s
  cases t
  simp only at hentries hever
  subst hentries hever
  rfl

/-- The value stored under `key`. -/
def get? (s : ByteStore) (key : Bytes) : Option Bytes := lookupEntry key s.entries

/-- Stores `value` under `key`, in place of what was stored there. -/
def set (s : ByteStore) (key value : Bytes) : ByteStore where
  entries := insertEntry key value s.entries
  everStored := true
  ascending := s.ascending.insertEntry key value

/-- Removes what is stored under `key`, if anything is. -/
def erase (s : ByteStore) (key : Bytes) : ByteStore where
  entries := s.entries.filter (·.1 ≠ key)
  everStored := s.everStored
  ascending := List.Pairwise.filter _ s.ascending
  entries_eq_nil h := by rw [s.entries_eq_nil h]; rfl

/-- Nothing is stored in the empty store. -/
@[simp] theorem get?_empty (key : Bytes) : empty.get? key = none := rfl

/-- Setting a key changes that key only. -/
theorem get?_set (s : ByteStore) (key value other : Bytes) :
    (s.set key value).get? other = if other = key then some value else s.get? other :=
  lookupEntry_insertEntry key value other s.entries

/-- Erasing a key changes that key only. -/
theorem get?_erase (s : ByteStore) (key other : Bytes) :
    (s.erase key).get? other = if other = key then none else s.get? other :=
  lookupEntry_filter key other s.entries

/-! ## Ranges of keys -/

/-- An end of a range of keys. -/
inductive Bound where
  | unbounded
  | included (key : Bytes)
  | excluded (key : Bytes)
  deriving DecidableEq, Repr

/-- Whether a key lies within a lower bound. -/
def Bound.below : Bound → Bytes → Bool
  | .unbounded, _ => true
  | .included low, key => low ≤ key
  | .excluded low, key => low < key

/-- Whether a key lies within an upper bound. -/
def Bound.above : Bound → Bytes → Bool
  | .unbounded, _ => true
  | .included high, key => key ≤ high
  | .excluded high, key => key < high

/-- The entries whose keys lie between two bounds, in ascending order. -/
def within (s : ByteStore) (lower upper : Bound) : List (Bytes × Bytes) :=
  s.entries.filter fun (key, _) => lower.below key && upper.above key

/-- How two bounds fail to make a range. -/
inductive RangeFault where
  /-- The lower bound's key is greater than the upper bound's. -/
  | inverted
  /-- Both bounds exclude the same key. -/
  | equalExcluded
  deriving DecidableEq, Repr

/-- The text of a fault. -/
def RangeFault.message : RangeFault → String
  | .inverted => "range start is greater than range end in BTreeMap"
  | .equalExcluded => "range start and end are equal and excluded in BTreeMap"

/-- The key of a bound. -/
def Bound.key? : Bound → Option Bytes
  | .unbounded => none
  | .included key => some key
  | .excluded key => some key

/-- What is wrong with a pair of bounds, if anything is. -/
def rangeFault? (lower upper : Bound) : Option RangeFault :=
  match lower, upper with
  | .excluded low, .excluded high =>
    if low = high then some .equalExcluded else if high < low then some .inverted else none
  | lower, upper =>
    match lower.key?, upper.key? with
    | some low, some high => if high < low then some .inverted else none
    | _, _ => none

/-- The entries between two bounds in ascending order. A store in which nothing was ever stored has
no entries whatever the bounds are. -/
def scan (s : ByteStore) (lower upper : Bound) : Except RangeFault (List (Bytes × Bytes)) :=
  if s.everStored then
    match rangeFault? lower upper with
    | some fault => .error fault
    | none => .ok (s.within lower upper)
  else .ok []

/-! ## Keys with a common beginning -/

/-- The least byte string above everything that begins with `start`: the last byte that can be
raised is, and what follows it is dropped. Nothing lies above bytes that are all `0xff`. -/
def successor? : Bytes → Option Bytes
  | [] => none
  | b :: rest =>
    match successor? rest with
    | some next => some (b :: next)
    | none => if b = 0xff then none else some [b + 1]

/-- The upper bound of the keys that begin with `start`. -/
def prefixEnd (start : Bytes) : Bound :=
  match successor? start with
  | some next => .excluded next
  | none => .unbounded

/-- The entries whose keys begin with `start`, in ascending order. -/
def scanPrefix (s : ByteStore) (start : Bytes) : List (Bytes × Bytes) :=
  s.within (.included start) (prefixEnd start)

/-- Removes the entries whose keys begin with `start`. -/
def erasePrefix (s : ByteStore) (start : Bytes) : ByteStore where
  entries := s.entries.filter fun e =>
    !((Bound.included start).below e.1 && (prefixEnd start).above e.1)
  everStored := s.everStored
  ascending := List.Pairwise.filter _ s.ascending
  entries_eq_nil h := by rw [s.entries_eq_nil h]; rfl

/-- When nothing beginning with `start` can be passed by raising its tail, its first byte is raised,
and what lies below the end of the range is what does not exceed that byte. -/
theorem above_prefixEnd_cons {b : UInt8} {start : Bytes} (h : successor? start = none)
    (k : UInt8) (key : Bytes) : (prefixEnd (b :: start)).above (k :: key) = decide (k ≤ b) := by
  have hb : b.toNat < 256 := b.toNat_lt
  have hk : k.toNat < 256 := k.toNat_lt
  rw [prefixEnd, successor?, h]
  by_cases hmax : b = 0xff
  · subst hmax
    have : k ≤ (255 : UInt8) := UInt8.le_iff_toNat_le.2 (Nat.le_of_lt_succ hk)
    simp [Bound.above, this]
  · have hmax' : b.toNat ≠ 255 := fun h => hmax (UInt8.toNat_inj.1 (by simpa using h))
    have hnext : (b + 1).toNat = b.toNat + 1 := by
      rw [UInt8.toNat_add]
      simp
      omega
    simp only [if_neg hmax, Bound.above, List.cons_lt_cons_iff, List.not_lt_nil, and_false, or_false,
      decide_eq_decide, UInt8.lt_iff_toNat_lt, UInt8.le_iff_toNat_le, hnext]
    omega

/-- The range of the keys that begin with `start` holds these keys and no others. -/
theorem mem_prefixRange_iff (start key : Bytes) :
    (Bound.included start).below key = true ∧ (prefixEnd start).above key = true
      ↔ start <+: key := by
  -- induction on the prefix: either the first bytes agree, or the key is out of the range at once
  induction start generalizing key with
  | nil => simp [Bound.below, prefixEnd, successor?, Bound.above]
  | cons b start ih =>
    cases key with
    | nil => simp [Bound.below]
    | cons k key =>
      rw [List.cons_prefix_cons, ← ih key]
      cases h : successor? start with
      | none =>
        -- the rest of the prefix cannot be raised, so its first byte is
        have hend : (prefixEnd start).above key = true := by simp [prefixEnd, h, Bound.above]
        rw [above_prefixEnd_cons h]
        simp only [Bound.below, hend, decide_eq_true_eq, List.cons_le_cons_iff, UInt8.lt_iff_toNat_lt,
          UInt8.le_iff_toNat_le, ← UInt8.toNat_inj]
        constructor
        · rintro ⟨hlow | ⟨heq, hrest⟩, hhigh⟩
          · omega
          · exact ⟨heq, hrest, trivial⟩
        · rintro ⟨heq, hrest, -⟩
          exact ⟨.inr ⟨heq, hrest⟩, by omega⟩
      | some next =>
        -- the rest of the prefix is raised behind the same first byte
        simp only [Bound.below, prefixEnd, successor?, h, Bound.above, decide_eq_true_eq,
          List.cons_le_cons_iff, List.cons_lt_cons_iff, UInt8.lt_iff_toNat_lt, ← UInt8.toNat_inj]
        constructor
        · rintro ⟨hlow | ⟨heq, hrest⟩, hhigh | ⟨heq', hhigh⟩⟩
          · omega
          · omega
          · omega
          · exact ⟨heq, hrest, hhigh⟩
        · rintro ⟨heq, hrest, hhigh⟩
          exact ⟨.inr ⟨heq, hrest⟩, .inr ⟨heq.symm, hhigh⟩⟩

/-- The entries found by prefix are those whose keys have it. -/
theorem scanPrefix_eq_filter (s : ByteStore) (start : Bytes) :
    s.scanPrefix start = s.entries.filter fun e => start.isPrefixOf e.1 := by
  refine List.filter_congr fun e _ => ?_
  rw [Bool.eq_iff_iff, Bool.and_eq_true, mem_prefixRange_iff, List.isPrefixOf_iff_prefix]

/-- Erasing by prefix keeps the entries whose keys do not have it. -/
theorem entries_erasePrefix (s : ByteStore) (start : Bytes) :
    (s.erasePrefix start).entries = s.entries.filter fun e => !start.isPrefixOf e.1 := by
  refine List.filter_congr fun e _ => congrArg _ ?_
  rw [Bool.eq_iff_iff, Bool.and_eq_true, mem_prefixRange_iff, List.isPrefixOf_iff_prefix]

end ByteStore

end SqlStore
