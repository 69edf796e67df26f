import SqlStore.Proofs.ByteStore.Contents
import SqlStore.Proofs.Table.Keys
import SqlStore.Table.Store
import Mathlib.Logic.Function.Basic

/-! # Records under keys

What a byte store holds, seen through the keys of a table store:

* **`ByteStore.Holds b records`** — `b` holds the records that the map gives, each under the bytes of
  its key, and nothing else;
* **`Holds.set`**, **`Holds.erase`**, **`Holds.eraseRows`** — what writing does to the map;
* **`Holds.get?_toBytes`**, **`Holds.scanRows`** — what reading gives;
* **`Holds.eq_of_holds`** — the map determines the entries. -/

namespace SqlStore

/-- A byte store holds a map of records: what is under the bytes of a key is what the map has for the
key, and there is nothing under other bytes. -/
structure ByteStore.Holds (b : ByteStore) (records : Key → Option Bytes) : Prop where
  /-- The keys of all records are written in full. -/
  fits : ∀ {key value}, records key = some value → key.Fits
  /-- A value is stored exactly if it is a record. -/
  stored_iff : ∀ {bytes value},
    b.get? bytes = some value ↔ ∃ key, key.toBytes = bytes ∧ records key = some value

namespace ByteStore.Holds

variable {b : ByteStore} {records : Key → Option Bytes}

/-- The empty store holds no records. -/
theorem empty : ByteStore.empty.Holds fun _ => none where
  fits h := by cases h
  stored_iff := by simp

/-! ## Reading -/

/-- What is stored under a key is its record. -/
theorem get?_toBytes (h : b.Holds records) (key : Key) (hkey : key.Fits) :
    b.get? key.toBytes = records key := by
  ext value
  rw [h.stored_iff]
  constructor
  · rintro ⟨other, hbytes, hother⟩
    rwa [← Key.toBytes_injective (h.fits hother) hkey hbytes]
  · intro hvalue
    exact ⟨key, rfl, hvalue⟩

/-- The rows of a table are found in their order, each under its number. -/
theorem scanRows (h : b.Holds records) {name : String} (hname : Text.Fits name)
    {rows : List Bytes} (hlen : rows.length < 2 ^ 64)
    (hrows : ∀ number, records (.row name number) = rows[number]?) :
    b.scanPrefix (Key.rows name)
      = rows.mapIdx fun number row => ((Key.row name number).toBytes, row) := by
  apply ByteStore.scanPrefix_eq
  · -- the keys ascend with the numbers
    rw [Ascending, List.pairwise_iff_getElem]
    intro m n hm hn hlt
    rw [List.length_mapIdx] at hm hn
    simp only [List.getElem_mapIdx]
    exact Key.row_lt_row name (Nat.lt_trans hn hlen) hlt
  · intro bytes value
    rw [h.stored_iff, List.mem_mapIdx]
    constructor
    · rintro ⟨number, hnumber, heq⟩
      obtain ⟨rfl, rfl⟩ := Prod.mk.inj heq
      refine ⟨List.prefix_append _ _, .row name number, rfl, ?_⟩
      rw [hrows, List.getElem?_eq_getElem hnumber]
    · rintro ⟨hbegins, key, rfl, hrecord⟩
      -- a key that begins as the rows do is that of a row of this table
      have hrow := (Key.rows_prefix_iff hname (h.fits hrecord)).1 hbegins
      cases key with
      | table other => exact hrow.elim
      | row other number =>
        obtain rfl : other = name := hrow
        rw [hrows, List.getElem?_eq_some_iff] at hrecord
        obtain ⟨hnumber, hvalue⟩ := hrecord
        exact ⟨number, hnumber, by rw [hvalue]⟩
      | nextRow other => exact hrow.elim

/-- Stores that hold the same records have the same entries. -/
theorem eq_of_holds {other : ByteStore} (h : b.Holds records) (h' : other.Holds records) :
    b.entries = other.entries := by
  refine b.ascending.ext other.ascending fun ⟨bytes, value⟩ => ?_
  rw [← ByteStore.get?_eq_some_iff, ← ByteStore.get?_eq_some_iff, h.stored_iff, h'.stored_iff]

/-! ## Writing -/

/-- Setting the bytes of a key sets its record. -/
theorem set (h : b.Holds records) (key : Key) (hkey : key.Fits) (value : Bytes) :
    (b.set key.toBytes value).Holds (Function.update records key (some value)) where
  fits {other _} hother := by
    by_cases heq : other = key
    · exact heq ▸ hkey
    · rw [Function.update_of_ne heq] at hother
      exact h.fits hother
  stored_iff {bytes found} := by
    rw [ByteStore.get?_set]
    by_cases hbytes : bytes = key.toBytes
    · subst hbytes
      rw [if_pos rfl]
      constructor
      · intro hfound
        exact ⟨key, rfl, by rw [Function.update_self, hfound]⟩
      · rintro ⟨other, hother, hrecord⟩
        by_cases heq : other = key
        · rwa [heq, Function.update_self] at hrecord
        · -- another key of the same bytes would have to fit, and then it is this one
          rw [Function.update_of_ne heq] at hrecord
          exact absurd (Key.toBytes_injective (h.fits hrecord) hkey hother) heq
    · rw [if_neg hbytes, h.stored_iff]
      refine exists_congr fun other => and_congr_right fun hother => ?_
      have hne : other ≠ key := fun heq => hbytes (by rw [← hother, heq])
      rw [Function.update_of_ne hne]

/-- Erasing entries erases the records of the keys whose bytes they are under. -/
theorem eraseIf (h : b.Holds records) {after : ByteStore} {gone : Bytes → Prop}
    [DecidablePred gone] {goneKey : Key → Prop} [DecidablePred goneKey]
    (hafter : ∀ bytes, after.get? bytes = if gone bytes then none else b.get? bytes)
    (hgone : ∀ {key : Key}, key.Fits → (gone key.toBytes ↔ goneKey key)) :
    after.Holds fun key => if goneKey key then none else records key where
  fits {key _} hrecord := by
    by_cases hkey : goneKey key
    · simp [hkey] at hrecord
    · rw [if_neg hkey] at hrecord
      exact h.fits hrecord
  stored_iff {bytes value} := by
    rw [hafter]
    constructor
    · intro hvalue
      by_cases hbytes : gone bytes
      · simp [hbytes] at hvalue
      · rw [if_neg hbytes, h.stored_iff] at hvalue
        obtain ⟨key, rfl, hrecord⟩ := hvalue
        exact ⟨key, rfl, by rw [if_neg (mt (hgone (h.fits hrecord)).2 hbytes), hrecord]⟩
    · rintro ⟨key, rfl, hrecord⟩
      by_cases hkey : goneKey key
      · simp [hkey] at hrecord
      · rw [if_neg hkey] at hrecord
        have hfits : key.Fits := h.fits hrecord
        rw [if_neg (mt (hgone hfits).1 hkey), h.get?_toBytes key hfits, hrecord]

/-- Erasing the bytes of a key erases its record. -/
theorem erase (h : b.Holds records) (key : Key) (hkey : key.Fits) :
    (b.erase key.toBytes).Holds (Function.update records key none) := by
  have herased : (b.erase key.toBytes).Holds fun other => if other = key then none else records other :=
    h.eraseIf (b.get?_erase key.toBytes) fun hother =>
      ⟨Key.toBytes_injective hother hkey, congrArg Key.toBytes⟩
  convert herased using 1
  funext other
  rw [Function.update_apply]

/-- Erasing by the prefix of a table's rows erases the records of these rows. -/
theorem eraseRows (h : b.Holds records) {name : String} (hname : Text.Fits name) :
    (b.erasePrefix (Key.rows name)).Holds fun key =>
      if key.IsRowOf name then none else records key :=
  h.eraseIf (b.get?_erasePrefix (Key.rows name)) fun hkey => Key.rows_prefix_iff hname hkey

end ByteStore.Holds

end SqlStore
