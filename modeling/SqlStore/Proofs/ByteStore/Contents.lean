import SqlStore.ByteStore
import Mathlib.Data.List.Sort

/-! # The contents of an ordered store

Entries whose keys strictly ascend are determined by what can be looked up in them:

* **`lookupEntry_eq_some_iff`** and **`get?_eq_some_iff`** — looking up is membership;
* **`Ascending.ext`** — ascending entries with the same members are the same list;
* **`get?_erasePrefix`** — erasing by prefix changes the keys with that prefix only;
* **`scanPrefix_eq`** — to find by prefix is to list, in ascending order, what can be looked up under
  keys with that prefix. -/

namespace SqlStore

/-- Looking up a key finds the value that stands beside it. -/
theorem lookupEntry_eq_some_iff {entries : List (Bytes × Bytes)} (h : Ascending entries)
    (key value : Bytes) : lookupEntry key entries = some value ↔ (key, value) ∈ entries := by
  induction entries with
  | nil => simp [lookupEntry]
  | cons first rest ih =>
    obtain ⟨k, v⟩ := first
    obtain ⟨below, order⟩ := List.pairwise_cons.1 h
    rw [lookupEntry, List.mem_cons, Prod.mk.injEq]
    by_cases hk : key = k
    · subst hk
      -- no later entry has this key, since the keys after it are greater
      have hrest : (key, value) ∉ rest := fun hmem => List.lt_irrefl key (below _ hmem)
      simp [hrest, eq_comm]
    · rw [if_neg hk, ih order]
      simp [hk]

/-- No entry stands twice among ascending ones. -/
theorem Ascending.nodup {entries : List (Bytes × Bytes)} (h : Ascending entries) :
    entries.Nodup := by
  rw [List.nodup_iff_pairwise_ne]
  apply List.Pairwise.imp _ h
  intro a b hlt heq
  subst heq
  exact List.lt_irrefl _ hlt

/-- Ascending entries with the same members are the same. -/
theorem Ascending.ext {entries others : List (Bytes × Bytes)} (h : Ascending entries)
    (h' : Ascending others) (hmem : ∀ e, e ∈ entries ↔ e ∈ others) : entries = others := by
  have hperm : entries.Perm others := (List.perm_ext_iff_of_nodup h.nodup h'.nodup).2 hmem
  exact hperm.eq_of_pairwise
    (fun a b _ _ hab hba => absurd (List.lt_trans hab hba) (List.lt_irrefl _)) h h'

namespace ByteStore

/-- A value is stored under a key if the two are an entry. -/
theorem get?_eq_some_iff (s : ByteStore) (key value : Bytes) :
    s.get? key = some value ↔ (key, value) ∈ s.entries :=
  lookupEntry_eq_some_iff s.ascending key value

/-- Erasing by prefix changes the keys with that prefix only. -/
theorem get?_erasePrefix (s : ByteStore) (start key : Bytes) :
    (s.erasePrefix start).get? key = if start <+: key then none else s.get? key := by
  ext value
  rw [get?_eq_some_iff, entries_erasePrefix, List.mem_filter, ← get?_eq_some_iff]
  by_cases h : start <+: key
  · simp [h]
  · have hpre : start.isPrefixOf key = false := by
      rw [Bool.eq_false_iff, Ne, List.isPrefixOf_iff_prefix]
      exact h
    simp [h, hpre]

/-- The entries found by prefix are any ascending list of what is stored under the keys with that
prefix. -/
theorem scanPrefix_eq (s : ByteStore) {start : Bytes} {entries : List (Bytes × Bytes)}
    (order : Ascending entries)
    (hmem : ∀ key value, (key, value) ∈ entries ↔ start <+: key ∧ s.get? key = some value) :
    s.scanPrefix start = entries := by
  rw [scanPrefix_eq_filter]
  -- both lists ascend, so it is enough that they have the same members
  refine Ascending.ext (List.Pairwise.filter _ s.ascending) order fun e => ?_
  obtain ⟨key, value⟩ := e
  rw [List.mem_filter, hmem, get?_eq_some_iff, List.isPrefixOf_iff_prefix, and_comm]

end ByteStore

end SqlStore
