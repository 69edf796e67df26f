import SqlStore.Proofs.ByteStore.Contents
import Mathlib.Data.List.Induction

/-! # What an ordered store answers after any history

A history is a list of settings and erasures, carried out on the store in which nothing was ever
stored. What may be read after it is said from the history alone:

* **`LastSet`** — the value that was last set under a key, when the key has not been erased since;
* **`Bound.Exceeds`**, **`Bound.ExcludesSame`** and **`Between`** — the pairs of bounds that make no
  range, and the keys that lie within a pair of bounds;
* **`get?_afterAll_eq_some_iff`** and **`everStored_afterAll_iff`** — the store holds what was last set,
  and remembers whether anything was;
* **`scan_eq_error_iff`** and **`scan_eq_ok_iff`** — the faults of a scan, and the entries it finds;
* **`RangeEnd`** — where the range of a prefix ends, by the bytes it is made of. `rangeEnd_prefixEnd` says
  that every prefix has such an end, and `scan_prefixEnd` that to scan its range never fails;
* **`reads_afterAll`** — what `get?`, `scan` and `scanPrefix` answer after any history. -/

namespace SqlStore

namespace ByteStore

/-! ## Histories -/

/-- A change of a store. -/
inductive Change where
  | set (key value : Bytes)
  | erase (key : Bytes)
  deriving DecidableEq, Repr

/-- The key whose entry a change replaces or removes. -/
def Change.key : Change → Bytes
  | .set key _ => key
  | .erase key => key

/-- What a change leaves under its key. -/
def Change.value? : Change → Option Bytes
  | .set _ value => some value
  | .erase _ => none

/-- The store after a change. -/
def apply (s : ByteStore) : Change → ByteStore
  | .set key value => s.set key value
  | .erase key => s.erase key

/-- The store after the changes of a history. -/
def afterAll (s : ByteStore) (changes : List Change) : ByteStore := changes.foldl apply s

/-- Whether `value` is what a history last set under `key`, nothing being done to that key since. -/
def LastSet (changes : List Change) (key value : Bytes) : Prop :=
  ∃ before since, changes = before ++ .set key value :: since ∧ ∀ change ∈ since, change.key ≠ key

/-- Whether a history sets anything at all. -/
def SetsAny (changes : List Change) : Prop := ∃ key value, .set key value ∈ changes

/-- A change that leaves a value under its key is the setting of that value. -/
theorem Change.eq_set {change : Change} {value : Bytes} (h : change.value? = some value) :
    change = .set change.key value := by
  cases change with
  | set k other => simpa [value?, Change.key] using h
  | erase k => simp [value?] at h

/-- What was last set, when one more change has been made: the change decides for its own key, and
for no other. -/
theorem lastSet_append_singleton_iff {changes : List Change} {change : Change}
    {key value : Bytes} :
    LastSet (changes ++ [change]) key value ↔
      if key = change.key then change.value? = some value else LastSet changes key value := by
  constructor
  · rintro ⟨before, since, heq, hsince⟩
    -- the change is the setting itself, or the last of those made since
    rcases List.eq_nil_or_concat since with rfl | ⟨init, last, rfl⟩
    · obtain ⟨-, rfl⟩ := List.append_singleton_inj.1 heq
      simp [Change.key, Change.value?]
    · rw [List.concat_eq_append] at heq hsince
      rw [← List.cons_append, ← List.append_assoc] at heq
      obtain ⟨rfl, rfl⟩ := List.append_singleton_inj.1 heq
      have hlast : change.key ≠ key := hsince change (by simp)
      rw [if_neg hlast.symm]
      exact ⟨before, init, rfl, fun c hc => hsince c (List.mem_append_left _ hc)⟩
  · intro h
    split at h
    · next hkey =>
      refine ⟨changes, [], ?_, nofun⟩
      rw [hkey, ← Change.eq_set h]
    · next hkey =>
      obtain ⟨before, since, rfl, hsince⟩ := h
      refine ⟨before, since ++ [change], by simp, fun c hc => ?_⟩
      rcases List.mem_append.1 hc with hc | hc
      · exact hsince c hc
      · rw [List.mem_singleton.1 hc]
        exact Ne.symm hkey

/-- A history with one more change sets something if the history or the change does. -/
theorem setsAny_append_singleton_iff {changes : List Change} {change : Change} :
    SetsAny (changes ++ [change]) ↔ SetsAny changes ∨ change.value?.isSome := by
  cases change <;> simp [SetsAny, Change.value?, exists_or]

/-! ## The store after a history -/

/-- A change decides what is stored under its key, and under no other. -/
theorem get?_apply (s : ByteStore) (change : Change) (key : Bytes) :
    (s.apply change).get? key = if key = change.key then change.value? else s.get? key := by
  cases change with
  | set key' value => exact get?_set s key' value key
  | erase key' => exact get?_erase s key' key

/-- A change makes the store remember that something was stored if it stores something, and never
makes it forget. -/
theorem everStored_apply (s : ByteStore) (change : Change) :
    (s.apply change).everStored = (s.everStored || change.value?.isSome) := by
  cases change <;> simp [apply, set, erase, Change.value?]

/-- The last change of a history is made to the store that those before it leave. -/
theorem afterAll_append_singleton (s : ByteStore) (changes : List Change) (change : Change) :
    s.afterAll (changes ++ [change]) = (s.afterAll changes).apply change := by
  simp [afterAll]

/-- What is stored under a key after a history is what the history last set there. -/
theorem get?_afterAll_eq_some_iff (changes : List Change) (key value : Bytes) :
    (empty.afterAll changes).get? key = some value ↔ LastSet changes key value := by
  induction changes using List.reverseRecOn with
  | nil => simp [afterAll, LastSet]
  | append_singleton changes change ih =>
    rw [afterAll_append_singleton, get?_apply, lastSet_append_singleton_iff]
    split
    · rfl
    · exact ih

/-- The store remembers that something was stored if the history sets anything. -/
theorem everStored_afterAll_iff (changes : List Change) :
    (empty.afterAll changes).everStored = true ↔ SetsAny changes := by
  induction changes using List.reverseRecOn with
  | nil => simp [afterAll, SetsAny, empty]
  | append_singleton changes change ih =>
    rw [afterAll_append_singleton, everStored_apply, Bool.or_eq_true, ih,
      setsAny_append_singleton_iff]

/-! ## Bounds -/

/-- Whether the key of a lower bound is greater than that of an upper one. -/
def Bound.Exceeds (lower upper : Bound) : Prop :=
  ∃ low ∈ lower.key?, ∃ high ∈ upper.key?, high < low

/-- Whether both bounds exclude one key. -/
def Bound.ExcludesSame (lower upper : Bound) : Prop :=
  ∃ key, lower = .excluded key ∧ upper = .excluded key

/-- Whether a key lies within a lower and an upper bound. -/
structure Between (lower upper : Bound) (key : Bytes) : Prop where
  from_low : ∀ low, lower = .included low → low ≤ key
  above_low : ∀ low, lower = .excluded low → low < key
  upto_high : ∀ high, upper = .included high → key ≤ high
  below_high : ∀ high, upper = .excluded high → key < high

/-- The test of a key against two bounds. -/
theorem below_above_iff {lower upper : Bound} {key : Bytes} :
    lower.below key = true ∧ upper.above key = true ↔ Between lower upper key := by
  constructor
  · rintro ⟨hlow, hhigh⟩
    constructor
    all_goals
      rintro bound rfl
      first | simpa [Bound.below] using hlow | simpa [Bound.above] using hhigh
  · intro h
    constructor
    · cases lower with
      | unbounded => rfl
      | included low => simpa [Bound.below] using h.from_low low rfl
      | excluded low => simpa [Bound.below] using h.above_low low rfl
    · cases upper with
      | unbounded => rfl
      | included high => simpa [Bound.above] using h.upto_high high rfl
      | excluded high => simpa [Bound.above] using h.below_high high rfl

/-- The fault of bounds that are in the wrong order. -/
theorem rangeFault?_eq_inverted_iff {lower upper : Bound} :
    rangeFault? lower upper = some .inverted ↔ lower.Exceeds upper := by
  cases lower <;> cases upper
  -- of two excluded keys, the same key is the other fault
  case excluded.excluded low high =>
    by_cases heq : low = high
    · simp [rangeFault?, Bound.Exceeds, Bound.key?, heq, List.lt_irrefl]
    · simp [rangeFault?, Bound.Exceeds, Bound.key?, heq]
  all_goals simp [rangeFault?, Bound.Exceeds, Bound.key?]

/-- The fault of bounds that exclude one key. -/
theorem rangeFault?_eq_equalExcluded_iff {lower upper : Bound} :
    rangeFault? lower upper = some .equalExcluded ↔ lower.ExcludesSame upper := by
  cases lower <;> cases upper
  case excluded.excluded low high =>
    by_cases heq : low = high
    · simp [rangeFault?, Bound.ExcludesSame, heq]
    · simp [rangeFault?, Bound.ExcludesSame, heq, Ne.symm heq]
  all_goals simp [rangeFault?, Bound.ExcludesSame, Bound.key?]

/-- Bounds are without fault if they are in order and do not exclude one key. -/
theorem rangeFault?_eq_none_iff {lower upper : Bound} :
    rangeFault? lower upper = none ↔ ¬ lower.Exceeds upper ∧ ¬ lower.ExcludesSame upper := by
  rw [← rangeFault?_eq_inverted_iff, ← rangeFault?_eq_equalExcluded_iff]
  cases rangeFault? lower upper with
  | none => simp
  | some fault => cases fault <;> simp

/-- A key within two bounds is not less than the lower one's. -/
theorem Between.low_le {lower upper : Bound} {key low : Bytes} (h : Between lower upper key)
    (hlow : lower.key? = some low) : low ≤ key := by
  cases lower with
  | unbounded => simp [Bound.key?] at hlow
  | included k => exact h.from_low low (by simpa [Bound.key?] using hlow)
  | excluded k => exact List.le_of_lt (h.above_low low (by simpa [Bound.key?] using hlow))

/-- A key within two bounds is not greater than the upper one's. -/
theorem Between.le_high {lower upper : Bound} {key high : Bytes} (h : Between lower upper key)
    (hhigh : upper.key? = some high) : key ≤ high := by
  cases upper with
  | unbounded => simp [Bound.key?] at hhigh
  | included k => exact h.upto_high high (by simpa [Bound.key?] using hhigh)
  | excluded k => exact List.le_of_lt (h.below_high high (by simpa [Bound.key?] using hhigh))

/-- Bounds within which some key lies are without fault. -/
theorem Between.rangeFault?_eq_none {lower upper : Bound} {key : Bytes}
    (h : Between lower upper key) : rangeFault? lower upper = none := by
  refine rangeFault?_eq_none_iff.2 ⟨?_, ?_⟩
  · rintro ⟨low, hlow, high, hhigh, hlt⟩
    exact List.not_lt.2 (List.le_trans (h.low_le hlow) (h.le_high hhigh)) hlt
  · rintro ⟨k, rfl, rfl⟩
    exact List.lt_irrefl k (List.lt_trans (h.above_low k rfl) (h.below_high k rfl))

/-! ## Scans -/

/-- The entries between two bounds. -/
theorem mem_within_iff (s : ByteStore) {lower upper : Bound} {key value : Bytes} :
    (key, value) ∈ s.within lower upper ↔
      s.get? key = some value ∧ Between lower upper key := by
  rw [within, List.mem_filter, Bool.and_eq_true, below_above_iff, get?_eq_some_iff]

/-- The entries between two bounds ascend. -/
theorem ascending_within (s : ByteStore) (lower upper : Bound) :
    Ascending (s.within lower upper) := List.Pairwise.filter _ s.ascending

/-- A scan fails with the fault of its bounds, if anything was ever stored. -/
theorem scan_eq_error_iff (s : ByteStore) {lower upper : Bound} {fault : RangeFault} :
    s.scan lower upper = .error fault ↔
      s.everStored = true ∧ rangeFault? lower upper = some fault := by
  rw [scan]
  split
  · next hever =>
    cases rangeFault? lower upper <;> simp [hever]
  · next hnever => simp [hnever]

/-- Where nothing was ever stored, nothing lies between two bounds. -/
theorem within_eq_nil (s : ByteStore) (h : s.everStored = false) (lower upper : Bound) :
    s.within lower upper = [] := by
  rw [within, s.entries_eq_nil h, List.filter_nil]

/-- A scan that does not fail finds the entries between its bounds. -/
theorem scan_eq_ok_within (s : ByteStore) {lower upper : Bound}
    (h : s.everStored = true → rangeFault? lower upper = none) :
    s.scan lower upper = .ok (s.within lower upper) := by
  rw [scan]
  split
  · next hever => rw [h hever]
  · next hnever => rw [within_eq_nil s (by simpa using hnever)]

/-- A scan succeeds with those entries that ascend and are all that is stored between its bounds. -/
theorem scan_eq_ok_iff (s : ByteStore) {lower upper : Bound} {entries : List (Bytes × Bytes)} :
    s.scan lower upper = .ok entries ↔
      (s.everStored = true → rangeFault? lower upper = none) ∧ Ascending entries ∧
        ∀ key value, (key, value) ∈ entries ↔
          s.get? key = some value ∧ Between lower upper key := by
  constructor
  · intro h
    have hfault : s.everStored = true → rangeFault? lower upper = none := by
      intro hever
      cases hrange : rangeFault? lower upper with
      | none => rfl
      | some fault => simp [(scan_eq_error_iff s).2 ⟨hever, hrange⟩] at h
    rw [scan_eq_ok_within s hfault, Except.ok.injEq] at h
    subst h
    exact ⟨hfault, ascending_within s lower upper, fun key value => mem_within_iff s⟩
  · rintro ⟨hfault, order, hmem⟩
    rw [scan_eq_ok_within s hfault, Except.ok.injEq]
    refine (ascending_within s lower upper).ext order fun e => ?_
    rw [mem_within_iff, hmem]

/-! ## Scans by prefix -/

/-- Nothing lies above all that begins with bytes that cannot be raised. -/
theorem successor?_replicate_max (n : Nat) : successor? (List.replicate n 0xff) = none := by
  induction n with
  | zero => rfl
  | succ n ih => rw [List.replicate_succ, successor?, ih, if_pos rfl]

/-- Bytes at the end that cannot be raised are dropped, and the byte in front of them is raised. -/
theorem successor?_append_max (start : Bytes) {b : UInt8} (hb : b ≠ 0xff) (n : Nat) :
    successor? (start ++ b :: List.replicate n 0xff) = some (start ++ [b + 1]) := by
  induction start with
  | nil => rw [List.nil_append, List.nil_append, successor?, successor?_replicate_max, if_neg hb]
  | cons first start ih => rw [List.cons_append, List.cons_append, successor?, ih]

/-- The end of the range of a prefix. Bytes that cannot be raised are stripped from its end, and the one in
front of them is raised. A prefix made of such bytes has a range without an end. -/
inductive RangeEnd : Bytes → Bound → Prop
  | unbounded (n : Nat) : RangeEnd (List.replicate n 0xff) .unbounded
  | raised (front : Bytes) {b : UInt8} (hb : b ≠ 0xff) (n : Nat) :
      RangeEnd (front ++ b :: List.replicate n 0xff) (.excluded (front ++ [b + 1]))

/-- Bytes that cannot be raised, at the end of a prefix or all of it. -/
theorem exists_replicate_max (start : Bytes) :
    (∃ n, start = List.replicate n 0xff) ∨
      ∃ front b n, b ≠ 0xff ∧ start = front ++ b :: List.replicate n 0xff := by
  induction start with
  | nil => exact .inl ⟨0, rfl⟩
  | cons first start ih =>
    rcases ih with ⟨n, rfl⟩ | ⟨front, b, n, hb, rfl⟩
    · by_cases hfirst : first = 0xff
      · exact .inl ⟨n + 1, by rw [hfirst, List.replicate_succ]⟩
      · exact .inr ⟨[], first, n, hfirst, rfl⟩
    · exact .inr ⟨first :: front, b, n, hb, rfl⟩

/-- This is where the range of every prefix ends. -/
theorem rangeEnd_prefixEnd (start : Bytes) : RangeEnd start (prefixEnd start) := by
  rcases exists_replicate_max start with ⟨n, rfl⟩ | ⟨front, b, n, hb, rfl⟩
  · rw [prefixEnd, successor?_replicate_max]
    exact .unbounded n
  · rw [prefixEnd, successor?_append_max front hb]
    exact .raised front hb n

/-- The range of a prefix holds the keys that begin with it. -/
theorem between_prefixEnd_iff {start key : Bytes} :
    Between (.included start) (prefixEnd start) key ↔ start <+: key := by
  rw [← below_above_iff, mem_prefixRange_iff]

/-- To find by prefix is to scan the range of the prefix, which never fails: the prefix itself lies
within its range. -/
theorem scan_prefixEnd (s : ByteStore) (start : Bytes) :
    s.scan (.included start) (prefixEnd start) = .ok (s.scanPrefix start) :=
  scan_eq_ok_within s fun _ =>
    (between_prefixEnd_iff.2 (List.prefix_refl start)).rangeFault?_eq_none

/-! ## Reading after a history -/

/-- After any history, a key holds the value that was last set under it and not erased since. A scan
between two bounds fails if the history set anything and the bounds make no range; in every other
case it finds what was last set under the keys within the bounds, in ascending order. The range of a
prefix ends where the last byte is raised that can be. To scan it never fails, and finds what was last set
under the keys that begin with the prefix, in ascending order. -/
theorem reads_afterAll (changes : List Change) :
    (∀ key value,
      (empty.afterAll changes).get? key = some value ↔ LastSet changes key value) ∧
    (∀ lower upper,
      ((empty.afterAll changes).scan lower upper = .error .inverted ↔
        SetsAny changes ∧ lower.Exceeds upper) ∧
      ((empty.afterAll changes).scan lower upper = .error .equalExcluded ↔
        SetsAny changes ∧ lower.ExcludesSame upper) ∧
      ∀ entries, (empty.afterAll changes).scan lower upper = .ok entries ↔
        ¬ (SetsAny changes ∧ (lower.Exceeds upper ∨ lower.ExcludesSame upper)) ∧
          Ascending entries ∧
          ∀ key value, (key, value) ∈ entries ↔
            LastSet changes key value ∧ Between lower upper key) ∧
    ∀ start, RangeEnd start (prefixEnd start) ∧ ∃ entries,
      (empty.afterAll changes).scan (.included start) (prefixEnd start) = .ok entries ∧
      (empty.afterAll changes).scanPrefix start = entries ∧
      Ascending entries ∧
      ∀ key value, (key, value) ∈ entries ↔ LastSet changes key value ∧ start <+: key := by
  refine ⟨get?_afterAll_eq_some_iff changes, fun lower upper => ⟨?_, ?_, fun entries => ?_⟩,
    fun start => ⟨rangeEnd_prefixEnd start, _, scan_prefixEnd _ start, rfl, ascending_within _ _ _,
      fun key value => ?_⟩⟩
  · rw [scan_eq_error_iff, everStored_afterAll_iff, rangeFault?_eq_inverted_iff]
  · rw [scan_eq_error_iff, everStored_afterAll_iff, rangeFault?_eq_equalExcluded_iff]
  · rw [scan_eq_ok_iff, everStored_afterAll_iff, rangeFault?_eq_none_iff, not_and, not_or]
    simp only [get?_afterAll_eq_some_iff]
  · rw [scanPrefix, mem_within_iff, get?_afterAll_eq_some_iff, between_prefixEnd_iff]

/-- Where nothing was ever set, bounds in the wrong order are not a fault. -/
theorem scan_inverted_never_set :
    ¬ ((∃ fault, (empty.afterAll []).scan (.included [2]) (.included [1]) = .error fault) ↔
      (Bound.included [2]).Exceeds (.included [1]) ∨
        (Bound.included [2]).ExcludesSame (.included [1])) := by
  intro h
  have hexceeds : (Bound.included [2]).Exceeds (.included [1]) :=
    ⟨[2], rfl, [1], rfl, by decide⟩
  obtain ⟨fault, hfault⟩ := h.2 (.inl hexceeds)
  have hok : (empty.afterAll []).scan (.included [2]) (.included [1]) = .ok [] := rfl
  rw [hok] at hfault
  cases hfault

/-- The range of a prefix that ends in a byte that cannot be raised, and of one made of such bytes. -/
example :
    let s := empty.afterAll
      [.set [1, 0xff] [10], .set [2] [11], .set [0xff, 0xff, 0] [12], .set [1, 0xff, 7] [13]]
    s.scanPrefix [1, 0xff] = [([1, 0xff], [10]), ([1, 0xff, 7], [13])] ∧
      s.scanPrefix [0xff, 0xff] = [([0xff, 0xff, 0], [12])] := by decide

end ByteStore

end SqlStore
