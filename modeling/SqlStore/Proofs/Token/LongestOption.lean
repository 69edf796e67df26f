import SqlStore.Proofs.Token.Spelling

/-! # The longest option that a text opens with

* **`StandsIn`** — what is left of a pending option stands at the front of a text;
* **`longestPending_cases`** — reading on finds the longest of these, and without any it keeps what was
  found before;
* **`LongestBy`** — the longest of some options that a text opens with, with options and text as characters
  or as bytes. `longestPending_eq_some_iff` and `longestPending_eq_none_iff` say that this one is found, and
  nothing if there is none;
* **`IsLongest`** — the same for characters, with `longestMatch_eq_some_iff` and
  `longestMatch_eq_none_iff`. -/

namespace SqlStore

section Pending

variable {α : Type} [DecidableEq α] {lower : α → α}

/-! ## Pending options -/

/-- Whether something is left of a pending option and stands at the front of a text, once this is in lower
case. -/
def StandsIn (lower : α → α) (text : List α) (q : String × List α) : Prop :=
  q.2 ≠ [] ∧ q.2 <+: text.map lower

omit [DecidableEq α] in
/-- Behind a character what is left of an option is less by that character. -/
theorem standsIn_cons_iff {c : α} {text : List α} {q : String × List α} :
    StandsIn lower (c :: text) q ↔
      ∃ todo, q.2 = lower c :: todo ∧ (todo = [] ∨ StandsIn lower text (q.1, todo)) := by
  obtain ⟨option, todo⟩ := q
  cases todo with
  | nil => simp [StandsIn]
  | cons d todo =>
    rw [StandsIn, List.map_cons, List.cons_prefix_cons]
    constructor
    · rintro ⟨-, rfl, hfront⟩
      exact ⟨todo, rfl, (Classical.em (todo = [])).imp_right fun hne => ⟨hne, hfront⟩⟩
    · rintro ⟨_, heq, hcases⟩
      obtain ⟨rfl, rfl⟩ := List.cons.inj heq
      refine ⟨List.cons_ne_nil _ _, rfl, ?_⟩
      rcases hcases with rfl | hstands
      · exact List.nil_prefix
      · exact hstands.2

/-- An option that stands in a text is complete behind the first character, or it is still pending and
stands in the rest. -/
theorem StandsIn.step {c : α} {text : List α} {pending : List (String × List α)}
    {p : String × List α} (h : StandsIn lower (c :: text) p) (hp : p ∈ pending) :
    ∃ todo, p.2 = lower c :: todo ∧
      (todo = [] ∧ (p.1, todo) ∈ agreeing (lower c) pending ∨ StandsIn lower text (p.1, todo) ∧
        (p.1, todo) ∈ (agreeing (lower c) pending).filter fun (_, todo) => !todo.isEmpty) := by
  obtain ⟨todo, htodo, hcases⟩ := standsIn_cons_iff.1 h
  have hmem : (p.1, todo) ∈ agreeing (lower c) pending := by
    rw [mem_agreeing_iff, ← htodo]
    exact hp
  refine ⟨todo, htodo, hcases.imp (fun hnil => ⟨hnil, hmem⟩) fun hstands => ⟨hstands, ?_⟩⟩
  exact List.mem_filter.2 ⟨hmem, by simpa using hstands.1⟩

/-- Reading on finds the longest of the pending options that stand in the text. If there are none, what
was found before is the longest. -/
theorem longestPending_cases (best : Option String) (pending : List (String × List α))
    (text : List α) :
    (∀ q ∈ pending, ¬ StandsIn lower text q) ∧ longestPending lower best pending text = best ∨
      ∃ q ∈ pending, StandsIn lower text q ∧
        (∀ p ∈ pending, StandsIn lower text p → p.2.length ≤ q.2.length) ∧
        longestPending lower best pending text = some q.1 := by
  -- induction on the text; an option that is complete gives way to those that are still pending
  induction text generalizing best pending with
  | nil => exact .inl ⟨fun q _ hq => hq.1 (List.prefix_nil.1 hq.2), rfl⟩
  | cons c text ih =>
    rw [longestPending]
    split
    · next hempty =>
      rw [List.isEmpty_iff] at hempty
      exact .inl ⟨by simp [hempty], rfl⟩
    · rcases ih (((agreeing (lower c) pending).find? fun (_, todo) => todo.isEmpty).map (·.1) |>.or best)
        ((agreeing (lower c) pending).filter fun (_, todo) => !todo.isEmpty) with
        ⟨hnone, hread⟩ | ⟨q, hq, hstands, hlongest, hread⟩
      · rw [hread]
        cases hcomplete : (agreeing (lower c) pending).find? fun (_, todo) => todo.isEmpty with
        | none =>
          refine .inl ⟨fun p hp hstands => ?_, rfl⟩
          obtain ⟨todo, -, ⟨rfl, hmem⟩ | ⟨hrest, hmem⟩⟩ := hstands.step hp
          · exact List.find?_eq_none.1 hcomplete _ hmem rfl
          · exact hnone _ hmem hrest
        | some q =>
          -- the option ends with this character, and nothing longer stands in the text
          have hq := mem_agreeing_iff.1 (List.mem_of_find?_eq_some hcomplete)
          have hnil : q.2 = [] := by simpa using List.find?_some hcomplete
          refine .inr ⟨_, hq, standsIn_cons_iff.2 ⟨q.2, rfl, .inl hnil⟩, fun p hp hstands => ?_, rfl⟩
          obtain ⟨todo, htodo, ⟨rfl, -⟩ | ⟨hrest, hmem⟩⟩ := hstands.step hp
          · exact htodo ▸ Nat.succ_le_succ (Nat.zero_le _)
          · exact absurd hrest (hnone _ hmem)
      · rw [hread]
        have hpending := mem_agreeing_iff.1 (List.mem_filter.1 hq).1
        refine .inr ⟨_, hpending, standsIn_cons_iff.2 ⟨q.2, rfl, .inr hstands⟩, fun p hp hp' => ?_, rfl⟩
        obtain ⟨todo, htodo, ⟨rfl, -⟩ | ⟨hrest, hmem⟩⟩ := hp'.step hp
        · exact htodo ▸ Nat.succ_le_succ (Nat.zero_le _)
        · exact htodo ▸ Nat.succ_le_succ (hlongest _ hmem hrest)

/-! ## All options -/

/-- Whether of some options, each of them not empty, this is the longest one that a text opens with, once
the text is in lower case. Options are written in the alphabet of the text. -/
structure LongestBy (lower : α → α) (written : String → List α) (options : List String) (text : List α)
    (word : String) : Prop where
  mem : word ∈ options
  ne_nil : written word ≠ []
  opens : written word <+: text.map lower
  longest : ∀ option ∈ options, written option <+: text.map lower →
    (written option).length ≤ (written word).length

variable {written : String → List α} {options : List String} {text : List α}

omit [DecidableEq α] in
/-- The longest option is determined by its options and the text. -/
theorem LongestBy.unique (hwritten : Function.Injective written) {word other : String}
    (h : LongestBy lower written options text word) (h' : LongestBy lower written options text other) :
    word = other := by
  have hle := h'.longest word h.mem h.opens
  have hge := h.longest other h'.mem h'.opens
  have hfront := List.prefix_of_prefix_length_le h.opens h'.opens hle
  exact hwritten (hfront.eq_of_length_le hge)

variable (lower written options text)

/-- The longest option is found, or no option but an empty one stands at the front of the text. -/
theorem longestPending_options_cases :
    (∀ option ∈ options, written option <+: text.map lower → written option = []) ∧
        longestPending lower none (options.map fun option => (option, written option)) text = none ∨
      ∃ word, LongestBy lower written options text word ∧
        longestPending lower none (options.map fun option => (option, written option)) text
          = some word := by
  rcases longestPending_cases none (options.map fun option => (option, written option)) text with
    ⟨hnone, hread⟩ | ⟨q, hq, ⟨hempty, hopens⟩, hlongest, hread⟩
  · refine .inl ⟨fun option hmem hopens => ?_, hread⟩
    by_contra hempty
    exact hnone _ (List.mem_map.2 ⟨option, hmem, rfl⟩) ⟨hempty, hopens⟩
  · obtain ⟨word, hword, rfl⟩ := List.mem_map.1 hq
    refine .inr ⟨word, ⟨hword, hempty, hopens, fun option hmem hoption => ?_⟩, hread⟩
    by_cases hnil : written option = []
    · rw [hnil]
      exact Nat.zero_le _
    · exact hlongest _ (List.mem_map.2 ⟨option, hmem, rfl⟩) ⟨hnil, hoption⟩

variable {lower written options text}

/-- What is found is the longest option that the text opens with. -/
theorem longestPending_eq_some_iff (hwritten : Function.Injective written) {word : String} :
    longestPending lower none (options.map fun option => (option, written option)) text = some word ↔
      LongestBy lower written options text word := by
  rcases longestPending_options_cases lower written options text with
    ⟨hnone, hread⟩ | ⟨other, hother, hread⟩
  · rw [hread]
    exact ⟨nofun, fun h => absurd (hnone word h.mem h.opens) h.ne_nil⟩
  · rw [hread, Option.some.injEq]
    exact ⟨fun h => h ▸ hother, fun h => hother.unique hwritten h⟩

/-- Nothing is found exactly if the text opens with no option but an empty one. -/
theorem longestPending_eq_none_iff :
    longestPending lower none (options.map fun option => (option, written option)) text = none ↔
      ∀ option ∈ options, written option <+: text.map lower → written option = [] := by
  rcases longestPending_options_cases lower written options text with
    ⟨hnone, hread⟩ | ⟨word, hword, hread⟩
  · exact iff_of_true hread hnone
  · rw [hread]
    exact ⟨nofun, fun h => absurd (h word hword.mem hword.opens) hword.ne_nil⟩

end Pending

/-! ## Options as characters -/

/-- Whether of some options this is the longest one that a text opens with, once its ASCII letters are
in lower case. -/
structure IsLongest (options : List String) (text : List Char) (word : String) : Prop where
  mem : word ∈ options
  ne_empty : word ≠ ""
  opens : word.toList <+: text.map Char.toLower
  longest : ∀ option ∈ options, option.toList <+: text.map Char.toLower → option.length ≤ word.length

/-- The length of an option is the number of its characters. -/
theorem isLongest_iff {options : List String} {text : List Char} {word : String} :
    IsLongest options text word ↔ LongestBy Char.toLower String.toList options text word := by
  have hlength : ∀ option : String, option.toList.length = option.length := fun option =>
    String.length_toList
  constructor
  · rintro ⟨hmem, hempty, hopens, hlongest⟩
    exact ⟨hmem, by simpa using hempty, hopens, by simpa only [hlength] using hlongest⟩
  · rintro ⟨hmem, hempty, hopens, hlongest⟩
    exact ⟨hmem, by simpa using hempty, hopens, by simpa only [hlength] using hlongest⟩

/-- What is found is the longest option that the text opens with. -/
theorem longestMatch_eq_some_iff {options : List String} {text : List Char} {word : String} :
    longestMatch options text = some word ↔ IsLongest options text word := by
  rw [isLongest_iff]
  exact longestPending_eq_some_iff fun _ _ => String.toList_injective

/-- Nothing is found exactly if the text opens with no option but the empty one. -/
theorem longestMatch_eq_none_iff {options : List String} {text : List Char} :
    longestMatch options text = none ↔
      ∀ option ∈ options, option.toList <+: text.map Char.toLower → option = "" := by
  have hempty : ∀ option : String, option.toList = [] ↔ option = "" := by simp
  simp only [longestMatch, longestPending_eq_none_iff, hempty]

end SqlStore
