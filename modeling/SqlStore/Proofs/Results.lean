import Mathlib.Data.List.Forall2

/-! # Results

What it takes for something to succeed that is made of parts which may fail:

* **`bind_eq_ok_iff`** — one thing after another;
* **`mapM_cons_eq_ok_iff`**, **`mapM_append_eq_ok_iff`** — a list turned into another member by member;
* **`mapM_eq_ok_map`**, **`of_mapM_eq_ok`** and **`exists_of_mapM_eq_error`** — when it succeeds, and what its
  success and its failure say of the members. -/

namespace SqlStore

variable {α β ε : Type}

/-- One thing after another succeeds if both do. -/
theorem bind_eq_ok_iff {x : Except ε α} {f : α → Except ε β} {b : β} :
    x >>= f = .ok b ↔ ∃ a, x = .ok a ∧ f a = .ok b := by
  cases x <;> simp [bind, Except.bind]

/-- A list that begins with a member is turned into one that begins with what this is turned into. -/
theorem mapM_cons_eq_ok_iff {f : α → Except ε β} {x : α} {xs : List α} {ys : List β} :
    (x :: xs).mapM f = .ok ys ↔
      ∃ y others, f x = .ok y ∧ xs.mapM f = .ok others ∧ ys = y :: others := by
  simp only [List.mapM_cons, bind_eq_ok_iff, pure, Except.pure, Except.ok.injEq]
  constructor
  · rintro ⟨y, hy, others, hothers, rfl⟩
    exact ⟨y, others, hy, hothers, rfl⟩
  · rintro ⟨y, others, hy, hothers, rfl⟩
    exact ⟨y, hy, others, hothers, rfl⟩

/-- Two lists one behind the other are turned into what each is turned into. -/
theorem mapM_append_eq_ok_iff {f : α → Except ε β} {xs ys : List α} {zs : List β} :
    (xs ++ ys).mapM f = .ok zs ↔
      ∃ front back, xs.mapM f = .ok front ∧ ys.mapM f = .ok back ∧ zs = front ++ back := by
  simp only [List.mapM_append, bind_eq_ok_iff, pure, Except.pure, Except.ok.injEq]
  constructor
  · rintro ⟨front, hfront, back, hback, rfl⟩
    exact ⟨front, back, hfront, hback, rfl⟩
  · rintro ⟨front, back, hfront, hback, rfl⟩
    exact ⟨front, hfront, back, hback, rfl⟩

/-- A list whose members can all be turned into something is turned into what they are turned into. -/
theorem mapM_eq_ok_map {f : α → Except ε β} {g : α → β} {xs : List α} (h : ∀ x ∈ xs, f x = .ok (g x)) :
    xs.mapM f = .ok (xs.map g) := by
  induction xs with
  | nil => rfl
  | cons x xs ih =>
    rw [List.forall_mem_cons] at h
    exact mapM_cons_eq_ok_iff.2 ⟨g x, xs.map g, h.1, ih h.2, rfl⟩

/-- What a list is turned into member by member. -/
theorem forall₂_of_mapM_eq_ok {f : α → Except ε β} {xs : List α} {ys : List β}
    (h : xs.mapM f = .ok ys) : List.Forall₂ (fun x y => f x = .ok y) xs ys := by
  induction xs generalizing ys with
  | nil =>
    cases h
    exact .nil
  | cons x xs ih =>
    obtain ⟨y, others, hx, hxs, rfl⟩ := mapM_cons_eq_ok_iff.1 h
    exact .cons hx (ih hxs)

/-- What a list is turned into member by member is as long, and each member comes from one of the list. -/
theorem of_mapM_eq_ok {f : α → Except ε β} {xs : List α} {ys : List β}
    (h : xs.mapM f = .ok ys) : ys.length = xs.length ∧ ∀ y ∈ ys, ∃ x ∈ xs, f x = .ok y := by
  have hall := forall₂_of_mapM_eq_ok h
  refine ⟨hall.length_eq.symm, fun y hy => ?_⟩
  obtain ⟨i, hi, rfl⟩ := List.getElem_of_mem hy
  exact ⟨_, List.getElem_mem (hall.length_eq ▸ hi), hall.get _ hi⟩

/-- A list that cannot be turned into another has a member that cannot. -/
theorem exists_of_mapM_eq_error {f : α → Except ε β} {xs : List α} {e : ε}
    (h : xs.mapM f = .error e) : ∃ x ∈ xs, f x = .error e := by
  induction xs with
  | nil => cases h
  | cons x xs ih =>
    rw [List.mapM_cons] at h
    cases hx : f x with
    | error e' =>
      rw [hx] at h
      cases h
      exact ⟨x, List.mem_cons_self, hx⟩
    | ok y =>
      cases hxs : xs.mapM f with
      | error e' =>
        rw [hx, hxs] at h
        cases h
        obtain ⟨z, hz, hfault⟩ := ih hxs
        exact ⟨z, List.mem_cons_of_mem x hz, hfault⟩
      | ok ys =>
        rw [hx, hxs] at h
        cases h

end SqlStore
