import Mathlib.Data.List.Basic
import Mathlib.Tactic.Common

/-!
Paging through a list. A reader takes slices of a list, each where the one before ended, and holds
the position of the next one while something is left.
-/

set_option autoImplicit false
set_option relaxedAutoImplicit false

namespace ContextMesh.Paging

variable {α : Type}

/-- The position after some items of a list, while items are left. -/
def position (items : List α) (taken : ℕ) : Option ℕ :=
  if taken < items.length then some taken else none

/-- The pages are consecutive slices of the list from its start, and the position is where the next
slice starts. -/
structure Covers (items : List α) (pages : List (List α)) (next : Option ℕ) : Prop where
  slices : pages.flatten = items.take pages.flatten.length
  next_eq : next = position items pages.flatten.length

theorem position_eq_some {items : List α} {taken next : ℕ} :
    position items taken = some next ↔ taken < items.length ∧ taken = next := by
  unfold position
  split_ifs with h
  · simp [h]
  · simp [h]

theorem position_eq_none {items : List α} {taken : ℕ} :
    position items taken = none ↔ items.length ≤ taken := by
  unfold position
  split_ifs with h
  · simp [h]
  · simp [Nat.not_lt.mp h]

theorem Covers.start (items : List α) : Covers items [] (position items 0) := ⟨rfl, rfl⟩

/-- A slice at the end of the pages extends them. -/
theorem Covers.append {items : List α} {pages : List (List α)} {next : Option ℕ}
    (h : Covers items pages next) {count : ℕ}
    (hcount : pages.flatten.length + count ≤ items.length) :
    Covers items (pages ++ [(items.drop pages.flatten.length).take count])
      (position items (pages.flatten.length + count)) := by
  have hflatten : (pages ++ [(items.drop pages.flatten.length).take count]).flatten =
      items.take (pages.flatten.length + count) := by
    rw [List.flatten_append, List.flatten_singleton, List.take_add, ← h.slices]
  have hlength : (pages ++ [(items.drop pages.flatten.length).take count]).flatten.length =
      pages.flatten.length + count := by
    rw [hflatten, List.length_take_of_le hcount]
  exact ⟨by rw [hlength, hflatten], by rw [hlength]⟩

/-- Pages without a next position are the whole list. -/
theorem Covers.whole {items : List α} {pages : List (List α)} (h : Covers items pages none) :
    pages.flatten = items := by
  rw [h.slices]
  exact List.take_of_length_le (position_eq_none.mp h.next_eq.symm)

/-- The next position is where the pages end, and something is left there. -/
theorem Covers.at_next {items : List α} {pages : List (List α)} {offset : ℕ}
    (h : Covers items pages (some offset)) :
    offset = pages.flatten.length ∧ offset < items.length := by
  obtain ⟨hlt, rfl⟩ := position_eq_some.mp h.next_eq.symm
  exact ⟨rfl, hlt⟩

end ContextMesh.Paging
