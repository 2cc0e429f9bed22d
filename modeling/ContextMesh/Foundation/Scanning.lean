import Mathlib.Data.List.Infix
import Mathlib.Data.Nat.Find
import Mathlib.Tactic.Common

/-!
Searching a pattern in a stream that arrives in parts. Where a pattern has not occurred yet, its
first occurrence after the next part lies in that part, or begins among the last symbols before it,
one fewer than the pattern has. So these last symbols are all of the past that a search needs.
-/

set_option autoImplicit false
set_option relaxedAutoImplicit false

namespace ContextMesh.Scanning

variable {α : Type} {pattern : List α}

/-- The pattern stands at a position of the stream. -/
def Occurs (pattern stream : List α) (i : ℕ) : Prop := pattern <+: stream.drop i

/-- The first position at which the pattern stands. -/
def First (pattern stream : List α) (i : ℕ) : Prop :=
  Occurs pattern stream i ∧ ∀ j < i, ¬ Occurs pattern stream j

/-- The position of the first window that equals the pattern. -/
def position [DecidableEq α] (pattern : List α) : List α → Option ℕ
  | [] => if pattern = [] then some 0 else none
  | a :: rest =>
    if pattern.isPrefixOf (a :: rest) then some 0 else (position pattern rest).map (· + 1)

/-- The last symbols of a list, at most `count` of them. -/
def lastOf (count : ℕ) (stream : List α) : List α := stream.drop (stream.length - count)

theorem Occurs.bound {stream : List α} {i : ℕ} (h : Occurs pattern stream i)
    (hpattern : pattern ≠ []) : i + pattern.length ≤ stream.length := by
  have hlength := h.length_le
  have hpos := List.length_pos_of_ne_nil hpattern
  rw [List.length_drop] at hlength
  omega

theorem Occurs.append {stream : List α} {i : ℕ} (h : Occurs pattern stream i)
    (hpattern : pattern ≠ []) (more : List α) : Occurs pattern (stream ++ more) i := by
  have hbound := h.bound hpattern
  unfold Occurs
  rw [List.drop_append_of_le_length (by omega)]
  exact h.trans (List.prefix_append _ _)

/-- An occurrence that ends before a part begins does not need the part. -/
theorem Occurs.of_append {stream more : List α} {i : ℕ} (h : Occurs pattern (stream ++ more) i)
    (hend : i + pattern.length ≤ stream.length) : Occurs pattern stream i := by
  unfold Occurs at h ⊢
  rw [List.drop_append_of_le_length (by omega)] at h
  refine List.prefix_of_prefix_length_le h (List.prefix_append _ _) ?_
  rw [List.length_drop]
  omega

theorem occurs_append_left {front stream : List α} {i : ℕ} :
    Occurs pattern (front ++ stream) (front.length + i) ↔ Occurs pattern stream i := by
  unfold Occurs
  rw [List.drop_length_add_append]

theorem exists_first {stream : List α} {i : ℕ} (h : Occurs pattern stream i) :
    ∃ j ≤ i, First pattern stream j := by
  classical
  have hexists : ∃ j, Occurs pattern stream j := ⟨i, h⟩
  exact ⟨Nat.find hexists, Nat.find_min' hexists h, Nat.find_spec hexists,
    fun j hj ↦ Nat.find_min hexists hj⟩

theorem First.unique {stream : List α} {i j : ℕ} (hi : First pattern stream i)
    (hj : First pattern stream j) : i = j := by
  rcases Nat.lt_trichotomy i j with hlt | heq | hlt
  · exact absurd hi.1 (hj.2 i hlt)
  · exact heq
  · exact absurd hj.1 (hi.2 j hlt)

theorem First.append {stream : List α} {i : ℕ} (h : First pattern stream i)
    (hpattern : pattern ≠ []) (more : List α) : First pattern (stream ++ more) i := by
  have hbound := h.1.bound hpattern
  exact ⟨h.1.append hpattern more, fun j hj hoccurs ↦ h.2 j hj (hoccurs.of_append (by omega))⟩

section Position

variable [DecidableEq α]

theorem position_eq_some {stream : List α} {i : ℕ} (hpattern : pattern ≠ []) :
    position pattern stream = some i ↔ First pattern stream i := by
  induction stream generalizing i with
  | nil =>
    rw [position, if_neg hpattern]
    refine iff_of_false nofun fun h ↦ hpattern ?_
    have hprefix := h.1
    unfold Occurs at hprefix
    rw [List.drop_nil] at hprefix
    exact List.prefix_nil.mp hprefix
  | cons a rest ih =>
    have hshift (j : ℕ) : Occurs pattern (a :: rest) (j + 1) ↔ Occurs pattern rest j := Iff.rfl
    rw [position]
    by_cases hhead : pattern.isPrefixOf (a :: rest) = true
    · rw [if_pos hhead, Option.some.injEq]
      have hzero : First pattern (a :: rest) 0 :=
        ⟨List.isPrefixOf_iff_prefix.mp hhead, fun j hj ↦ absurd hj (Nat.not_lt_zero j)⟩
      exact ⟨fun h ↦ h ▸ hzero, fun h ↦ hzero.unique h⟩
    · rw [if_neg hhead, Option.map_eq_some_iff]
      have hzero : ¬ Occurs pattern (a :: rest) 0 :=
        fun h ↦ hhead (List.isPrefixOf_iff_prefix.mpr h)
      constructor
      · rintro ⟨j, hj, rfl⟩
        obtain ⟨hoccurs, hnone⟩ := ih.mp hj
        refine ⟨hoccurs, fun k hk ↦ ?_⟩
        cases k with
        | zero => exact hzero
        | succ k => exact hnone k (by omega)
      · intro h
        cases i with
        | zero => exact absurd h.1 hzero
        | succ i => exact ⟨i, ih.mpr ⟨h.1, fun k hk ↦ h.2 (k + 1) (by omega)⟩, rfl⟩

theorem position_eq_none {stream : List α} (hpattern : pattern ≠ []) :
    position pattern stream = none ↔ ∀ i, ¬ Occurs pattern stream i := by
  constructor
  · intro h i hoccurs
    obtain ⟨j, -, hfirst⟩ := exists_first hoccurs
    rw [(position_eq_some hpattern).mpr hfirst] at h
    cases h
  · intro h
    cases hposition : position pattern stream with
    | none => rfl
    | some i => exact absurd ((position_eq_some hpattern).mp hposition).1 (h i)

end Position

/-! ### The last symbols -/

theorem length_lastOf (count : ℕ) (stream : List α) :
    (lastOf count stream).length = min count stream.length := by
  rw [lastOf, List.length_drop]
  omega

theorem length_lastOf_le (count : ℕ) (stream : List α) : (lastOf count stream).length ≤ count := by
  rw [length_lastOf]
  exact min_le_left _ _

/-- Keeping the last symbols part by part is keeping those of the whole stream. -/
theorem lastOf_append (count : ℕ) (stream more : List α) :
    lastOf count (lastOf count stream ++ more) = lastOf count (stream ++ more) := by
  obtain ⟨front, hfront⟩ : ∃ front, stream = front ++ lastOf count stream :=
    ⟨_, (List.take_append_drop (stream.length - count) stream).symm⟩
  have hlength := congrArg List.length hfront
  rw [List.length_append, length_lastOf] at hlength
  generalize lastOf count stream = last at *
  subst hfront
  by_cases hshort : front = []
  · rw [hshort, List.nil_append]
  · have hpos := List.length_pos_of_ne_nil hshort
    rw [List.length_append] at hlength
    have hindex : (front ++ (last ++ more)).length - count =
        front.length + ((last ++ more).length - count) := by
      rw [List.length_append, List.length_append]
      omega
    rw [lastOf, lastOf, List.append_assoc, hindex, List.drop_length_add_append]

/-- Where the pattern has not occurred, its first occurrence after a part is found in the last
symbols and the part. -/
theorem first_lastOf_append {stream more : List α} {i : ℕ} (hpattern : pattern ≠ [])
    (hnone : ∀ j, ¬ Occurs pattern stream j) :
    First pattern (lastOf (pattern.length - 1) stream ++ more) i ↔ First pattern (stream ++ more)
      (stream.length - (lastOf (pattern.length - 1) stream).length + i) := by
  obtain ⟨front, hfront⟩ : ∃ front, stream = front ++ lastOf (pattern.length - 1) stream :=
    ⟨_, (List.take_append_drop (stream.length - (pattern.length - 1)) stream).symm⟩
  have hlength := congrArg List.length hfront
  have hlast := length_lastOf (pattern.length - 1) stream
  generalize lastOf (pattern.length - 1) stream = last at *
  rw [List.length_append] at hlength
  have hoffset : stream.length - last.length = front.length := by omega
  have hshift (j : ℕ) : Occurs pattern (stream ++ more) (front.length + j) ↔
      Occurs pattern (last ++ more) j := by
    rw [hfront, List.append_assoc, occurs_append_left]
  have hpos := List.length_pos_of_ne_nil hpattern
  -- an occurrence that begins before the last symbols ends before the part
  have hearly : ∀ j < front.length, ¬ Occurs pattern (stream ++ more) j :=
    fun j hj hoccurs ↦ hnone j (hoccurs.of_append (by omega))
  rw [hoffset]
  constructor
  · rintro ⟨hoccurs, hbefore⟩
    refine ⟨(hshift i).mpr hoccurs, fun j hj ↦ ?_⟩
    by_cases hfar : j < front.length
    · exact hearly j hfar
    · obtain ⟨k, rfl⟩ := Nat.exists_eq_add_of_le (Nat.le_of_not_lt hfar)
      exact mt (hshift k).mp (hbefore k (by omega))
  · rintro ⟨hoccurs, hbefore⟩
    exact ⟨(hshift i).mp hoccurs,
      fun j hj ↦ mt (hshift j).mpr (hbefore (front.length + j) (by omega))⟩

/-- Where the pattern has not occurred, it occurs after a part when it does in the last symbols and
the part. -/
theorem not_occurs_append {stream more : List α} (hpattern : pattern ≠ [])
    (hnone : ∀ j, ¬ Occurs pattern stream j)
    (hpart : ∀ j, ¬ Occurs pattern (lastOf (pattern.length - 1) stream ++ more) j) (j : ℕ) :
    ¬ Occurs pattern (stream ++ more) j := by
  intro hoccurs
  obtain ⟨i, -, hfirst⟩ := exists_first hoccurs
  have hlast : stream.length - (lastOf (pattern.length - 1) stream).length ≤ i := by
    by_contra hfar
    have hlength := length_lastOf (pattern.length - 1) stream
    have hpos := List.length_pos_of_ne_nil hpattern
    exact hnone i (hfirst.1.of_append (by omega))
  obtain ⟨k, rfl⟩ := Nat.exists_eq_add_of_le hlast
  exact hpart k ((first_lastOf_append hpattern hnone).mpr hfirst).1

end ContextMesh.Scanning
