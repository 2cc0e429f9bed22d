import Mathlib.Data.List.Nodup
import Mathlib.Data.List.Dedup
import Mathlib.Tactic.Common

/-!
Lists as keyed collections. A collection is keyed when no key occurs twice; then looking a key up
finds its only element, and putting an element replaces the one of the same key where it stands or
appends it.
-/

set_option autoImplicit false
set_option relaxedAutoImplicit false

namespace ContextMesh.Keyed

variable {α κ : Type} [DecidableEq κ] {key : α → κ} {items : List α}

/-- Filtering by a key that occurs at most once finds the element of the key. -/
theorem filter_key (h : (items.map key).Nodup) (k : κ) :
    (items.filter fun a ↦ key a = k) = (items.find? fun a ↦ key a = k).toList := by
  induction items with
  | nil => rfl
  | cons a rest ih =>
    rw [List.map_cons, List.nodup_cons] at h
    by_cases hk : key a = k
    · have hrest : (rest.filter fun a ↦ key a = k) = [] := by
        rw [List.filter_eq_nil_iff]
        intro b hb
        rw [decide_eq_true_eq]
        rintro rfl
        exact h.1 (hk ▸ List.mem_map_of_mem hb)
      simp [hk, hrest]
    · simp [hk, ih h.2]

theorem find_key_eq_some (h : (items.map key).Nodup) {a : α} {k : κ} :
    (items.find? fun a ↦ key a = k) = some a ↔ a ∈ items ∧ key a = k := by
  constructor
  · intro hfind
    exact ⟨List.mem_of_find?_eq_some hfind, by simpa using List.find?_some hfind⟩
  · rintro ⟨hmem, rfl⟩
    have hfilter := filter_key h (key a)
    have ha : a ∈ items.filter fun b ↦ key b = key a := by simp [hmem]
    rw [hfilter, Option.mem_toList] at ha
    exact ha

theorem find_key_eq_none {k : κ} :
    (items.find? fun a ↦ key a = k) = none ↔ ∀ a ∈ items, key a ≠ k := by
  simp

/-- A lookup in a keyed collection does not see the order of the elements. -/
theorem find_key_perm (h : (items.map key).Nodup) {other : List α} (hperm : other.Perm items)
    (k : κ) : (other.find? fun a ↦ key a = k) = items.find? fun a ↦ key a = k := by
  ext a
  rw [find_key_eq_some h, find_key_eq_some ((hperm.map key).nodup_iff.mpr h), hperm.mem_iff]

/-- Replaces the element of the same key where it stands, or appends. -/
def put (key : α → κ) (item : α) (items : List α) : List α :=
  if ∀ a ∈ items, key a ≠ key item then items ++ [item]
  else items.map fun a ↦ if key a = key item then item else a

theorem put_of_fresh {item : α} (h : ∀ a ∈ items, key a ≠ key item) :
    put key item items = items ++ [item] := if_pos h

theorem put_of_present {item : α} (h : ¬ ∀ a ∈ items, key a ≠ key item) :
    put key item items = items.map fun a ↦ if key a = key item then item else a := if_neg h

theorem mem_put {item a : α} :
    a ∈ put key item items ↔ a = item ∨ (a ∈ items ∧ key a ≠ key item) := by
  by_cases h : ∀ a ∈ items, key a ≠ key item
  · rw [put_of_fresh h, List.mem_append, List.mem_singleton]
    constructor
    · rintro (ha | ha)
      · exact Or.inr ⟨ha, h a ha⟩
      · exact Or.inl ha
    · rintro (ha | ⟨ha, -⟩)
      · exact Or.inr ha
      · exact Or.inl ha
  · rw [put_of_present h, List.mem_map]
    constructor
    · rintro ⟨b, hb, rfl⟩
      by_cases hkey : key b = key item
      · rw [if_pos hkey]
        exact Or.inl rfl
      · rw [if_neg hkey]
        exact Or.inr ⟨hb, hkey⟩
    · rintro (rfl | ⟨ha, hkey⟩)
      · push Not at h
        obtain ⟨b, hb, hkey⟩ := h
        exact ⟨b, hb, if_pos hkey⟩
      · exact ⟨a, ha, if_neg hkey⟩

/-- Putting an element keeps a collection keyed. -/
theorem put_nodup (h : (items.map key).Nodup) (item : α) :
    ((put key item items).map key).Nodup := by
  by_cases hfresh : ∀ a ∈ items, key a ≠ key item
  · rw [put_of_fresh hfresh, List.map_append, List.map_singleton, List.nodup_append]
    refine ⟨h, List.nodup_singleton _, fun k hk k' hk' ↦ ?_⟩
    obtain ⟨a, ha, rfl⟩ := List.mem_map.mp hk
    rw [List.mem_singleton] at hk'
    exact hk' ▸ hfresh a ha
  · have hkeys : (fun a ↦ key (if key a = key item then item else a)) = key := by
      funext a
      split_ifs with hkey
      · exact hkey.symm
      · rfl
    rw [put_of_present hfresh, List.map_map]
    exact (congrArg (fun f ↦ (items.map f).Nodup) hkeys).mpr h

/-- Looking a key up after an element was put. -/
theorem find_key_put (h : (items.map key).Nodup) (item : α) (k : κ) :
    ((put key item items).find? fun a ↦ key a = k) =
      if key item = k then some item else items.find? fun a ↦ key a = k := by
  ext a
  rw [find_key_eq_some (put_nodup h item), mem_put]
  by_cases hk : key item = k
  · rw [if_pos hk, Option.some.injEq]
    constructor
    · rintro ⟨rfl | ⟨-, hne⟩, ha⟩
      · rfl
      · exact absurd (ha.trans hk.symm) hne
    · rintro rfl
      exact ⟨Or.inl rfl, hk⟩
  · rw [if_neg hk, find_key_eq_some h]
    constructor
    · rintro ⟨rfl | ⟨ha, -⟩, hak⟩
      · exact absurd hak hk
      · exact ⟨ha, hak⟩
    · rintro ⟨ha, hak⟩
      exact ⟨Or.inr ⟨ha, fun heq ↦ hk (heq ▸ hak)⟩, hak⟩

end ContextMesh.Keyed
