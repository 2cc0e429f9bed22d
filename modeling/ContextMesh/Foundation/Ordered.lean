import Mathlib.Data.List.Sort
import Mathlib.Data.List.Chain
import Mathlib.Tactic.Common

/-!
Canonical lists. A type is ordered by an injective key into a linear order; a list is canonical
when its keys increase strictly. Sorting and dropping repeats makes a list canonical, and a
canonical list is determined by its members, so the canonical form of a list does not see the
order or the multiplicity of its elements.
-/

set_option autoImplicit false
set_option relaxedAutoImplicit false

namespace ContextMesh.Ordered

variable {α κ : Type} [LinearOrder κ]

/-- The keys of the list increase strictly. -/
def Canonical (key : α → κ) (items : List α) : Prop := items.IsChain fun a b ↦ key a < key b

instance (key : α → κ) (items : List α) : Decidable (Canonical key items) := by
  unfold Canonical
  infer_instance

/-- Sorts by key; elements with equal keys keep their order. -/
def sort (key : α → κ) (items : List α) : List α := items.insertionSort fun a b ↦ key a ≤ key b

/-- Drops every element equal to the one before it. -/
def dedup [DecidableEq α] : List α → List α
  | [] => []
  | [a] => [a]
  | a :: b :: rest => if a = b then dedup (b :: rest) else a :: dedup (b :: rest)

/-- Sorts by key and drops repeats. -/
def normalize [DecidableEq α] (key : α → κ) (items : List α) : List α := dedup (sort key items)

theorem canonical_iff_pairwise {key : α → κ} {items : List α} :
    Canonical key items ↔ items.Pairwise fun a b ↦ key a < key b := by
  have : IsTrans α fun a b ↦ key a < key b := ⟨fun _ _ _ h h' ↦ lt_trans h h'⟩
  exact List.isChain_iff_pairwise

@[simp] theorem canonical_nil (key : α → κ) : Canonical key [] := List.isChain_nil

@[simp] theorem canonical_singleton (key : α → κ) (a : α) : Canonical key [a] :=
  List.isChain_singleton a

theorem Canonical.nodup {key : α → κ} {items : List α} (h : Canonical key items) :
    items.Nodup :=
  (canonical_iff_pairwise.mp h).imp fun hlt heq ↦ hlt.ne (congrArg key heq)

theorem Canonical.pairwise {key : α → κ} {items : List α} (h : Canonical key items) :
    items.Pairwise fun a b ↦ key a ≤ key b :=
  (canonical_iff_pairwise.mp h).imp le_of_lt

theorem Canonical.sublist {key : α → κ} {items part : List α} (h : Canonical key items)
    (hpart : part.Sublist items) : Canonical key part :=
  canonical_iff_pairwise.mpr ((canonical_iff_pairwise.mp h).sublist hpart)

/-- What stands in front of an item of a canonical list are the items with a smaller key. -/
theorem Canonical.mem_front_iff {key : α → κ} {front rest : List α} {a b : α}
    (h : Canonical key (front ++ a :: rest)) :
    b ∈ front ↔ b ∈ front ++ a :: rest ∧ key b < key a := by
  obtain ⟨-, hrest, hfront⟩ := List.pairwise_append.mp (canonical_iff_pairwise.mp h)
  constructor
  · exact fun hb ↦ ⟨List.mem_append_left _ hb, hfront b hb a List.mem_cons_self⟩
  · rintro ⟨hb, hless⟩
    rcases List.mem_append.mp hb with hb | hb
    · exact hb
    · rcases List.mem_cons.mp hb with rfl | hb
      · exact absurd hless (lt_irrefl _)
      · exact absurd hless (lt_asymm (List.rel_of_pairwise_cons hrest hb))

/-- An item whose key comes after every key of a canonical list may stand at its end. -/
theorem Canonical.concat {key : α → κ} {items : List α} {a : α} (h : Canonical key items)
    (hlast : ∀ b ∈ items, key b < key a) : Canonical key (items ++ [a]) := by
  refine canonical_iff_pairwise.mpr (List.pairwise_append.mpr
    ⟨canonical_iff_pairwise.mp h, List.pairwise_singleton _ _, fun b hb last hmem ↦ ?_⟩)
  rw [List.mem_singleton.mp hmem]
  exact hlast b hb

/-- A canonical list is determined by its members. -/
theorem Canonical.eq_of_mem_iff {key : α → κ} {first second : List α}
    (hfirst : Canonical key first) (hsecond : Canonical key second)
    (hmem : ∀ a, a ∈ first ↔ a ∈ second) : first = second := by
  have hperm : first.Perm second :=
    (List.perm_ext_iff_of_nodup hfirst.nodup hsecond.nodup).mpr hmem
  refine hperm.eq_of_pairwise (fun a b _ _ hab hba ↦ absurd hab (lt_asymm hba))
    (canonical_iff_pairwise.mp hfirst) (canonical_iff_pairwise.mp hsecond)

@[simp] theorem mem_sort {key : α → κ} {items : List α} {a : α} :
    a ∈ sort key items ↔ a ∈ items := List.mem_insertionSort _

theorem sort_perm (key : α → κ) (items : List α) : (sort key items).Perm items :=
  List.perm_insertionSort _ _

theorem sort_pairwise (key : α → κ) (items : List α) :
    (sort key items).Pairwise fun a b ↦ key a ≤ key b := by
  have htotal : Std.Total fun a b : α ↦ key a ≤ key b := ⟨fun a b ↦ le_total (key a) (key b)⟩
  have htrans : IsTrans α fun a b : α ↦ key a ≤ key b := ⟨fun _ _ _ h h' ↦ le_trans h h'⟩
  exact List.pairwise_insertionSort _ _

/-- Sorting a list whose keys are distinct makes it canonical. -/
theorem sort_canonical {key : α → κ} {items : List α}
    (hdistinct : items.Pairwise fun a b ↦ key a ≠ key b) : Canonical key (sort key items) := by
  rw [canonical_iff_pairwise]
  have hsorted : (sort key items).Pairwise fun a b ↦ key a ≠ key b :=
    (sort_perm key items).symm.pairwise hdistinct fun hab ↦ Ne.symm hab
  exact ((sort_pairwise key items).and hsorted).imp fun ⟨hle, hne⟩ ↦ lt_of_le_of_ne hle hne

/-- A sorted list none of whose neighbours have equal keys is canonical. -/
theorem canonical_of_neighbours {key : α → κ} {items : List α}
    (hsorted : items.Pairwise fun a b ↦ key a ≤ key b)
    (hdistinct : items.IsChain fun a b ↦ key a ≠ key b) : Canonical key items := by
  induction hdistinct with
  | nil => exact canonical_nil key
  | singleton a => exact canonical_singleton key a
  | @cons_cons a b rest hne _ ih =>
    have hle : key a ≤ key b := List.rel_of_pairwise_cons hsorted List.mem_cons_self
    exact List.IsChain.cons_cons (lt_of_le_of_ne hle hne) (ih hsorted.of_cons)

theorem sort_eq_self {key : α → κ} {items : List α} (h : Canonical key items) :
    sort key items = items := by
  have hle : items.Pairwise fun a b ↦ key a ≤ key b :=
    (canonical_iff_pairwise.mp h).imp fun hlt ↦ le_of_lt hlt
  exact hle.insertionSort_eq

/-- Sorting commutes with a change of representation. -/
theorem sort_map {β : Type} {key : α → κ} (f : β → α) (items : List β) :
    sort key (items.map f) = (sort (fun b ↦ key (f b)) items).map f :=
  (List.map_insertionSort _ _ f items fun _ _ _ _ ↦ Iff.rfl).symm

section Dedup

variable [DecidableEq α]

@[simp] theorem mem_dedup {items : List α} {a : α} : a ∈ dedup items ↔ a ∈ items := by
  induction items using dedup.induct with
  | case1 => rfl
  | case2 b => rfl
  | case3 b rest ih =>
    rw [dedup, if_pos rfl, ih]
    simp
  | case4 b c rest hne ih =>
    rw [dedup, if_neg hne, List.mem_cons, ih, List.mem_cons (a := a) (b := b)]

theorem dedup_sublist (items : List α) : (dedup items).Sublist items := by
  induction items using dedup.induct with
  | case1 => exact .slnil
  | case2 b => exact List.Sublist.refl _
  | case3 b rest ih =>
    rw [dedup, if_pos rfl]
    exact ih.cons _
  | case4 b c rest hne ih =>
    rw [dedup, if_neg hne]
    exact ih.cons_cons _

/-- A sorted list without repeats is canonical. -/
theorem dedup_canonical {key : α → κ} (hkey : Function.Injective key) {items : List α}
    (h : items.Pairwise fun a b ↦ key a ≤ key b) : Canonical key (dedup items) := by
  rw [canonical_iff_pairwise]
  induction items using dedup.induct with
  | case1 => exact List.Pairwise.nil
  | case2 b => exact List.pairwise_singleton _ _
  | case3 b rest ih =>
    rw [dedup, if_pos rfl]
    exact ih h.of_cons
  | case4 b c rest hne ih =>
    rw [dedup, if_neg hne]
    refine List.Pairwise.cons (fun a ha ↦ ?_) (ih h.of_cons)
    rw [mem_dedup] at ha
    have hbc : key b < key c :=
      lt_of_le_of_ne (List.rel_of_pairwise_cons h List.mem_cons_self) fun heq ↦ hne (hkey heq)
    rcases List.mem_cons.mp ha with rfl | ha
    · exact hbc
    · exact lt_of_lt_of_le hbc (List.rel_of_pairwise_cons h.of_cons ha)

theorem dedup_eq_self {key : α → κ} {items : List α} (h : Canonical key items) :
    dedup items = items := by
  induction items using dedup.induct with
  | case1 => rfl
  | case2 b => rfl
  | case3 b rest ih =>
    exact absurd (List.rel_of_pairwise_cons (canonical_iff_pairwise.mp h) List.mem_cons_self)
      (lt_irrefl _)
  | case4 b c rest hne ih =>
    rw [dedup, if_neg hne, ih (h.sublist (List.sublist_cons_self _ _))]

@[simp] theorem mem_normalize {key : α → κ} {items : List α} {a : α} :
    a ∈ normalize key items ↔ a ∈ items := by
  rw [normalize, mem_dedup, mem_sort]

theorem normalize_canonical {key : α → κ} (hkey : Function.Injective key) (items : List α) :
    Canonical key (normalize key items) := dedup_canonical hkey (sort_pairwise key items)

theorem length_normalize_le (key : α → κ) (items : List α) :
    (normalize key items).length ≤ items.length :=
  (dedup_sublist _).length_le.trans_eq (List.length_insertionSort _ _)

theorem normalize_eq_self {key : α → κ} {items : List α} (h : Canonical key items) :
    normalize key items = items := by
  rw [normalize, sort_eq_self h, dedup_eq_self h]

/-- The canonical form sees neither the order nor the multiplicity of the elements. -/
theorem normalize_congr {key : α → κ} (hkey : Function.Injective key) {first second : List α}
    (hmem : ∀ a, a ∈ first ↔ a ∈ second) : normalize key first = normalize key second :=
  (normalize_canonical hkey first).eq_of_mem_iff (normalize_canonical hkey second)
    fun a ↦ by rw [mem_normalize, mem_normalize, hmem]

theorem normalize_eq_nil {key : α → κ} {items : List α} :
    normalize key items = [] ↔ items = [] := by
  rw [List.eq_nil_iff_forall_not_mem, List.eq_nil_iff_forall_not_mem]
  simp only [mem_normalize]

end Dedup

/-! ### Binary search -/

section Search

/-- Where the search of a slice ends: the window is halved until one element is left, whatever is
met on the way. -/
def searchWindow (key : α → κ) (items : List α) (target : κ) (base size : ℕ) : ℕ :=
  if h : 1 < size then
    let middle := base + size / 2
    let below := match items[middle]? with
      | some a => decide (target < key a)
      | none => false
    searchWindow key items target (if below then base else middle) (size - size / 2)
  else base
  termination_by size

/-- Binary search by key. On a list that is not sorted it may miss an element, but it never reports
one that is not there. -/
def binarySearch (key : α → κ) (items : List α) (target : κ) : Bool :=
  items[searchWindow key items target 0 items.length]?.any fun a ↦ key a = target

theorem exists_of_binarySearch {key : α → κ} {items : List α} {target : κ}
    (h : binarySearch key items target = true) : ∃ a ∈ items, key a = target := by
  obtain ⟨a, ha, hkey⟩ := (Option.any_eq_true _ _).mp h
  exact ⟨a, List.mem_of_getElem? ha, of_decide_eq_true hkey⟩

theorem getElem_le {key : α → κ} {items : List α}
    (hsorted : items.Pairwise fun a b ↦ key a ≤ key b) {i j : ℕ} (hij : i ≤ j)
    (hj : j < items.length) : key (items.get ⟨i, hij.trans_lt hj⟩) ≤ key items[j] := by
  rcases hij.eq_or_lt with rfl | hlt
  · exact le_rfl
  · exact List.pairwise_iff_getElem.mp hsorted i j _ hj hlt

/-- On a sorted list the window never loses an element with the target key. -/
theorem searchWindow_finds {key : α → κ} {items : List α}
    (hsorted : items.Pairwise fun a b ↦ key a ≤ key b) {target : κ} {base size i : ℕ}
    (hsize : base + size ≤ items.length) (hbase : base ≤ i) (hi : i < base + size)
    (hkey : key (items.get ⟨i, hi.trans_le hsize⟩) = target) :
    ∃ a, items[searchWindow key items target base size]? = some a ∧ key a = target := by
  induction size using Nat.strong_induction_on generalizing base i with
  | _ size ih =>
    by_cases hlt : 1 < size
    · have hmiddle : base + size / 2 < items.length := by omega
      rw [searchWindow, dif_pos hlt]
      dsimp only
      rw [List.getElem?_eq_getElem hmiddle]
      by_cases hless : target < key items[base + size / 2]
      · -- everything from the middle on is above the target
        have hleft : i < base + size / 2 := by
          by_contra hright
          have := getElem_le hsorted (Nat.not_lt.mp hright) (hi.trans_le hsize)
          exact absurd (hkey ▸ hless) (not_lt.mpr this)
        rw [if_pos (decide_eq_true hless)]
        exact ih _ (by omega) (by omega) hbase (by omega) hkey
      · rw [if_neg (by simpa using hless)]
        by_cases hright : base + size / 2 ≤ i
        · exact ih _ (by omega) (by omega) hright (by omega) hkey
        · -- the middle is not above the target, and not below an element of its key
          have hle := getElem_le hsorted (Nat.le_of_not_le hright) hmiddle
          rw [hkey] at hle
          exact ih _ (by omega) (by omega) le_rfl (by omega) (le_antisymm (not_lt.mp hless) hle)
    · obtain rfl : i = base := by omega
      rw [searchWindow, dif_neg hlt]
      exact ⟨items[i], List.getElem?_eq_getElem _, hkey⟩

/-- Binary search on a sorted list finds the keys of its elements. -/
theorem binarySearch_of_mem {key : α → κ} {items : List α}
    (hsorted : items.Pairwise fun a b ↦ key a ≤ key b) {a : α} (ha : a ∈ items) :
    binarySearch key items (key a) = true := by
  obtain ⟨i, hi, hat⟩ := List.getElem_of_mem ha
  have hsize : 0 + items.length ≤ items.length := (Nat.zero_add _).le
  have hwindow : i < 0 + items.length := (Nat.zero_add _).symm ▸ hi
  obtain ⟨b, hb, hkey⟩ :=
    searchWindow_finds hsorted hsize (Nat.zero_le i) hwindow (congrArg key hat)
  rw [binarySearch, hb]
  exact decide_eq_true hkey

/-- Binary search decides membership in a sorted list. -/
theorem binarySearch_iff {key : α → κ} (hinjective : Function.Injective key) {items : List α}
    (hsorted : items.Pairwise fun a b ↦ key a ≤ key b) {a : α} :
    binarySearch key items (key a) = true ↔ a ∈ items := by
  constructor
  · intro h
    obtain ⟨b, hb, hkey⟩ := exists_of_binarySearch h
    exact hinjective hkey ▸ hb
  · exact binarySearch_of_mem hsorted

end Search

end ContextMesh.Ordered
