import ContextMesh.Contract.Json

/-!
The plain reading of a document, which the library's own value type gives. The library passes raw
text through itself as an object whose first member has a name of its own, `RAW_TOKEN`; the build
of the program turns this on. So a document with such an object reads as another value, or not at
all, and no reading holds an object with that member alone.
-/

set_option autoImplicit false
set_option relaxedAutoImplicit false

namespace ContextMesh.Contract

open Checked

/-- The member name under which the library passes raw text. -/
def RAW_TOKEN : String := "$serde_json::private::RawValue"

/-- The object begins with raw text. -/
def BeginsRaw (members : Members) : Prop := members.head?.map Prod.fst = some RAW_TOKEN

instance (members : Members) : Decidable (BeginsRaw members) := by
  unfold BeginsRaw
  infer_instance

/-- The text of an object with one member. -/
def rawText : Members → Option String
  | [(_, .str text)] => some text
  | _ => none

mutual

/-- The plain reading of a document. Every object becomes a sorted map in which the last member of a
name wins, but one that begins with the token is what `read` makes of its text, if it has one and
nothing else. -/
def Json.plain (read : String → Option Json) : Json → Option Json
  | .null => some .null
  | .bool b => some (.bool b)
  | .num n => some (.num n)
  | .str s => some (.str s)
  | .arr items => (plainItems read items).map .arr
  | .obj members =>
    if BeginsRaw members then (rawText members).bind read
    else (plainMembers read [] members).map .obj

def plainItems (read : String → Option Json) : List Json → Option (List Json)
  | [] => some []
  | v :: rest => (v.plain read).bind fun w ↦ (plainItems read rest).map (w :: ·)

def plainMembers (read : String → Option Json) (values : Members) : Members → Option Members
  | [] => some values
  | (name, v) :: rest =>
    (v.plain read).bind fun w ↦ plainMembers read (insertMember name w values) rest

end

mutual

/-- No object begins with the token. -/
def Json.Unmarked : Json → Prop
  | .arr items => UnmarkedItems items
  | .obj members => ¬ BeginsRaw members ∧ UnmarkedMembers members
  | _ => True

def UnmarkedItems : List Json → Prop
  | [] => True
  | v :: rest => v.Unmarked ∧ UnmarkedItems rest

def UnmarkedMembers : Members → Prop
  | [] => True
  | (_, v) :: rest => v.Unmarked ∧ UnmarkedMembers rest

end

mutual

/-- No object has the token for its only member. -/
def Json.Bare : Json → Prop
  | .arr items => BareItems items
  | .obj members => members.map Prod.fst ≠ [RAW_TOKEN] ∧ BareMembers members
  | _ => True

def BareItems : List Json → Prop
  | [] => True
  | v :: rest => v.Bare ∧ BareItems rest

def BareMembers : Members → Prop
  | [] => True
  | (_, v) :: rest => v.Bare ∧ BareMembers rest

end

theorem unmarkedItems_iff {items : List Json} :
    UnmarkedItems items ↔ ∀ v ∈ items, v.Unmarked := by
  induction items with
  | nil => simp [UnmarkedItems]
  | cons v rest ih => rw [UnmarkedItems, ih, List.forall_mem_cons]

theorem unmarkedMembers_iff {members : Members} :
    UnmarkedMembers members ↔ ∀ m ∈ members, m.2.Unmarked := by
  induction members with
  | nil => simp [UnmarkedMembers]
  | cons m rest ih => rw [UnmarkedMembers, ih, List.forall_mem_cons]

/-- An object whose first name is another one begins with no raw text. -/
theorem not_beginsRaw {name : String} {v : Json} {rest : Members} (h : name ≠ RAW_TOKEN) :
    ¬ BeginsRaw ((name, v) :: rest) := fun hraw ↦ h (Option.some.inj hraw)

/-! ### Unmarked documents -/

mutual

/-- An unmarked document reads as its members say. -/
theorem Json.plain_of_unmarked (read : String → Option Json) :
    ∀ v : Json, v.Unmarked → v.plain read = some (v.collect id)
  | .null, _ => rfl
  | .bool _, _ => rfl
  | .num _, _ => rfl
  | .str _, _ => rfl
  | .arr items, h => by
    rw [Json.plain, plainItems_of_unmarked read items h, Json.collect]
    rfl
  | .obj members, h => by
    rw [Json.plain, if_neg h.1, plainMembers_of_unmarked read members [] h.2, Json.collect]
    rfl

theorem plainItems_of_unmarked (read : String → Option Json) :
    ∀ items : List Json, UnmarkedItems items → plainItems read items = some (collectItems id items)
  | [], _ => rfl
  | v :: rest, h => by
    rw [plainItems, Json.plain_of_unmarked read v h.1, Option.bind_some,
      plainItems_of_unmarked read rest h.2]
    rfl

theorem plainMembers_of_unmarked (read : String → Option Json) :
    ∀ members values : Members, UnmarkedMembers members →
      plainMembers read values members = some (collectMembers id values members)
  | [], _, _ => rfl
  | (name, v) :: rest, values, h => by
    rw [plainMembers, Json.plain_of_unmarked read v h.1, Option.bind_some,
      plainMembers_of_unmarked read rest _ h.2, collectMembers]

end

/-! ### What a reading may be -/

theorem mem_names_insertMember {name other : String} {v : Json} {members : Members} :
    other ∈ (insertMember name v members).map Prod.fst ↔
      other = name ∨ other ∈ members.map Prod.fst := by
  induction members with
  | nil => simp [insertMember]
  | cons m rest ih =>
    rw [insertMember]
    split_ifs with hlt heq
    · simp
    · simp [heq]
    · rw [List.map_cons, List.mem_cons, ih, List.map_cons, List.mem_cons]
      tauto

theorem bareMembers_iff {members : Members} : BareMembers members ↔ ∀ m ∈ members, m.2.Bare := by
  induction members with
  | nil => simp [BareMembers]
  | cons m rest ih => rw [BareMembers, ih, List.forall_mem_cons]

theorem bareItems_iff {items : List Json} : BareItems items ↔ ∀ v ∈ items, v.Bare := by
  induction items with
  | nil => simp [BareItems]
  | cons v rest ih => rw [BareItems, ih, List.forall_mem_cons]

theorem sortedItems_iff {items : List Json} : SortedItems items ↔ ∀ v ∈ items, v.Sorted := by
  induction items with
  | nil => simp [SortedItems]
  | cons v rest ih => rw [SortedItems, ih, List.forall_mem_cons]

/-- Every member that is read keeps its name. -/
theorem mem_names_plainMembers {read : String → Option Json} {members values out : Members}
    (h : plainMembers read values members = some out) {name : String} :
    name ∈ out.map Prod.fst ↔ name ∈ values.map Prod.fst ∨ name ∈ members.map Prod.fst := by
  induction members generalizing values with
  | nil =>
    rw [plainMembers, Option.some.injEq] at h
    simp [h]
  | cons m rest ih =>
    rw [plainMembers] at h
    obtain ⟨w, -, h⟩ := Option.bind_eq_some_iff.mp h
    rw [ih h, mem_names_insertMember, List.map_cons, List.mem_cons]
    tauto

section Readings

variable {read : String → Option Json}

mutual

/-- A reading consists of sorted maps, if what is read from raw text does. -/
theorem Json.plain_sorted (hread : ∀ text w, read text = some w → w.Sorted) :
    ∀ v w : Json, v.plain read = some w → w.Sorted
  | .null, w, h => by
    rw [Json.plain, Option.some.injEq] at h
    exact h ▸ trivial
  | .bool _, w, h => by
    rw [Json.plain, Option.some.injEq] at h
    exact h ▸ trivial
  | .num _, w, h => by
    rw [Json.plain, Option.some.injEq] at h
    exact h ▸ trivial
  | .str _, w, h => by
    rw [Json.plain, Option.some.injEq] at h
    exact h ▸ trivial
  | .arr items, w, h => by
    rw [Json.plain] at h
    obtain ⟨values, hvalues, rfl⟩ := Option.map_eq_some_iff.mp h
    exact plainItems_sorted hread items values hvalues
  | .obj members, w, h => by
    rw [Json.plain] at h
    split_ifs at h with hraw
    · obtain ⟨text, -, hw⟩ := Option.bind_eq_some_iff.mp h
      exact hread text w hw
    · obtain ⟨values, hvalues, rfl⟩ := Option.map_eq_some_iff.mp h
      exact plainMembers_sorted hread members [] values List.Pairwise.nil trivial hvalues

theorem plainItems_sorted (hread : ∀ text w, read text = some w → w.Sorted) :
    ∀ items values : List Json, plainItems read items = some values → SortedItems values
  | [], values, h => by
    rw [plainItems, Option.some.injEq] at h
    exact h ▸ trivial
  | v :: rest, values, h => by
    rw [plainItems] at h
    obtain ⟨w, hw, h⟩ := Option.bind_eq_some_iff.mp h
    obtain ⟨ws, hws, rfl⟩ := Option.map_eq_some_iff.mp h
    exact ⟨Json.plain_sorted hread v w hw, plainItems_sorted hread rest ws hws⟩

theorem plainMembers_sorted (hread : ∀ text w, read text = some w → w.Sorted) :
    ∀ members values out : Members, Increasing values → SortedMembers values →
      plainMembers read values members = some out → Increasing out ∧ SortedMembers out
  | [], values, out, hinc, hsorted, h => by
    rw [plainMembers, Option.some.injEq] at h
    exact h ▸ ⟨hinc, hsorted⟩
  | (name, v) :: rest, values, out, hinc, hsorted, h => by
    rw [plainMembers] at h
    obtain ⟨w, hw, h⟩ := Option.bind_eq_some_iff.mp h
    exact plainMembers_sorted hread rest _ out (increasing_insertMember hinc)
      (sortedMembers_insertMember (Json.plain_sorted hread v w hw) hsorted) h

end

mutual

/-- A reading holds no object with the token alone, if nothing read from raw text does: an object
that does not begin with the token keeps the name it begins with. -/
theorem Json.plain_bare (hread : ∀ text w, read text = some w → w.Bare) :
    ∀ v w : Json, v.plain read = some w → w.Bare
  | .null, w, h => by
    rw [Json.plain, Option.some.injEq] at h
    exact h ▸ trivial
  | .bool _, w, h => by
    rw [Json.plain, Option.some.injEq] at h
    exact h ▸ trivial
  | .num _, w, h => by
    rw [Json.plain, Option.some.injEq] at h
    exact h ▸ trivial
  | .str _, w, h => by
    rw [Json.plain, Option.some.injEq] at h
    exact h ▸ trivial
  | .arr items, w, h => by
    rw [Json.plain] at h
    obtain ⟨values, hvalues, rfl⟩ := Option.map_eq_some_iff.mp h
    exact plainItems_bare hread items values hvalues
  | .obj members, w, h => by
    rw [Json.plain] at h
    split_ifs at h with hraw
    · obtain ⟨text, -, hw⟩ := Option.bind_eq_some_iff.mp h
      exact hread text w hw
    · obtain ⟨values, hvalues, rfl⟩ := Option.map_eq_some_iff.mp h
      refine ⟨fun halone ↦ hraw ?_, plainMembers_bare hread members [] values (by simp) hvalues⟩
      cases members with
      | nil =>
        rw [plainMembers, Option.some.injEq] at hvalues
        rw [← hvalues] at halone
        cases halone
      | cons m rest =>
        have hfirst := (mem_names_plainMembers hvalues).mpr (Or.inr (List.mem_map_of_mem
          (f := Prod.fst) (List.mem_cons_self (a := m) (l := rest))))
        rw [halone, List.mem_singleton] at hfirst
        exact congrArg some hfirst

theorem plainItems_bare (hread : ∀ text w, read text = some w → w.Bare) :
    ∀ items values : List Json, plainItems read items = some values → BareItems values
  | [], values, h => by
    rw [plainItems, Option.some.injEq] at h
    exact h ▸ trivial
  | v :: rest, values, h => by
    rw [plainItems] at h
    obtain ⟨w, hw, h⟩ := Option.bind_eq_some_iff.mp h
    obtain ⟨ws, hws, rfl⟩ := Option.map_eq_some_iff.mp h
    exact ⟨Json.plain_bare hread v w hw, plainItems_bare hread rest ws hws⟩

theorem plainMembers_bare (hread : ∀ text w, read text = some w → w.Bare) :
    ∀ members values out : Members, (∀ m ∈ values, m.2.Bare) →
      plainMembers read values members = some out → BareMembers out
  | [], values, out, hbare, h => by
    rw [plainMembers, Option.some.injEq] at h
    exact bareMembers_iff.mpr (h ▸ hbare)
  | (name, v) :: rest, values, out, hbare, h => by
    rw [plainMembers] at h
    obtain ⟨w, hw, h⟩ := Option.bind_eq_some_iff.mp h
    refine plainMembers_bare hread rest _ out (fun m hm ↦ ?_) h
    rcases insertMember_names hm with rfl | hm
    · exact Json.plain_bare hread v w hw
    · exact hbare m hm

end

/-! ### Documents that have a reading -/

mutual

/-- A document that has a reading, and no object with the token alone, is unmarked. -/
theorem Json.unmarked_of_plain :
    ∀ v w : Json, v.Bare → v.plain read = some w → v.Unmarked
  | .null, _, _, _ => trivial
  | .bool _, _, _, _ => trivial
  | .num _, _, _, _ => trivial
  | .str _, _, _, _ => trivial
  | .arr items, w, hbare, h => by
    rw [Json.plain] at h
    obtain ⟨values, hvalues, -⟩ := Option.map_eq_some_iff.mp h
    exact unmarkedItems_of_plain items values hbare hvalues
  | .obj members, w, hbare, h => by
    rw [Json.plain] at h
    split_ifs at h with hraw
    · obtain ⟨text, htext, -⟩ := Option.bind_eq_some_iff.mp h
      refine absurd ?_ hbare.1
      match members, htext, hraw with
      | [(name, .str _)], _, hraw => exact congrArg (fun name ↦ [name]) (Option.some.inj hraw)
    · obtain ⟨values, hvalues, -⟩ := Option.map_eq_some_iff.mp h
      exact ⟨hraw, unmarkedMembers_of_plain members [] values hbare.2 hvalues⟩

theorem unmarkedItems_of_plain :
    ∀ items values : List Json, BareItems items → plainItems read items = some values →
      UnmarkedItems items
  | [], _, _, _ => trivial
  | v :: rest, values, hbare, h => by
    rw [plainItems] at h
    obtain ⟨w, hw, h⟩ := Option.bind_eq_some_iff.mp h
    obtain ⟨ws, hws, -⟩ := Option.map_eq_some_iff.mp h
    exact ⟨Json.unmarked_of_plain v w hbare.1 hw, unmarkedItems_of_plain rest ws hbare.2 hws⟩

theorem unmarkedMembers_of_plain :
    ∀ members values out : Members, BareMembers members →
      plainMembers read values members = some out → UnmarkedMembers members
  | [], _, _, _, _ => trivial
  | (name, v) :: rest, values, out, hbare, h => by
    rw [plainMembers] at h
    obtain ⟨w, hw, h⟩ := Option.bind_eq_some_iff.mp h
    exact ⟨Json.unmarked_of_plain v w hbare.1 hw,
      unmarkedMembers_of_plain rest _ out hbare.2 h⟩

end

end Readings

/-! ### Renewed numbers -/

mutual

/-- Renewing the numbers of a sorted value adds no object with the token alone. -/
theorem Json.bare_collect (renew : Number → Number) :
    ∀ v : Json, v.Sorted → v.Bare → (v.collect renew).Bare
  | .null, _, _ => trivial
  | .bool _, _, _ => trivial
  | .num _, _, _ => trivial
  | .str _, _, _ => trivial
  | .arr items, hsorted, h => by
    rw [Json.collect_arr]
    exact bareItems_collect renew items hsorted h
  | .obj members, hsorted, h => by
    rw [Json.collect_obj _ hsorted.1]
    refine ⟨fun halone ↦ h.1 ?_, bareMembers_collect renew members hsorted.2 h.2⟩
    rw [List.map_map] at halone
    exact halone

theorem bareItems_collect (renew : Number → Number) :
    ∀ items : List Json, SortedItems items → BareItems items →
      BareItems (items.map fun v ↦ v.collect renew)
  | [], _, _ => trivial
  | v :: rest, hsorted, h =>
    ⟨Json.bare_collect renew v hsorted.1 h.1, bareItems_collect renew rest hsorted.2 h.2⟩

theorem bareMembers_collect (renew : Number → Number) :
    ∀ members : Members, SortedMembers members → BareMembers members →
      BareMembers (members.map fun m ↦ (m.1, m.2.collect renew))
  | [], _, _ => trivial
  | (_, v) :: rest, hsorted, h =>
    ⟨Json.bare_collect renew v hsorted.1 h.1, bareMembers_collect renew rest hsorted.2 h.2⟩

end

end ContextMesh.Contract
