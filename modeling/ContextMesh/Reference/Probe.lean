import ContextMesh.Reference.World
import ContextMesh.Ledger.Changes

/-!
The world of an evaluation with two tasks of one note: the key of the fixture author, for each task
the genesis and the critical child as that author signs them, and the stores that hold those of the
first task.
-/

set_option autoImplicit false
set_option relaxedAutoImplicit false

namespace ContextMesh.Reference.Probe

open Checked Ordered Contract Store

/-- The test value with one byte throughout. -/
def filled (byte : UInt8) : Fixed 32 := ⟨List.replicate 32 byte, List.length_replicate⟩

def seed : Fixed 32 := filled 9

def context : ContextId := ⟨filled 1⟩

/-- The context of the second task. -/
def otherContext : ContextId := ⟨filled 2⟩

def identity : SigningIdentity := ⟨seed⟩

def author : AuthorId := ⟨⟨[
    253, 23, 36, 56, 90, 160, 199, 91, 100, 251, 120, 205, 96, 47, 161, 217, 145, 253, 235, 247,
    107, 19, 197, 142, 215, 2, 234, 200, 53, 233, 246, 24], rfl⟩⟩

def root : Signed where
  body := ⟨EVENT_VERSION, context, [], "context.genesis", author, .obj [("note", .str "root")]⟩
  id := ⟨[
    173, 102, 127, 26, 18, 121, 35, 252, 194, 102, 206, 101, 91, 93, 154, 158, 49, 40, 161, 239,
    224, 245, 84, 210, 114, 237, 198, 219, 1, 96, 207, 8], rfl⟩
  signature := ⟨[
    142, 250, 174, 223, 197, 199, 8, 217, 41, 143, 39, 20, 134, 34, 187, 136, 143, 66, 37, 45, 0,
    227, 45, 243, 150, 192, 163, 41, 82, 162, 157, 128, 104, 111, 110, 216, 59, 92, 133, 198, 180,
    85, 241, 176, 53, 122, 168, 169, 25, 119, 222, 80, 194, 254, 104, 205, 93, 73, 105, 65, 97,
    199, 252, 9], rfl⟩

/-- The critical child, at the first index. -/
def note : Signed where
  body := ⟨EVENT_VERSION, context, [⟨root.id⟩], "agent.note", author,
    .obj [("note", .str "alpha"), ("value", .num (.posInt 1))]⟩
  id := ⟨[
    54, 243, 41, 68, 197, 15, 200, 243, 229, 135, 18, 128, 189, 216, 10, 188, 195, 174, 161, 175,
    97, 73, 188, 176, 111, 37, 199, 159, 136, 215, 98, 217], rfl⟩
  signature := ⟨[
    170, 134, 239, 124, 176, 249, 35, 38, 40, 250, 70, 139, 147, 252, 77, 141, 204, 159, 202, 93,
    189, 221, 62, 93, 47, 79, 160, 46, 15, 247, 87, 68, 187, 209, 4, 20, 80, 179, 128, 0, 120,
    245, 154, 33, 163, 109, 58, 83, 175, 246, 231, 207, 235, 112, 58, 4, 13, 96, 184, 101, 98,
    255, 244, 4], rfl⟩

def otherRoot : Signed where
  body := ⟨EVENT_VERSION, otherContext, [], "context.genesis", author,
    .obj [("note", .str "root")]⟩
  id := ⟨[
    235, 225, 74, 135, 6, 99, 157, 203, 131, 37, 80, 163, 198, 54, 246, 164, 118, 230, 199, 62,
    116, 46, 104, 164, 63, 89, 32, 151, 85, 252, 71, 100], rfl⟩
  signature := ⟨[
    44, 107, 117, 213, 95, 70, 130, 31, 58, 92, 110, 222, 163, 176, 116, 195, 151, 106, 29, 1, 11,
    18, 111, 177, 108, 27, 180, 205, 183, 190, 255, 194, 113, 73, 62, 102, 126, 20, 228, 40, 36,
    69, 253, 201, 232, 91, 255, 49, 58, 174, 233, 158, 39, 134, 183, 34, 53, 103, 206, 234, 37, 6,
    235, 8], rfl⟩

/-- The critical child of the second task. -/
def otherNote : Signed where
  body := ⟨EVENT_VERSION, otherContext, [⟨otherRoot.id⟩], "agent.note", author,
    .obj [("note", .str "alpha"), ("value", .num (.posInt 1))]⟩
  id := ⟨[
    48, 144, 77, 249, 27, 50, 167, 90, 66, 90, 71, 134, 195, 68, 128, 147, 24, 31, 182, 179, 166,
    38, 50, 27, 251, 0, 144, 231, 199, 51, 130, 106], rfl⟩
  signature := ⟨[
    141, 101, 108, 199, 38, 104, 225, 222, 245, 97, 120, 124, 89, 23, 226, 217, 146, 15, 230, 163,
    44, 21, 114, 42, 23, 196, 199, 73, 171, 7, 150, 75, 10, 90, 30, 56, 130, 15, 155, 220, 207,
    172, 48, 24, 87, 82, 242, 142, 239, 79, 227, 102, 86, 148, 6, 2, 5, 201, 111, 228, 98, 23, 134,
    8], rfl⟩

def table : List Signed := [root, note, otherRoot, otherNote]

theorem mem_table {s : Signed} :
    s ∈ table ↔ s = root ∨ s = note ∨ s = otherRoot ∨ s = otherNote := by
  simp only [table, List.mem_cons, List.not_mem_nil, or_false]

theorem root_mem : root ∈ table := List.mem_cons_self

theorem note_mem : note ∈ table := mem_table.mpr (Or.inr (Or.inl rfl))

theorem otherRoot_mem : otherRoot ∈ table := mem_table.mpr (Or.inr (Or.inr (Or.inl rfl)))

theorem otherNote_mem : otherNote ∈ table := mem_table.mpr (Or.inr (Or.inr (Or.inr rfl)))

def world : World := ⟨[(seed, author.bytes)], table, fun _ _ ↦ zeros 32⟩

abbrev B : Boundary := world.boundary

theorem settled_payload {s : Signed} (h : s ∈ table) (B : Boundary) :
    Settled B s.body.payload := by
  have hroot : Settled B (.obj [("note", .str "root")]) :=
    settled_obj (List.pairwise_singleton _ _) fun _ hm ↦
      List.mem_singleton.mp hm ▸ settled_str _
  have hnote : Settled B (.obj [("note", .str "alpha"), ("value", .num (.posInt 1))]) := by
    refine settled_obj (increasing_of_names ["note", "value"] rfl (by decide)) fun m hm ↦ ?_
    rcases List.mem_cons.mp hm with rfl | hm
    · exact settled_str _
    · rw [List.mem_singleton.mp hm]
      exact settled_posInt (by decide)
  rcases mem_table.mp h with rfl | rfl | rfl | rfl
  · exact hroot
  · exact hnote
  · exact hroot
  · exact hnote

theorem payload_length {s : Signed} (h : s ∈ table) :
    canonicalLength B s.body.payload ≤ 40 := by
  rcases mem_table.mp h with rfl | rfl | rfl | rfl <;> decide

theorem author_identity : author = identity.author B := rfl

theorem version_eq {s : Signed} (h : s ∈ table) : s.body.version = EVENT_VERSION := by
  rcases mem_table.mp h with rfl | rfl | rfl | rfl <;> rfl

theorem author_eq {s : Signed} (h : s ∈ table) : s.body.author = author := by
  rcases mem_table.mp h with rfl | rfl | rfl | rfl <;> rfl

theorem validate {s : Signed} (h : s ∈ table) : s.body.validate B = .ok () := by
  have hpayload := payload_length h
  have hkind : validateKind s.body.kind = .ok () := by
    rcases mem_table.mp h with rfl | rfl | rfl | rfl <;> rfl
  have hparents : s.body.parents.length ≤ 1 := by
    rcases mem_table.mp h with rfl | rfl | rfl | rfl <;> decide
  have hsorted : Canonical (EventId.text B) s.body.parents := by
    rcases mem_table.mp h with rfl | rfl | rfl | rfl
    · exact canonical_nil _
    · exact canonical_singleton _ _
    · exact canonical_nil _
    · exact canonical_singleton _ _
  have hlength := EventBodyV1.canonicalLength_toJson (B := B) (version_eq h) hkind
  have hbytes := (dottedName_plain hkind).1
  have hmax : MAX_KIND_BYTES = 64 ∧ MAX_PARENTS = 64 ∧ MAX_CANONICAL_BODY_BYTES = 1114112 ∧
    MAX_CANONICAL_PAYLOAD_BYTES = 1048576 := ⟨rfl, rfl, rfl, rfl⟩
  rw [EventBodyV1.validate_eq_ok]
  refine ⟨version_eq h, by omega, hkind, hsorted, ?_, by omega, by omega⟩
  rcases mem_table.mp h with rfl | rfl | rfl | rfl <;> rfl

theorem sound : world.Sound where
  bodies := by
    have hkeys : (table.map fun s ↦ (s.body.kind, s.body.context)).Nodup := by decide
    have hsettled (s : Signed) (h : s ∈ table) : Settled silent (s.body.toJson silent) :=
      EventBodyV1.settled_toJson (version_eq h) (settled_payload h silent)
    rw [List.Nodup, List.pairwise_map] at hkeys ⊢
    refine hkeys.imp_of_mem fun hs ht hne hsame ↦ hne ?_
    obtain ⟨hkind, -, hcontext⟩ := World.bodyBytes_inj (hsettled _ hs) (hsettled _ ht) hsame
    rw [hkind, hcontext]
  ids := by decide
  authors := fun s hs ↦ by
    rw [author_eq hs]
    exact List.mem_singleton_self _

def stored (s : Signed) (h : s ∈ table) : StoredEvent B :=
  ⟨s.event, s.wire, World.authentic sound h (validate h)
    (SignedEventV1.settled_toJson (version_eq h) (settled_payload h B))⟩

def first : StoredEvent B := stored root root_mem

def second : StoredEvent B := stored note note_mem

/-- The genesis of the second task. -/
def third : StoredEvent B := stored otherRoot otherRoot_mem

def fourth : StoredEvent B := stored otherNote otherNote_mem

theorem first_ne_second : first.id ≠ second.id := by decide

/-- The author creates the events of the table. -/
theorem createEvent_eq {s : Signed} (h : s ∈ table) :
    identity.createEvent B s.body.context s.body.parents s.body.kind s.body.payload =
      .ok s.event :=
  World.createEvent_eq sound h (validate h) ((author_eq h).trans author_identity) (version_eq h)

/-! ### Stores -/

def main : LocalRefName := ⟨"main", validateName_main⟩

def provisioned : Ledger B := Ledger.empty.provision context first.id [author]

def rooted : Ledger B := provisioned.record first

def grown : Ledger B := rooted.record second

/-- The branch points at the child. -/
def planted : Ledger B := grown.setLocal ⟨context, main, second.id⟩

theorem provisioned_wellFormed : provisioned.WellFormed :=
  Ledger.WellFormed.empty.provision rfl (by simp) (List.nodup_singleton _)

theorem first_admits : provisioned.Admits first where
  registered := ⟨_, List.mem_singleton_self _, rfl, rfl, rfl, rfl⟩
  authorized := List.mem_singleton_self _
  parents := fun _ hparent ↦ absurd hparent List.not_mem_nil
  sameWire := fun _ hf ↦ absurd hf List.not_mem_nil

theorem rooted_wellFormed : rooted.WellFormed := provisioned_wellFormed.record first_admits rfl

theorem second_fresh : rooted.find second.id = none :=
  Ledger.find_eq_none.mpr fun _ he ↦ List.mem_singleton.mp he ▸ first_ne_second

theorem second_admits : rooted.Admits second where
  registered := ⟨⟨context, first.id, true⟩, List.mem_singleton_self _, rfl,
    Or.inr (by decide)⟩
  authorized := List.mem_singleton_self _
  parents := fun parent hparent ↦ ⟨first, List.mem_singleton_self _,
    (List.mem_singleton.mp hparent).symm, rfl⟩
  sameWire := fun f hf hid ↦ absurd (List.mem_singleton.mp hf ▸ hid) first_ne_second

theorem grown_wellFormed : grown.WellFormed := rooted_wellFormed.record second_admits second_fresh

theorem planted_wellFormed : planted.WellFormed :=
  grown_wellFormed.setLocal ⟨second, List.mem_append_right _ (List.mem_singleton_self _), rfl, rfl⟩

end ContextMesh.Reference.Probe
