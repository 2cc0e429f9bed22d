import ContextMesh.Reference.World
import ContextMesh.Ledger.Changes

/-!
The world of the frozen bundle fixture: its key, its genesis and its request with their published
identifiers and signatures, and the stores that hold them.
-/

set_option autoImplicit false
set_option relaxedAutoImplicit false

namespace ContextMesh.Reference.Golden

open Checked Ordered Contract Store

def seed : Fixed 32 := ⟨List.replicate 32 41, List.length_replicate⟩

def context : ContextId := ⟨⟨List.replicate 32 0x29, List.length_replicate⟩⟩

def identity : SigningIdentity := ⟨seed⟩

def author : AuthorId := ⟨⟨[
    250, 72, 52, 20, 127, 110, 105, 12, 54, 147, 239, 246, 19, 54, 4, 100, 3, 205, 138, 226, 161,
    79, 49, 179, 196, 7, 53, 133, 105, 35, 149, 101], rfl⟩⟩

/-- The genesis of the fixture. -/
def genesis : Signed where
  body := ⟨EVENT_VERSION, context, [], "context.genesis", author, .obj []⟩
  id := ⟨[
    108, 67, 214, 245, 12, 157, 185, 56, 178, 217, 163, 18, 165, 212, 232, 0, 115, 160, 197, 28,
    15, 205, 20, 102, 40, 213, 221, 221, 54, 28, 103, 181], rfl⟩
  signature := ⟨[
    58, 146, 107, 197, 114, 248, 102, 179, 131, 148, 116, 121, 161, 89, 132, 211, 77, 139, 183,
    24, 74, 184, 105, 91, 99, 171, 207, 6, 233, 27, 196, 234, 33, 125, 21, 255, 83, 187, 131, 21,
    223, 214, 9, 131, 43, 43, 199, 7, 211, 218, 132, 133, 109, 205, 132, 175, 21, 133, 209, 85,
    123, 246, 135, 9], rfl⟩

/-- The request of the fixture, a child of the genesis. -/
def request : Signed where
  body := ⟨EVENT_VERSION, context, [⟨genesis.id⟩], "agent.request", author,
    .obj [("fixture", .str "oa03-bundle-v1")]⟩
  id := ⟨[
    41, 4, 18, 132, 253, 150, 26, 123, 232, 77, 116, 179, 115, 131, 27, 62, 228, 169, 231, 136,
    174, 251, 168, 240, 171, 246, 135, 63, 7, 236, 140, 243], rfl⟩
  signature := ⟨[
    255, 142, 123, 184, 38, 220, 175, 158, 83, 221, 187, 76, 74, 49, 105, 169, 142, 83, 114, 55,
    1, 26, 58, 231, 39, 212, 19, 135, 190, 117, 116, 127, 23, 246, 116, 177, 156, 197, 109, 146,
    252, 87, 177, 92, 18, 28, 168, 51, 184, 133, 55, 51, 142, 122, 52, 23, 182, 64, 134, 146,
    149, 253, 64, 3], rfl⟩

def world : World := ⟨[(seed, author.bytes)], [genesis, request], fun _ _ ↦ zeros 32⟩

abbrev B : Boundary := world.boundary

theorem settled_payload (s : Signed) (h : s = genesis ∨ s = request) (B : Boundary) :
    Settled B s.body.payload := by
  rcases h with rfl | rfl
  · exact settled_obj List.Pairwise.nil (by simp)
  · exact settled_obj (List.pairwise_singleton _ _) fun m hm ↦ by
      rw [List.mem_singleton] at hm
      exact hm ▸ settled_str _

theorem validate (s : Signed) (h : s = genesis ∨ s = request) :
    s.body.validate B = .ok () := by
  have hpayload : canonicalLength B s.body.payload ≤ 40 := by
    rcases h with rfl | rfl <;> decide
  have hkind : validateKind s.body.kind = .ok () := by
    rcases h with rfl | rfl <;> rfl
  have hversion : s.body.version = EVENT_VERSION := by
    rcases h with rfl | rfl <;> rfl
  have hparents : s.body.parents.length ≤ 1 := by
    rcases h with rfl | rfl <;> decide
  have hlength := EventBodyV1.canonicalLength_toJson (B := B) hversion hkind
  have hbytes := (dottedName_plain hkind).1
  have hmax : MAX_KIND_BYTES = 64 ∧ MAX_PARENTS = 64 ∧ MAX_CANONICAL_BODY_BYTES = 1114112 ∧
    MAX_CANONICAL_PAYLOAD_BYTES = 1048576 := ⟨rfl, rfl, rfl, rfl⟩
  rw [EventBodyV1.validate_eq_ok]
  refine ⟨hversion, by omega, hkind, ?_, ?_, by omega, by omega⟩
  · rcases h with rfl | rfl
    · exact canonical_nil _
    · exact canonical_singleton _ _
  · rcases h with rfl | rfl <;> rfl

theorem sound : world.Sound where
  bodies := by
    have hsettled (s : Signed) (h : s = genesis ∨ s = request) :
        Settled silent (s.body.toJson silent) :=
      EventBodyV1.settled_toJson (by rcases h with rfl | rfl <;> rfl) (settled_payload s h silent)
    have hne : genesis.bodyBytes ≠ request.bodyBytes := fun heq ↦
      absurd (World.bodyBytes_inj (hsettled _ (Or.inl rfl)) (hsettled _ (Or.inr rfl)) heq).1
        (by decide)
    simpa [world] using hne
  ids := by decide
  authors := by
    intro s hs
    simp only [world, List.mem_cons, List.not_mem_nil, or_false] at hs
    rcases hs with rfl | rfl <;> exact List.mem_singleton_self _

def stored (s : Signed) (h : s = genesis ∨ s = request) : StoredEvent B :=
  ⟨s.event, s.wire, World.authentic sound (by simpa [world] using h) (validate s h)
    (SignedEventV1.settled_toJson (by rcases h with rfl | rfl <;> rfl) (settled_payload s h B))⟩

def first : StoredEvent B := stored genesis (Or.inl rfl)

def second : StoredEvent B := stored request (Or.inr rfl)

theorem first_parents : first.parents = [] := rfl

theorem second_parents : second.parents = [first.id] := rfl

theorem second_kind : second.kind = "agent.request" := rfl

theorem first_ne_second : first.id ≠ second.id := by decide

def main : LocalRefName := ⟨"main", validateName_main⟩

def side : LocalRefName := ⟨"side", rfl⟩

def peer : PeerName := ⟨"peer", rfl⟩

/-! ### Stores -/

/-- The context is provisioned and pending. -/
def provisioned : Ledger B := Ledger.empty.provision context first.id [author]

/-- The context is active. -/
def rooted : Ledger B := provisioned.record first

/-- The branch points at the genesis. -/
def branched : Ledger B := rooted.setLocal ⟨context, main, first.id⟩

/-- The request is stored, too. -/
def grown : Ledger B := branched.record second

/-- The branch points at the request. -/
def advanced : Ledger B := grown.setLocal ⟨context, main, second.id⟩

theorem provisioned_wellFormed : provisioned.WellFormed :=
  Ledger.WellFormed.empty.provision rfl (by simp) (List.nodup_singleton _)

theorem first_admits : provisioned.Admits first where
  registered := ⟨_, List.mem_singleton_self _, rfl, rfl, rfl, rfl⟩
  authorized := List.mem_singleton_self _
  parents := by simp [first_parents]
  sameWire := by simp [provisioned, Ledger.provision, Ledger.empty]

theorem rooted_wellFormed : rooted.WellFormed :=
  provisioned_wellFormed.record first_admits rfl

theorem branched_wellFormed : branched.WellFormed :=
  rooted_wellFormed.setLocal ⟨first, List.mem_singleton_self _, rfl, rfl⟩

theorem second_fresh : branched.find second.id = none :=
  Ledger.find_eq_none.mpr fun e he ↦ by
    rw [List.mem_singleton.mp he]
    exact first_ne_second

theorem second_admits (L : Ledger B) (hregistrations : L.registrations = rooted.registrations)
    (hauthors : L.authors = rooted.authors) (hevents : L.events = [first]) :
    L.Admits second where
  registered := ⟨⟨context, first.id, true⟩, by rw [hregistrations]; exact List.mem_singleton_self _,
    rfl, Or.inr (by simp [second_parents, second_kind])⟩
  authorized := by
    rw [hauthors]
    exact List.mem_singleton_self _
  parents := by
    intro parent hparent
    rw [second_parents, List.mem_singleton] at hparent
    exact ⟨first, by rw [hevents]; exact List.mem_singleton_self _, hparent.symm, rfl⟩
  sameWire := by
    intro f hf hid
    rw [hevents, List.mem_singleton] at hf
    exact absurd (hf ▸ hid) first_ne_second

theorem grown_wellFormed : grown.WellFormed :=
  branched_wellFormed.record (second_admits branched rfl rfl rfl) second_fresh

theorem advanced_wellFormed : advanced.WellFormed :=
  grown_wellFormed.setLocal ⟨second, List.mem_append_right _ (List.mem_singleton_self _), rfl, rfl⟩

end ContextMesh.Reference.Golden
