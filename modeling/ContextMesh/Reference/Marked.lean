import ContextMesh.Reference.Golden
import ContextMesh.Contract.Plain

/-!
The world of an event whose payload is an object with the raw token alone, signed over the genesis
of the fixture, and the stores that hold it.
-/

set_option autoImplicit false
set_option relaxedAutoImplicit false

namespace ContextMesh.Reference.Marked

open Checked Ordered Contract Store Golden

/-- A request with raw text for its payload, a child of the genesis. -/
def marking : Signed where
  body := ⟨EVENT_VERSION, Golden.context, [⟨genesis.id⟩], "agent.request", author,
    .obj [(RAW_TOKEN, .str "1")]⟩
  id := ⟨[
    58, 169, 46, 64, 117, 187, 206, 187, 203, 129, 16, 207, 75, 110, 211, 123, 49, 250, 133, 225,
    73, 28, 146, 155, 178, 119, 207, 234, 208, 86, 116, 101], rfl⟩
  signature := ⟨[
    42, 135, 147, 206, 184, 28, 183, 124, 189, 103, 138, 241, 227, 243, 199, 70, 104, 59, 180, 167,
    208, 102, 232, 50, 156, 232, 56, 129, 221, 74, 171, 149, 255, 33, 245, 10, 119, 143, 17, 98,
    103, 254, 192, 133, 201, 49, 215, 172, 155, 110, 215, 198, 129, 247, 186, 17, 13, 223, 157,
    137, 144, 144, 159, 15], rfl⟩

def world : World := ⟨[(seed, author.bytes)], [genesis, marking], fun _ _ ↦ zeros 32⟩

abbrev B : Boundary := world.boundary

theorem settled_payload {s : Signed} (h : s = genesis ∨ s = marking) (B : Boundary) :
    Settled B s.body.payload := by
  rcases h with rfl | rfl
  · exact settled_obj List.Pairwise.nil (by simp)
  · exact settled_obj (List.pairwise_singleton _ _) fun m hm ↦ by
      rw [List.mem_singleton] at hm
      exact hm ▸ settled_str _

theorem validate {s : Signed} (h : s = genesis ∨ s = marking) : s.body.validate B = .ok () := by
  have hpayload : canonicalLength B s.body.payload ≤ 40 := by
    rcases h with rfl | rfl <;> decide
  have hkind : validateKind s.body.kind = .ok () := by
    rcases h with rfl | rfl <;> rfl
  have hversion : s.body.version = EVENT_VERSION := by
    rcases h with rfl | rfl <;> rfl
  have hparents : s.body.parents.length ≤ 1 := by
    rcases h with rfl | rfl <;> decide
  have hlength := EventBodyV1.canonicalLength_toJson (B := B) hversion hkind
  have hbytes := (dottedName_plain hkind).1
  have hmax : MAX_KIND_BYTES = 64 ∧ MAX_PARENTS = 64 ∧ MAX_CANONICAL_BODY_BYTES = 1114112 ∧
    MAX_CANONICAL_PAYLOAD_BYTES = 1048576 := ⟨rfl, rfl, rfl, rfl⟩
  rw [EventBodyV1.validate_eq_ok]
  refine ⟨hversion, by omega, hkind, ?_, ?_, by omega, by omega⟩
  · rcases h with rfl | rfl
    · exact canonical_nil _
    · exact canonical_singleton _ _
  · rcases h with rfl | rfl <;> rfl

theorem sound : world.Sound where
  bodies := by
    have hsettled {s : Signed} (h : s = genesis ∨ s = marking) :
        Settled silent (s.body.toJson silent) :=
      EventBodyV1.settled_toJson (by rcases h with rfl | rfl <;> rfl) (settled_payload h silent)
    have hne : genesis.bodyBytes ≠ marking.bodyBytes := fun heq ↦
      absurd (World.bodyBytes_inj (hsettled (Or.inl rfl)) (hsettled (Or.inr rfl)) heq).1
        (by decide)
    simpa [world] using hne
  ids := by decide
  authors := by
    intro s hs
    simp only [world, List.mem_cons, List.not_mem_nil, or_false] at hs
    rcases hs with rfl | rfl <;> exact List.mem_singleton_self _

def stored (s : Signed) (h : s = genesis ∨ s = marking) : StoredEvent B :=
  ⟨s.event, s.wire, World.authentic sound (by simpa [world] using h) (validate h)
    (SignedEventV1.settled_toJson (by rcases h with rfl | rfl <;> rfl) (settled_payload h B))⟩

def first : StoredEvent B := stored genesis (Or.inl rfl)

def marked : StoredEvent B := stored marking (Or.inr rfl)

theorem first_ne_marked : first.id ≠ marked.id := by decide

/-! ### Stores -/

/-- The context is provisioned and pending. -/
def provisioned : Ledger B := Ledger.empty.provision Golden.context first.id [author]

/-- The context is active. -/
def rooted : Ledger B := provisioned.record first

/-- The request is stored. -/
def grown : Ledger B := rooted.record marked

/-- The branch points at the request. -/
def advanced : Ledger B := grown.setLocal ⟨Golden.context, main, marked.id⟩

theorem provisioned_wellFormed : provisioned.WellFormed :=
  Ledger.WellFormed.empty.provision rfl (by simp) (List.nodup_singleton _)

theorem first_admits : provisioned.Admits first where
  registered := ⟨_, List.mem_singleton_self _, rfl, rfl, rfl, rfl⟩
  authorized := List.mem_singleton_self _
  parents := fun _ hparent ↦ absurd hparent List.not_mem_nil
  sameWire := fun _ hf ↦ absurd hf List.not_mem_nil

theorem rooted_wellFormed : rooted.WellFormed := provisioned_wellFormed.record first_admits rfl

theorem marked_admits : rooted.Admits marked where
  registered := ⟨⟨Golden.context, first.id, true⟩, List.mem_singleton_self _, rfl,
    Or.inr (by decide)⟩
  authorized := List.mem_singleton_self _
  parents := fun parent hparent ↦ ⟨first, List.mem_singleton_self _,
    (List.mem_singleton.mp hparent).symm, rfl⟩
  sameWire := fun f hf hid ↦ absurd (List.mem_singleton.mp hf ▸ hid) first_ne_marked

theorem grown_wellFormed : grown.WellFormed := rooted_wellFormed.record marked_admits (by decide)

theorem advanced_wellFormed : advanced.WellFormed :=
  grown_wellFormed.setLocal ⟨marked, List.mem_append_right _ (List.mem_singleton_self _), rfl, rfl⟩

end ContextMesh.Reference.Marked
