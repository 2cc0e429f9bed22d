import ContextMesh.Ledger.Confluence
import ContextMesh.Reference.Golden

/-!
The world of a store whose events do not fit one bundle: the genesis of the fixture, and sixteen
children of it with payloads as large as events may carry.
-/

set_option autoImplicit false
set_option relaxedAutoImplicit false

namespace ContextMesh.Reference.Bulk

open Checked Ordered Contract Store

def payload (index : ℕ) : Json :=
  .obj [("index", .num (.posInt index)), ("text", .str (letters 1048540))]

/-- A large child of the genesis. Its identifier is its number in place of its hash; all that is
used of the identifiers is that they differ. -/
def note (index : ℕ) : Signed where
  body := ⟨EVENT_VERSION, Golden.context, [⟨Golden.genesis.id⟩], "agent.note", Golden.author,
    payload index⟩
  id := ⟨List.replicate 31 0 ++ [UInt8.ofNat index], rfl⟩
  signature := zeros 64

def notes : List Signed := (List.range 16).map note

def world : World :=
  ⟨[(Golden.seed, Golden.author.bytes)], Golden.genesis :: notes, fun _ _ ↦ zeros 32⟩

abbrev B : Boundary := world.boundary

theorem payload_increasing (index : ℕ) : Increasing
    [("index", Json.num (.posInt index)), ("text", .str (letters 1048540))] :=
  increasing_of_names ["index", "text"] rfl (by decide)

theorem settled_payload {index : ℕ} (h : index < 16) (B : Boundary) :
    Settled B (note index).body.payload := by
  refine settled_obj (payload_increasing index) fun m hm ↦ ?_
  rcases List.mem_cons.mp hm with rfl | hm
  · refine settled_posInt (h.le.trans ?_)
    decide
  · rw [List.mem_singleton.mp hm]
    exact settled_str _

/-- The payload is as large as it may be, but for the room that an index may take. -/
theorem payload_length {index : ℕ} (h : index < 16) (B : Boundary) :
    1048560 ≤ canonicalLength B (payload index) ∧
      canonicalLength B (payload index) ≤ MAX_CANONICAL_PAYLOAD_BYTES := by
  have hnames : canonicalLength B (.str "index") = 7 ∧ canonicalLength B (.str "text") = 6 := by
    constructor
    · rw [canonicalLength_plain (by decide)]
      decide
    · rw [canonicalLength_plain (by decide)]
      decide
  have htext : canonicalLength B (.str (letters 1048540)) = 1048542 := by
    rw [canonicalLength_plain (letters_plain _), letters_size]
  have hindex : canonicalLength B (.num (.posInt index)) ≤ 16 := by
    refine B.toVec_posInt_length (h.le.trans ?_)
    decide
  have hmax : MAX_CANONICAL_PAYLOAD_BYTES = 1048576 := rfl
  rw [payload, canonicalLength_obj (payload_increasing index)]
  simp only [List.map_cons, List.map_nil, List.sum_cons, List.sum_nil, List.length_cons,
    List.length_nil, hnames, htext]
  omega

theorem validate_note {index : ℕ} (h : index < 16) : (note index).body.validate B = .ok () := by
  obtain ⟨-, hpayload⟩ := payload_length h B
  have hkind : validateKind "agent.note" = .ok () := rfl
  have hsize : "agent.note".utf8ByteSize = 10 := by decide
  have hlength : canonicalLength B ((note index).body.toJson B) ≤
      51 * 1 + "agent.note".utf8ByteSize + canonicalLength B (payload index) + 192 :=
    EventBodyV1.canonicalLength_toJson rfl hkind
  have hnumber : validateNumber (.posInt index) = .ok () := by
    refine ensure_true (h.le.trans ?_)
    decide
  have hvalue : validateJsonValue (payload index) 1 = .ok () := by
    rw [payload, validateJsonValue, validateMembers, validateJsonValue, hnumber]
    rfl
  have hmax : MAX_CANONICAL_BODY_BYTES = 1114112 ∧ MAX_CANONICAL_PAYLOAD_BYTES = 1048576 :=
    ⟨rfl, rfl⟩
  refine EventBodyV1.validate_eq_ok.mpr ⟨rfl, (by decide : 1 ≤ MAX_PARENTS), hkind,
    canonical_singleton _ _, hvalue, hpayload, ?_⟩
  omega

theorem validate_genesis : Golden.genesis.body.validate B = .ok () := by
  have hkind : validateKind Golden.genesis.body.kind = .ok () := rfl
  have hpayload : canonicalLength B Golden.genesis.body.payload ≤ 40 := by decide
  have hsize : Golden.genesis.body.kind.utf8ByteSize ≤ 64 := (dottedName_plain hkind).1
  have hlength : canonicalLength B (Golden.genesis.body.toJson B) ≤ 51 * 0 +
      Golden.genesis.body.kind.utf8ByteSize +
        canonicalLength B Golden.genesis.body.payload + 192 :=
    EventBodyV1.canonicalLength_toJson rfl hkind
  have hmax : MAX_CANONICAL_BODY_BYTES = 1114112 ∧ MAX_CANONICAL_PAYLOAD_BYTES = 1048576 :=
    ⟨rfl, rfl⟩
  refine EventBodyV1.validate_eq_ok.mpr ⟨rfl, Nat.zero_le _, hkind, canonical_nil _, rfl, ?_, ?_⟩
  · omega
  · omega

theorem mem_notes {s : Signed} : s ∈ notes ↔ ∃ index, index < 16 ∧ note index = s := by
  rw [notes, List.mem_map]
  simp only [List.mem_range]

theorem note_bodyBytes_inj {first second : ℕ} (hfirst : first < 16) (hsecond : second < 16)
    (h : (note first).bodyBytes = (note second).bodyBytes) : first = second := by
  have hsettled {index : ℕ} (hindex : index < 16) :
      Settled silent ((note index).body.toJson silent) :=
    EventBodyV1.settled_toJson rfl (settled_payload hindex silent)
  obtain ⟨-, hpayload, -⟩ := World.bodyBytes_inj (hsettled hfirst) (hsettled hsecond) h
  have hmembers := Json.obj.inj hpayload
  have hnumber := (Prod.mk.inj (List.cons.inj hmembers).1).2
  exact Number.posInt.inj (Json.num.inj hnumber)

theorem sound : world.Sound where
  bodies := by
    refine List.nodup_cons.mpr ⟨fun hmem ↦ ?_, ?_⟩
    · obtain ⟨s, hs, hbytes⟩ := List.mem_map.mp hmem
      obtain ⟨index, hindex, rfl⟩ := mem_notes.mp hs
      have hroot : Settled silent (Golden.genesis.body.toJson silent) :=
        EventBodyV1.settled_toJson rfl (Golden.settled_payload _ (Or.inl rfl) silent)
      have hnote : Settled silent ((note index).body.toJson silent) :=
        EventBodyV1.settled_toJson rfl (settled_payload hindex silent)
      have hkinds : "agent.note" ≠ "context.genesis" := by decide
      exact absurd (World.bodyBytes_inj hnote hroot hbytes).1 hkinds
    · rw [notes, List.map_map]
      refine List.Nodup.map_on (fun first hfirst second hsecond heq ↦ ?_) List.nodup_range
      exact note_bodyBytes_inj (List.mem_range.mp hfirst) (List.mem_range.mp hsecond) heq
  ids := by decide
  authors := by
    intro s hs
    rcases List.mem_cons.mp hs with rfl | hs
    · exact List.mem_singleton_self _
    · obtain ⟨index, -, rfl⟩ := mem_notes.mp hs
      exact List.mem_singleton_self _

theorem listed {index : ℕ} (h : index < 16) : note index ∈ world.signed :=
  List.mem_cons_of_mem _ (mem_notes.mpr ⟨index, h, rfl⟩)

/-! ### Stored events -/

def first : StoredEvent B :=
  ⟨Golden.genesis.event, Golden.genesis.wire,
    World.authentic sound List.mem_cons_self validate_genesis
      (SignedEventV1.settled_toJson rfl (Golden.settled_payload _ (Or.inl rfl) B))⟩

def stored (index : Fin 16) : StoredEvent B :=
  ⟨(note index).event, (note index).wire,
    World.authentic sound (listed index.isLt) (validate_note index.isLt)
      (SignedEventV1.settled_toJson rfl (settled_payload index.isLt B))⟩

theorem stored_id_inj {index other : Fin 16} (h : (stored index).id = (stored other).id) :
    index = other := by
  revert index other
  decide

theorem stored_ne_first (index : Fin 16) : (stored index).id ≠ first.id := by
  revert index
  decide

/-! ### Stores -/

def children : List (StoredEvent B) := (List.finRange 16).map stored

def provisioned : Ledger B := Ledger.empty.provision Golden.context first.id [Golden.author]

def rooted : Ledger B := provisioned.record first

/-- The genesis and its large children. -/
def filled : Ledger B := rooted.admitAll children

theorem provisioned_wellFormed : provisioned.WellFormed :=
  Ledger.WellFormed.empty.provision rfl (by simp) (List.nodup_singleton _)

theorem first_admits : provisioned.Admits first where
  registered := ⟨_, List.mem_singleton_self _, rfl, rfl, rfl, rfl⟩
  authorized := List.mem_singleton_self _
  parents := fun _ hparent ↦ absurd hparent List.not_mem_nil
  sameWire := fun _ hf ↦ absurd hf List.not_mem_nil

theorem rooted_wellFormed : rooted.WellFormed := provisioned_wellFormed.record first_admits rfl

theorem registration_rooted :
    rooted.registration Golden.context = some ⟨Golden.context, first.id, true⟩ :=
  rooted_wellFormed.registration_eq_some.mpr ⟨List.mem_singleton_self _, rfl⟩

theorem children_admits : rooted.AdmitsAll children := by
  have heligible : Eligible B rooted.tables Golden.context first.id children := {
    inContext := fun e he ↦ by
      obtain ⟨index, -, rfl⟩ := List.mem_map.mp he
      rfl
    authorized := fun e he ↦ by
      obtain ⟨index, -, rfl⟩ := List.mem_map.mp he
      rw [Ledger.isAuthorized_tables rooted_wellFormed.toWellKeyed, decide_eq_true_eq]
      exact List.mem_singleton_self _
    rooted := fun e he hroot ↦ by
      obtain ⟨index, -, rfl⟩ := List.mem_map.mp he
      rcases hroot with hnone | hkind
      · cases hnone
      · exact absurd hkind (by decide : "agent.note" ≠ "context.genesis")
    oneWire := fun e he f hf hid ↦ by
      obtain ⟨index, -, rfl⟩ := List.mem_map.mp he
      obtain ⟨other, -, rfl⟩ := List.mem_map.mp hf
      rw [stored_id_inj hid]
    storedWire := fun e he wire hwire ↦ by
      obtain ⟨index, -, rfl⟩ := List.mem_map.mp he
      rw [Ledger.eventWire_tables rooted_wellFormed.toWellKeyed, Except.ok.injEq] at hwire
      obtain ⟨f, hfind, -⟩ := Option.map_eq_some_iff.mp hwire
      obtain ⟨hf, hid⟩ := rooted_wellFormed.find_eq_some.mp hfind
      rw [List.mem_singleton.mp hf] at hid
      exact absurd hid.symm (stored_ne_first index) }
  refine (Ledger.Absorbs.refl rooted).admitsAll rooted_wellFormed rooted_wellFormed
    registration_rooted heligible (fun e he ↦ absurd he List.not_mem_nil) (fun e he ↦ he) ?_
  intro before e after hsplit parent hparent
  have he : e ∈ children := hsplit ▸ List.mem_append_right _ List.mem_cons_self
  obtain ⟨index, -, rfl⟩ := List.mem_map.mp he
  exact Or.inr ⟨first, List.mem_singleton_self _, (List.mem_singleton.mp hparent).symm, rfl⟩

theorem filled_wellFormed : filled.WellFormed := rooted_wellFormed.admitAll children_admits

theorem mem_filled {e : StoredEvent B} :
    e ∈ filled.events ↔ e = first ∨ ∃ index, stored index = e := by
  rw [filled, Ledger.mem_events_admitAll rooted_wellFormed children_admits, children, List.mem_map]
  refine or_congr List.mem_singleton ?_
  simp only [List.mem_finRange, true_and]

end ContextMesh.Reference.Bulk
