import ContextMesh.Contract.Decode
import ContextMesh.Delivery.Capability
import ContextMesh.Reference.Golden

/-!
Recorded capability models. A model is recorded as canonical bytes and read back by a derived
reader, which checks neither the bounds nor the order that the constructors establish.
-/

set_option autoImplicit false
set_option relaxedAutoImplicit false

namespace ContextMesh.Delivery

open Checked Ordered Contract

variable (B : Boundary)

namespace Capability

def toJson (capability : Capability) : Json :=
  .obj [("kinds", .arr (capability.kinds.map Json.str)), ("name", .str capability.name)]

def fromJson (v : Json) : Except JsonFault Capability := do
  let values ← fields ["name", "kinds"] v
  match values with
  | [name, kinds] => do
    let name ← decodeText name
    let kinds ← decodeList decodeText kinds
    .ok ⟨name, kinds⟩
  | _ => .error .malformed

end Capability

/-- An author is read from its text. -/
def decodeAuthor (v : Json) : Except JsonFault AuthorId := do
  let text ← decodeText v
  (AuthorId.parse B text).mapError fun _ ↦ .malformed

namespace RecipientCapabilities

def toJson (model : RecipientCapabilities) : Json :=
  .obj [("capabilities", .arr (model.capabilities.map Capability.toJson)),
    ("recipient", .str (model.recipient.text B)),
    ("version", .num (.posInt model.version.toNat))]

/-- The canonical bytes of a model. -/
def toWire (model : RecipientCapabilities) : Except CapabilityError Bytes :=
  (canonicalize B (model.toJson B)).mapError fun _ ↦ .internal

def fromJson (v : Json) : Except JsonFault RecipientCapabilities := do
  let values ← fields ["recipient", "version", "capabilities"] v
  match values with
  | [recipient, version, capabilities] => do
    let recipient ← decodeAuthor B recipient
    let version ← decodeUInt64 version
    let capabilities ← decodeList Capability.fromJson capabilities
    .ok ⟨recipient, version, capabilities⟩
  | _ => .error .malformed

/-- Reads a recorded model. -/
def fromSlice (input : Bytes) : Except JsonFault RecipientCapabilities :=
  decodeSlice B (fromJson B) input

end RecipientCapabilities

/-! ### Reading back -/

section Reading

variable {B}

theorem Capability.plain_fromJson : Plain Capability.fromJson := by
  apply plain_fields
  intro values hdistinct a
  match values with
  | [name, kinds] =>
    have hname := plain_decodeText name (hdistinct name (by simp))
    have hkinds := plain_decodeList plain_decodeText kinds (hdistinct kinds (by simp))
    simp only [List.map_cons, List.map_nil, bind_eq_ok, hname, hkinds]
  | [] | [_] | _ :: _ :: _ :: _ => exact Iff.rfl

theorem plain_decodeAuthor : Plain (decodeAuthor B) := by
  intro v hdistinct a
  unfold decodeAuthor
  simp only [bind_eq_ok, plain_decodeText v hdistinct]

theorem RecipientCapabilities.plain_fromJson : Plain (RecipientCapabilities.fromJson B) := by
  apply plain_fields
  intro values hdistinct a
  match values with
  | [recipient, version, capabilities] =>
    have hrecipient := plain_decodeAuthor (B := B) recipient (hdistinct recipient (by simp))
    have hversion := plain_decodeUInt64 version (hdistinct version (by simp))
    have hcapabilities := plain_decodeList Capability.plain_fromJson capabilities
      (hdistinct capabilities (by simp))
    simp only [List.map_cons, List.map_nil, bind_eq_ok, hrecipient, hversion, hcapabilities]
  | [] | [_] | [_, _] | _ :: _ :: _ :: _ :: _ => exact Iff.rfl

theorem Capability.settled_toJson (capability : Capability) : Settled B capability.toJson := by
  apply settled_obj
  · exact increasing_of_names ["kinds", "name"] rfl (by decide)
  · intro m hm
    rcases List.mem_cons.mp hm with rfl | hm
    · exact settled_arr fun v hv ↦ by
        obtain ⟨kind, -, rfl⟩ := List.mem_map.mp hv
        exact settled_str kind
    · rw [List.mem_singleton.mp hm]
      exact settled_str _

theorem Capability.depth_toJson (capability : Capability) : capability.toJson.depth ≤ 2 := by
  refine depth_obj_le (n := 1) fun m hm ↦ ?_
  rcases List.mem_cons.mp hm with rfl | hm
  · refine depth_arr_le (n := 0) fun v hv ↦ ?_
    obtain ⟨kind, -, rfl⟩ := List.mem_map.mp hv
    exact Nat.le_refl 0
  · rw [List.mem_singleton.mp hm]
    exact Nat.zero_le 1

theorem Capability.fromJson_toJson (capability : Capability) :
    Capability.fromJson capability.toJson = .ok capability := by
  have hkinds : mapEach decodeText (capability.kinds.map Json.str) = .ok capability.kinds := by
    have hmap : mapEach decodeText (capability.kinds.map Json.str) =
        .ok (capability.kinds.map id) := mapEach_map fun _ _ ↦ rfl
    rwa [List.map_id] at hmap
  have hfields : fields ["name", "kinds"] capability.toJson =
      .ok [.str capability.name, .arr (capability.kinds.map Json.str)] := rfl
  rw [Capability.fromJson, hfields, ok_bind]
  dsimp only [decodeText, decodeList]
  rw [ok_bind, hkinds, ok_bind]

namespace RecipientCapabilities

theorem depth_toJson (model : RecipientCapabilities) : (model.toJson B).depth ≤ 4 := by
  refine depth_obj_le (n := 3) fun m hm ↦ ?_
  rcases List.mem_cons.mp hm with rfl | hm
  · refine depth_arr_le (n := 2) fun v hv ↦ ?_
    obtain ⟨capability, -, rfl⟩ := List.mem_map.mp hv
    exact capability.depth_toJson
  · rcases List.mem_cons.mp hm with rfl | hm
    · exact Nat.zero_le 3
    · rw [List.mem_singleton.mp hm]
      exact Nat.zero_le 3

/-- Only the version can be read back as another number. -/
theorem collect_toJson (model : RecipientCapabilities) : (model.toJson B).collect B.reread =
    .obj [("capabilities", .arr (model.capabilities.map Capability.toJson)),
      ("recipient", .str (model.recipient.text B)),
      ("version", .num (B.reread (.posInt model.version.toNat)))] := by
  have hcapabilities : Settled B (.arr (model.capabilities.map Capability.toJson)) := by
    refine settled_arr fun v hv ↦ ?_
    obtain ⟨capability, -, rfl⟩ := List.mem_map.mp hv
    exact capability.settled_toJson
  have hinc : Increasing [("capabilities", .arr (model.capabilities.map Capability.toJson)),
      ("recipient", .str (model.recipient.text B)),
      ("version", .num (.posInt model.version.toNat))] :=
    increasing_of_names ["capabilities", "recipient", "version"] rfl (by decide)
  rw [toJson, Json.collect_obj _ hinc, List.map_cons, hcapabilities]
  rfl

theorem fromJson_collect (model : RecipientCapabilities) :
    fromJson B ((model.toJson B).collect B.reread) =
      decodeUInt64 (.num (B.reread (.posInt model.version.toNat))) >>= fun version ↦
        .ok { model with version := version } := by
  have hfields : fields ["recipient", "version", "capabilities"]
      ((model.toJson B).collect B.reread) =
        .ok [.str (model.recipient.text B), .num (B.reread (.posInt model.version.toNat)),
          .arr (model.capabilities.map Capability.toJson)] := by
    rw [collect_toJson]
    rfl
  have hrecipient : decodeAuthor B (.str (model.recipient.text B)) = .ok model.recipient := by
    rw [decodeAuthor, decodeText, ok_bind, AuthorId.parse_eq_ok.mpr rfl, mapError_ok]
  have hcapabilities : mapEach Capability.fromJson (model.capabilities.map Capability.toJson) =
      .ok model.capabilities := by
    have hmap : mapEach Capability.fromJson (model.capabilities.map Capability.toJson) =
        .ok (model.capabilities.map id) :=
      mapEach_map fun capability _ ↦ capability.fromJson_toJson
    rwa [List.map_id] at hmap
  rw [fromJson, hfields, ok_bind]
  dsimp only [decodeList]
  rw [hrecipient, ok_bind, hcapabilities]
  rfl

theorem decodeUInt64_eq_ok {number : Number} {version : UInt64} :
    decodeUInt64 (.num number) = .ok version ↔ number = .posInt version.toNat := by
  constructor
  · intro hok
    match number with
    | .posInt n =>
      obtain ⟨hsmall, hok⟩ := unit_bind_eq_ok.mp hok
      rw [← Except.ok.inj hok, UInt64.toNat_ofNat_of_lt' (ensure_eq_ok.mp hsmall)]
    | .negInt n | .float x => cases hok
  · rintro rfl
    rw [decodeUInt64, ensure_true version.toNat_lt, ok_bind, UInt64.ofNat_toNat]

/-- A model is read back exactly when its version is. -/
theorem fromSlice_toWire_iff (model : RecipientCapabilities) :
    (∃ bytes, model.toWire B = .ok bytes ∧ fromSlice B bytes = .ok model) ↔
      B.reread (.posInt model.version.toNat) = .posInt model.version.toNat := by
  obtain ⟨bytes, hbytes⟩ := canonicalize_total (B := B) (model.toJson B)
  have hdepth : (model.toJson B).depth ≤ MAX_NESTING := model.depth_toJson.trans (by decide)
  have hread : fromSlice B bytes = .ok model ↔
      B.reread (.posInt model.version.toNat) = .posInt model.version.toNat := by
    rw [fromSlice, decodeSlice_canonicalize plain_fromJson hbytes hdepth, fromJson_collect,
      bind_eq_ok]
    constructor
    · rintro ⟨version, hversion, hsame⟩
      rw [Except.ok.injEq] at hsame
      rw [decodeUInt64_eq_ok.mp hversion, ← hsame]
    · exact fun hversion ↦ ⟨model.version, decodeUInt64_eq_ok.mpr hversion, rfl⟩
  have hwire : model.toWire B = .ok bytes := by
    rw [toWire, hbytes, mapError_ok]
  rw [hwire]
  constructor
  · rintro ⟨found, hfound, hok⟩
    exact hread.mp (Except.ok.inj hfound ▸ hok)
  · exact fun hversion ↦ ⟨bytes, rfl, hread.mpr hversion⟩

end RecipientCapabilities

end Reading

/-! ### What a model means -/

/-- A text of a model is not empty and not oversized. -/
def Stated (text : String) : Prop := text ≠ "" ∧ text.utf8ByteSize ≤ MAX_CAPABILITY_TEXT_BYTES

/-- The bounds on a capability. -/
structure Capability.Bounded (capability : Capability) : Prop where
  name : Stated capability.name
  some : capability.kinds ≠ []
  few : capability.kinds.length ≤ MAX_CAPABILITY_KINDS
  kinds : ∀ kind ∈ capability.kinds, Stated kind

/-- The search finds the listed kinds, the lists are canonical and bounded, and the canonical bytes
are read back as the model. -/
structure RecipientCapabilities.Recorded (model : RecipientCapabilities) : Prop where
  covers : ∀ kind, model.covers kind = true ↔
    ∃ capability ∈ model.capabilities, kind ∈ capability.kinds
  capabilities : Canonical Capability.name model.capabilities
  kinds : ∀ capability ∈ model.capabilities, Canonical id capability.kinds
  few : model.capabilities.length ≤ MAX_CAPABILITIES
  bounded : ∀ capability ∈ model.capabilities, capability.Bounded
  read : ∃ bytes, model.toWire B = .ok bytes ∧
    RecipientCapabilities.fromSlice B bytes = .ok model

/-- The constructors build the model. -/
def RecipientCapabilities.Constructed (model : RecipientCapabilities) : Prop :=
  ∃ capabilities, (∀ capability ∈ capabilities, ∃ name kinds,
      Capability.new name kinds = .ok capability) ∧
    RecipientCapabilities.new model.recipient model.version capabilities = .ok model

section Meaning

variable {B}

theorem Capability.new_eq_ok {name : String} {kinds : List String} {capability : Capability} :
    Capability.new name kinds = .ok capability ↔ Capability.Bounded ⟨name, kinds⟩ ∧
      capability = ⟨name, normalize id kinds⟩ := by
  unfold Capability.new
  simp only [unit_bind_eq_ok, ensure_eq_ok, Except.ok.injEq]
  constructor
  · rintro ⟨hname, ⟨hsome, hfew⟩, hkinds, rfl⟩
    exact ⟨⟨hname, hsome, hfew, hkinds⟩, rfl⟩
  · rintro ⟨hbounded, rfl⟩
    exact ⟨hbounded.name, ⟨hbounded.some, hbounded.few⟩, hbounded.kinds, rfl⟩

/-- The constructor builds the bounded capabilities whose kinds are in canonical order. -/
theorem Capability.constructed_iff {capability : Capability} :
    (∃ name kinds, Capability.new name kinds = .ok capability) ↔
      capability.Bounded ∧ Canonical id capability.kinds := by
  constructor
  · rintro ⟨name, kinds, hok⟩
    obtain ⟨hbounded, rfl⟩ := Capability.new_eq_ok.mp hok
    refine ⟨⟨hbounded.name, ?_, ?_, fun kind hkind ↦ ?_⟩,
      normalize_canonical Function.injective_id kinds⟩
    · exact fun hnone ↦ hbounded.some (normalize_eq_nil.mp hnone)
    · exact (length_normalize_le id kinds).trans hbounded.few
    · exact hbounded.kinds kind (mem_normalize.mp hkind)
  · rintro ⟨hbounded, hkinds⟩
    exact ⟨capability.name, capability.kinds, Capability.new_eq_ok.mpr
      ⟨hbounded, by rw [normalize_eq_self hkinds]⟩⟩

theorem RecipientCapabilities.constructed_iff {model : RecipientCapabilities} :
    model.Constructed ↔ Canonical Capability.name model.capabilities ∧
      model.capabilities.length ≤ MAX_CAPABILITIES ∧
      ∀ capability ∈ model.capabilities, capability.Bounded ∧
        Canonical id capability.kinds := by
  unfold Constructed RecipientCapabilities.new
  simp only [Capability.constructed_iff, unit_bind_eq_ok, ensure_eq_ok, Except.ok.injEq]
  constructor
  · rintro ⟨capabilities, hclean, hfew, hdistinct, hmodel⟩
    have hlist : sort Capability.name capabilities = model.capabilities :=
      congrArg RecipientCapabilities.capabilities hmodel
    rw [hlist] at hdistinct
    refine ⟨canonical_of_neighbours ?_ hdistinct, ?_, fun capability hcapability ↦ ?_⟩
    · rw [← hlist]
      exact sort_pairwise _ _
    · rw [← hlist, (sort_perm _ _).length_eq]
      exact hfew
    · rw [← hlist, mem_sort] at hcapability
      exact hclean capability hcapability
  · rintro ⟨hcanonical, hfew, hclean⟩
    have hsame : sort Capability.name model.capabilities = model.capabilities :=
      sort_eq_self hcanonical
    refine ⟨model.capabilities, hclean, hfew, ?_, ?_⟩
    · rw [hsame]
      exact hcanonical.imp fun _ _ hlt ↦ hlt.ne
    · rw [hsame]

/-- A model whose kinds are in canonical order covers the kinds that it lists. -/
theorem RecipientCapabilities.covers_iff {model : RecipientCapabilities}
    (h : ∀ capability ∈ model.capabilities, Canonical id capability.kinds) (kind : String) :
    model.covers kind = true ↔ ∃ capability ∈ model.capabilities, kind ∈ capability.kinds := by
  rw [covers, List.any_eq_true]
  refine exists_congr fun capability ↦ and_congr_right fun hcapability ↦ ?_
  exact binarySearch_iff Function.injective_id (h capability hcapability).pairwise

end Meaning

/-- A model means the same after it is read back exactly when the constructors build it and its
version is read back. -/
theorem recorded_iff (model : RecipientCapabilities) : model.Recorded B ↔
    model.Constructed ∧ B.reread (.posInt model.version.toNat) = .posInt model.version.toNat := by
  rw [RecipientCapabilities.constructed_iff, ← RecipientCapabilities.fromSlice_toWire_iff]
  constructor
  · intro h
    exact ⟨⟨h.capabilities, h.few, fun c hc ↦ ⟨h.bounded c hc, h.kinds c hc⟩⟩, h.read⟩
  · rintro ⟨⟨hcanonical, hfew, hclean⟩, hread⟩
    have hkinds : ∀ c ∈ model.capabilities, Canonical id c.kinds := fun c hc ↦ (hclean c hc).2
    exact ⟨RecipientCapabilities.covers_iff hkinds, hcanonical, hkinds, hfew,
      fun c hc ↦ (hclean c hc).1, hread⟩

section Golden

open Reference Golden

/-- A model whose kinds are out of order, as it can be decoded. -/
def disordered : RecipientCapabilities :=
  ⟨author, 1, [⟨"handle.requests", ["context.critical", "agent.request"]⟩]⟩

/-- A model is decoded, and does not cover a kind that it lists. -/
theorem fromSlice_disordered : ∃ bytes model, RecipientCapabilities.fromSlice Golden.B bytes =
      .ok model ∧ (∃ capability ∈ model.capabilities, "context.critical" ∈ capability.kinds) ∧
    model.covers "context.critical" = false ∧ ¬ model.Recorded Golden.B := by
  have hversion : Golden.B.reread (.posInt disordered.version.toNat) =
      .posInt disordered.version.toNat := Golden.B.reread_posInt (by decide)
  obtain ⟨bytes, -, hread⟩ :=
    (RecipientCapabilities.fromSlice_toWire_iff (B := Golden.B) disordered).mpr hversion
  have hlisted : ∃ capability ∈ disordered.capabilities,
      "context.critical" ∈ capability.kinds :=
    ⟨_, List.mem_singleton_self _, List.mem_cons_self⟩
  have hmissed : disordered.covers "context.critical" = false := by decide +kernel
  refine ⟨bytes, disordered, hread, hlisted, hmissed, fun hrecorded ↦ ?_⟩
  have hcovers := (hrecorded.covers "context.critical").mpr hlisted
  rw [hmissed] at hcovers
  cases hcovers

end Golden

end ContextMesh.Delivery
