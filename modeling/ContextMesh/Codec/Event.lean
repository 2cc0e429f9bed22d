import ContextMesh.Contract.Event
import ContextMesh.Reference.Golden

/-!
The wire of a signed event, both ways. An event in memory may spell numbers of its payload as no
canonical text does; its wire parses to the settled event, which has the same identity, the same
signature and the same canonical bytes. What a parsed wire establishes is listed in `Establishes`.
-/

set_option autoImplicit false
set_option relaxedAutoImplicit false

namespace ContextMesh.Contract

open Checked Ordered

variable (B : Boundary)

/-- The body with its payload as canonical bytes read back. -/
def EventBodyV1.settle (body : EventBodyV1) : EventBodyV1 :=
  { body with payload := body.payload.collect B.reread }

/-- The event with its payload as canonical bytes read back. -/
def SignedEventV1.settle (event : SignedEventV1) : SignedEventV1 :=
  { event with body := event.body.settle B }

variable {B}

/-! ### Settled events -/

namespace EventBodyV1

theorem toJson_settle {body : EventBodyV1} (hversion : body.version = EVENT_VERSION) :
    (body.settle B).toJson B = (body.toJson B).collect B.reread := by
  have hparents : (body.parents.map fun id ↦ Json.str (id.text B)) =
      collectItems B.reread (body.parents.map fun id ↦ Json.str (id.text B)) := by
    rw [collectItems_eq_map, List.map_map]
    exact List.map_congr_left fun id _ ↦ by rw [Function.comp_apply, Json.collect]
  have hnumber : B.reread (.posInt body.version) = .posInt body.version := by
    rw [hversion]
    exact B.reread_posInt (by decide)
  unfold toJson
  rw [Json.collect_obj _ body.toJson_increasing]
  simp only [List.map_cons, List.map_nil, Json.collect, ← hparents, hnumber]
  rfl

theorem canonicalize_settle {body : EventBodyV1} (hversion : body.version = EVENT_VERSION) :
    canonicalize B ((body.settle B).toJson B) = canonicalize B (body.toJson B) := by
  rw [toJson_settle hversion, canonicalize_collect]

theorem validate_settle (hnumbers : SafeNumbers B) {body : EventBodyV1}
    (h : body.validate B = .ok ()) : (body.settle B).validate B = .ok () := by
  obtain ⟨hversion, hcount, hkind, hparents, hpayload, hpayloadBytes, hbytes⟩ :=
    validate_eq_ok.mp h
  refine validate_eq_ok.mpr ⟨hversion, hcount, hkind, hparents,
    validateJsonValue_collect hnumbers _ _ hpayload, ?_, ?_⟩
  · change canonicalLength B (body.payload.collect B.reread) ≤ _
    rw [canonicalLength, B.toVec_collect]
    exact hpayloadBytes
  · rw [toJson_settle hversion, canonicalLength, B.toVec_collect]
    exact hbytes

theorem canonicalBytes_of_valid {body : EventBodyV1} (h : body.validate B = .ok ()) :
    body.canonicalBytes B = canonicalize B (body.toJson B) := by
  rw [canonicalBytes, h, ok_bind]

theorem canonicalBytes_settle (hnumbers : SafeNumbers B) {body : EventBodyV1}
    (h : body.validate B = .ok ()) : (body.settle B).canonicalBytes B = body.canonicalBytes B := by
  rw [canonicalBytes_of_valid h, canonicalBytes_of_valid (validate_settle hnumbers h),
    canonicalize_settle (validate_eq_ok.mp h).1]

end EventBodyV1

namespace SignedEventV1

/-- What verification establishes of an event. -/
theorem verify_eq_ok {event : SignedEventV1} :
    event.verify B = .ok () ↔ event.body.validate B = .ok () ∧
      (∃ bytes, event.body.canonicalBytes B = .ok bytes ∧
        event.eventId = ⟨B.deriveKey EVENT_ID_DOMAIN bytes⟩) ∧
      B.isVerifyingKey event.body.author.bytes = true ∧
      B.verifyStrict event.body.author.bytes (signingMessage event.eventId)
        event.signature.bytes = true := by
  rw [verify, verifyParts, unit_bind_eq_ok]
  refine and_congr_right fun hvalid ↦ ?_
  obtain ⟨bytes, hbytes⟩ := canonicalize_total (B := B) (event.body.toJson B)
  rw [← EventBodyV1.canonicalBytes_of_valid hvalid] at hbytes
  rw [deriveEventId, hbytes, ok_bind, ok_bind, unit_bind_eq_ok, unit_bind_eq_ok, ensure_eq_ok,
    ensure_eq_ok, ensure_eq_ok]
  constructor
  · rintro ⟨hid, hkey, hsignature⟩
    exact ⟨⟨bytes, rfl, hid⟩, hkey, hsignature⟩
  · rintro ⟨⟨other, hother, hid⟩, hkey, hsignature⟩
    rw [Except.ok.injEq] at hother
    exact ⟨hother ▸ hid, hkey, hsignature⟩

theorem toJson_settle {event : SignedEventV1} (hversion : event.body.version = EVENT_VERSION) :
    (event.settle B).toJson B = (event.toJson B).collect B.reread := by
  unfold toJson
  rw [Json.collect_obj _ event.toJson_increasing]
  simp only [List.map_cons, List.map_nil, Json.collect, ← EventBodyV1.toJson_settle hversion]
  rfl

theorem verify_settle (hnumbers : SafeNumbers B) {event : SignedEventV1}
    (h : event.verify B = .ok ()) : (event.settle B).verify B = .ok () := by
  obtain ⟨hvalid, ⟨bytes, hbytes, hid⟩, hkey, hsignature⟩ := verify_eq_ok.mp h
  refine verify_eq_ok.mpr ⟨EventBodyV1.validate_settle hnumbers hvalid, ⟨bytes, ?_, hid⟩, hkey,
    hsignature⟩
  exact (EventBodyV1.canonicalBytes_settle hnumbers hvalid).trans hbytes

theorem settled_settle {event : SignedEventV1} (h : event.body.validate B = .ok ()) :
    Settled B ((event.settle B).toJson B) := by
  rw [toJson_settle (EventBodyV1.validate_eq_ok.mp h).1]
  exact settled_collect (toJson_depth h)

/-- An event that canonical bytes read back as itself is settled already. -/
theorem settle_eq_self {event : SignedEventV1} (h : event.body.validate B = .ok ())
    (hsettled : Settled B (event.toJson B)) : event.settle B = event := by
  refine toJson_injective (B := B) ?_
  rw [toJson_settle (EventBodyV1.validate_eq_ok.mp h).1]
  exact hsettled

/-- The settled event has the wire of the event. -/
theorem toWire_settle (hnumbers : SafeNumbers B) {event : SignedEventV1} {wire : Bytes}
    (h : event.toWire B = .ok wire) : (event.settle B).toWire B = .ok wire := by
  obtain ⟨hverify, hcanonical⟩ := toWire_eq_ok.mp h
  have hversion := (EventBodyV1.validate_eq_ok.mp (verify_validate hverify)).1
  refine toWire_eq_ok.mpr ⟨verify_settle hnumbers hverify, ?_⟩
  rw [toJson_settle hversion, canonicalize_collect, hcanonical]

/-- The wire of an event parses to the settled event. -/
theorem fromWire_settle (hnumbers : SafeNumbers B) {event : SignedEventV1} {wire : Bytes}
    (h : event.toWire B = .ok wire) : fromWire B wire = .ok (event.settle B) :=
  fromWire_of_settled (toWire_settle hnumbers h)
    (settled_settle (verify_validate (toWire_eq_ok.mp h).1))

variable (B) in
/-- The event has a wire within the raw bound, and the wire parses to an event of the same identity,
signature and canonical body, which has the same wire. -/
def RoundTrips (event : SignedEventV1) : Prop :=
  ∃ wire parsed, event.toWire B = .ok wire ∧ wire.length ≤ MAX_RAW_WIRE_BYTES ∧
    fromWire B wire = .ok parsed ∧ parsed.eventId = event.eventId ∧
    parsed.signature = event.signature ∧
    (∃ bytes, event.body.canonicalBytes B = .ok bytes ∧
      parsed.body.canonicalBytes B = .ok bytes) ∧
    parsed.toWire B = .ok wire

theorem roundTrips_of_verify (hnumbers : SafeNumbers B) {event : SignedEventV1}
    (h : event.verify B = .ok ()) : RoundTrips B event := by
  obtain ⟨wire, hwire⟩ := canonicalize_total (B := B) (event.toJson B)
  have hrender : event.toWire B = .ok wire := toWire_eq_ok.mpr ⟨h, hwire⟩
  obtain ⟨hvalid, ⟨bytes, hbytes, -⟩, -⟩ := verify_eq_ok.mp h
  refine ⟨wire, event.settle B, hrender, toWire_length hrender, fromWire_settle hnumbers hrender,
    rfl, rfl, ⟨bytes, hbytes, ?_⟩, toWire_settle hnumbers hrender⟩
  exact (EventBodyV1.canonicalBytes_settle hnumbers hvalid).trans hbytes

variable (B) in
/-- What the acceptance of a wire establishes. -/
structure Establishes (input : Bytes) (event : SignedEventV1) : Prop where
  size : input.length ≤ MAX_RAW_WIRE_BYTES
  /-- The text repeats no member at any depth and has exactly the members of the envelope. -/
  document : ∃ document, B.deserialize input = .ok document ∧ document.Distinct ∧
    document.collect id = event.toJson B
  version : event.body.version = EVENT_VERSION
  kind : validateKind event.body.kind = .ok ()
  parents : Canonical (EventId.text B) event.body.parents ∧
    event.body.parents.length ≤ MAX_PARENTS
  payload : validateJsonValue event.body.payload 1 = .ok () ∧
    canonicalLength B event.body.payload ≤ MAX_CANONICAL_PAYLOAD_BYTES
  body : canonicalLength B (event.body.toJson B) ≤ MAX_CANONICAL_BODY_BYTES
  identity : ∃ bytes, event.body.canonicalBytes B = .ok bytes ∧
    event.eventId = ⟨B.deriveKey EVENT_ID_DOMAIN bytes⟩
  signature : B.isVerifyingKey event.body.author.bytes = true ∧
    B.verifyStrict event.body.author.bytes (signingMessage event.eventId)
      event.signature.bytes = true

theorem establishes_of_fromWire {input : Bytes} {event : SignedEventV1}
    (h : fromWire B input = .ok event) : Establishes B input event := by
  obtain ⟨hsize, htext, hverify⟩ := fromWire_eq_ok h
  obtain ⟨-, htext⟩ := unit_bind_eq_ok.mp htext
  obtain ⟨document, hdocument, hstrict⟩ := bind_eq_ok.mp htext
  obtain ⟨hdistinct, hplain⟩ := Json.strict_plain _ _ hstrict
  obtain ⟨hvalid, hidentity, hkey, hsignature⟩ := verify_eq_ok.mp hverify
  obtain ⟨hversion, hcount, hkind, hparents, hpayload, hpayloadBytes, hbytes⟩ :=
    EventBodyV1.validate_eq_ok.mp hvalid
  exact ⟨hsize, ⟨document, mapError_eq_ok.mp hdocument, hdistinct, hplain.symm⟩, hversion, hkind,
    ⟨hparents, hcount⟩, ⟨hpayload, hpayloadBytes⟩, hbytes, hidentity, hkey, hsignature⟩

end SignedEventV1

/-! ### Signing -/

namespace SigningIdentity

/-- An identity signs every valid body of its own, and what it signs verifies. -/
theorem signBody_eq_ok {identity : SigningIdentity} {body : EventBodyV1} {event : SignedEventV1} :
    identity.signBody B body = .ok event ↔ body.validate B = .ok () ∧
      body.author = identity.author B ∧ ∃ id, deriveEventId B body = .ok id ∧
        event = ⟨id, body, ⟨B.sign identity.seed (signingMessage id)⟩⟩ := by
  rw [signBody, unit_bind_eq_ok, unit_bind_eq_ok, ensure_eq_ok, bind_eq_ok]
  simp only [Except.ok.injEq, eq_comm]

theorem verify_of_signBody (honest : Honest B) {identity : SigningIdentity} {body : EventBodyV1}
    {event : SignedEventV1} (h : identity.signBody B body = .ok event) :
    event.verify B = .ok () := by
  obtain ⟨hvalid, hauthor, id, hid, rfl⟩ := signBody_eq_ok.mp h
  obtain ⟨bytes, hbytes, hid⟩ := bind_eq_ok.mp hid
  rw [Except.ok.injEq] at hid
  refine SignedEventV1.verify_eq_ok.mpr ⟨hvalid, ⟨bytes, hbytes, hid.symm⟩, ?_, ?_⟩
  · change B.isVerifyingKey body.author.bytes = true
    rw [hauthor]
    exact honest.verifying identity.seed
  · change B.verifyStrict body.author.bytes (signingMessage id) _ = true
    rw [hauthor]
    exact honest.accepts identity.seed _

theorem createEvent_signs {identity : SigningIdentity} {context : ContextId}
    {parents : List EventId} {kind : String} {payload : Json} {event : SignedEventV1}
    (h : identity.createEvent B context parents kind payload = .ok event) :
    ∃ body, identity.signBody B body = .ok event := by
  obtain ⟨body, -, h⟩ := bind_eq_ok.mp h
  exact ⟨body, h⟩

end SigningIdentity

/-- Every event that is signed or parsed round trips on the wire, whatever its payload; a valid body
of an identity is signed; and a parsed wire is well formed and authentic. -/
theorem event_roundTrips (B : Boundary) (hnumbers : SafeNumbers B) (honest : Honest B) :
    (∀ (identity : SigningIdentity) body, body.validate B = .ok () →
      body.author = identity.author B → ∃ event, identity.signBody B body = .ok event) ∧
    (∀ (identity : SigningIdentity) body event, identity.signBody B body = .ok event →
      SignedEventV1.RoundTrips B event) ∧
    (∀ (identity : SigningIdentity) context parents kind payload event,
      identity.createEvent B context parents kind payload = .ok event →
        SignedEventV1.RoundTrips B event) ∧
    ∀ input event, SignedEventV1.fromWire B input = .ok event →
      SignedEventV1.RoundTrips B event ∧ SignedEventV1.Establishes B input event := by
  refine ⟨fun identity body hvalid hauthor ↦ ?_, fun identity body event h ↦ ?_,
    fun identity context parents kind payload event h ↦ ?_, fun input event h ↦ ⟨?_, ?_⟩⟩
  · obtain ⟨bytes, hbytes⟩ := canonicalize_total (B := B) (body.toJson B)
    rw [← EventBodyV1.canonicalBytes_of_valid hvalid] at hbytes
    exact ⟨_, SigningIdentity.signBody_eq_ok.mpr
      ⟨hvalid, hauthor, _, bind_eq_ok.mpr ⟨bytes, hbytes, rfl⟩, rfl⟩⟩
  · exact SignedEventV1.roundTrips_of_verify hnumbers (SigningIdentity.verify_of_signBody honest h)
  · obtain ⟨body, h⟩ := SigningIdentity.createEvent_signs h
    exact SignedEventV1.roundTrips_of_verify hnumbers (SigningIdentity.verify_of_signBody honest h)
  · exact SignedEventV1.roundTrips_of_verify hnumbers (SignedEventV1.fromWire_eq_ok h).2.2
  · exact SignedEventV1.establishes_of_fromWire h

section Golden

open Reference

theorem event_roundTrips_golden : SignedEventV1.RoundTrips Golden.B Golden.second.event ∧
    SignedEventV1.Establishes Golden.B Golden.second.wire Golden.second.event :=
  (event_roundTrips Golden.B (World.safeNumbers _) (World.honest _)).2.2.2 _ _
    Golden.second.authentic.parses

end Golden

end ContextMesh.Contract
