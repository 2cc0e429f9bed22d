import ContextMesh.Contract.Identifiers

/-!
The version-1 signed event: body validation, identity, signature, and the wire codec.

An event is `Authentic` on a wire when the wire parses to it and it renders to the wire. Every
event that parsing canonical bytes yields is authentic on these bytes (`authentic_of_canonical`);
the wire of a verified event parses to an authentic event with the same identity and the same
signed columns (`fromWire_toWire`).
-/

set_option autoImplicit false
set_option relaxedAutoImplicit false

namespace ContextMesh.Contract

open Checked Ordered

/-- Frozen event body version. -/
def EVENT_VERSION : ℕ := 1

/-- Maximum number of parents in a version-1 body. -/
def MAX_PARENTS : ℕ := 64

/-- Maximum RFC 8785 canonical payload size. -/
def MAX_CANONICAL_PAYLOAD_BYTES : ℕ := 1048576

/-- Maximum RFC 8785 canonical body size. -/
def MAX_CANONICAL_BODY_BYTES : ℕ := 1114112

/-- Maximum raw envelope size accepted from the wire. -/
def MAX_RAW_WIRE_BYTES : ℕ := 2097152

def EVENT_ID_DOMAIN : String := "org.aaif.contextmesh.event-id.v1"

/-- ASCII prefix of signature messages, with its separating zero byte. -/
def SIGNATURE_DOMAIN : Bytes :=
  ("org.aaif.contextmesh.signature.v1".toList.map fun c ↦ c.toNat.toUInt8) ++ [0]

structure EventBodyV1 where
  version : ℕ
  context : ContextId
  parents : List EventId
  kind : String
  author : AuthorId
  payload : Json

structure SignedEventV1 where
  eventId : EventId
  body : EventBodyV1
  signature : EventSignature

variable (B : Boundary)

/-- The canonical bytes of a payload within its bounds. -/
def canonicalPayloadBytes (payload : Json) : Except ContractError Bytes := do
  validateJsonValue payload 1
  let bytes ← canonicalize B payload
  ensure (bytes.length ≤ MAX_CANONICAL_PAYLOAD_BYTES) .limitExceeded
  .ok bytes

namespace EventBodyV1

/-- The body as its serializer presents it. -/
def toJson (body : EventBodyV1) : Json :=
  .obj [("author", .str (body.author.text B)),
    ("context", .str (body.context.text B)),
    ("kind", .str body.kind),
    ("parents", .arr (body.parents.map fun id ↦ .str (id.text B))),
    ("payload", body.payload),
    ("version", .num (.posInt body.version))]

def validate (body : EventBodyV1) : Except ContractError Unit := do
  ensure (body.version = EVENT_VERSION) .unsupportedVersion
  ensure (body.parents.length ≤ MAX_PARENTS) .limitExceeded
  validateKind body.kind
  ensure (Canonical (EventId.text B) body.parents) .parentOrder
  validateJsonValue body.payload 1
  let payload ← canonicalize B body.payload
  ensure (payload.length ≤ MAX_CANONICAL_PAYLOAD_BYTES) .limitExceeded
  let bytes ← canonicalize B (body.toJson B)
  ensure (bytes.length ≤ MAX_CANONICAL_BODY_BYTES) .limitExceeded

def new (context : ContextId) (parents : List EventId) (kind : String) (author : AuthorId)
    (payload : Json) : Except ContractError EventBodyV1 := do
  let body : EventBodyV1 := ⟨EVENT_VERSION, context, parents, kind, author, payload⟩
  body.validate B
  .ok body

def canonicalBytes (body : EventBodyV1) : Except ContractError Bytes := do
  body.validate B
  canonicalize B (body.toJson B)

end EventBodyV1

/-- The BLAKE3 event identifier of the canonical body. -/
def deriveEventId (body : EventBodyV1) : Except ContractError EventId := do
  let canonical ← body.canonicalBytes B
  .ok ⟨B.deriveKey EVENT_ID_DOMAIN canonical⟩

def signingMessage (id : EventId) : Bytes := SIGNATURE_DOMAIN ++ id.bytes.1

def verifyParts (body : EventBodyV1) (suppliedId : EventId) (signature : EventSignature) :
    Except ContractError Unit := do
  body.validate B
  let expectedId ← deriveEventId B body
  ensure (suppliedId = expectedId) .idMismatch
  ensure (B.isVerifyingKey body.author.bytes) .signatureInvalid
  ensure (B.verifyStrict body.author.bytes (signingMessage suppliedId) signature.bytes)
    .signatureInvalid

def parseVersion : Json → Except ContractError ℕ
  | .num (.posInt n) => ensure (n = EVENT_VERSION) .unsupportedVersion >>= fun _ ↦ .ok EVENT_VERSION
  | .num _ => .error .unsupportedVersion
  | _ => .error .jsonSyntax

def parseParents : Json → Except ContractError (List EventId)
  | .arr values => mapEach (parseText (EventId.parse B)) values
  | _ => .error .jsonSyntax

def parseBody (value : Json) : Except ContractError EventBodyV1 := do
  let object ← intoObject value
  rejectUnknown object ["version", "context", "parents", "kind", "author", "payload"]
  let versionValue ← takeRequired object "version"
  let contextValue ← takeRequired object "context"
  let parentsValue ← takeRequired object "parents"
  let kindValue ← takeRequired object "kind"
  let authorValue ← takeRequired object "author"
  let payload ← takeRequired object "payload"
  let version ← parseVersion versionValue
  let context ← parseText (ContextId.parse B) contextValue
  let parents ← parseParents B parentsValue
  let kind ← intoString kindValue
  let author ← parseText (AuthorId.parse B) authorValue
  let body : EventBodyV1 := ⟨version, context, parents, kind, author, payload⟩
  body.validate B
  .ok body

namespace SignedEventV1

/-- The envelope as its serializer presents it. -/
def toJson (event : SignedEventV1) : Json :=
  .obj [("body", event.body.toJson B),
    ("event_id", .str (event.eventId.text B)),
    ("signature", .str (event.signature.text B))]

def fromWire (input : Bytes) : Except ContractError SignedEventV1 := do
  ensure (input.length ≤ MAX_RAW_WIRE_BYTES) .wireTooLarge
  let value ← strictJson B input
  let object ← intoObject value
  rejectUnknown object ["event_id", "body", "signature"]
  let eventIdValue ← takeRequired object "event_id"
  let bodyValue ← takeRequired object "body"
  let signatureValue ← takeRequired object "signature"
  let body ← parseBody B bodyValue
  let eventId ← parseText (EventId.parse B) eventIdValue
  let signature ← parseText (EventSignature.parse B) signatureValue
  verifyParts B body eventId signature
  .ok ⟨eventId, body, signature⟩

def verify (event : SignedEventV1) : Except ContractError Unit :=
  verifyParts B event.body event.eventId event.signature

def toWire (event : SignedEventV1) : Except ContractError Bytes := do
  event.verify B
  canonicalize B (event.toJson B)

/-- The wire parses to the event and the event renders to the wire. -/
structure Authentic (event : SignedEventV1) (wire : Bytes) : Prop where
  parses : fromWire B wire = .ok event
  renders : event.toWire B = .ok wire

end SignedEventV1

/-- An in-memory signing identity, by its seed. -/
structure SigningIdentity where
  seed : Fixed 32

namespace SigningIdentity

def author (identity : SigningIdentity) : AuthorId := ⟨B.verifyingKey identity.seed⟩

def signBody (identity : SigningIdentity) (body : EventBodyV1) :
    Except ContractError SignedEventV1 := do
  body.validate B
  ensure (body.author = identity.author B) .authorMismatch
  let eventId ← deriveEventId B body
  .ok ⟨eventId, body, ⟨B.sign identity.seed (signingMessage eventId)⟩⟩

def createEvent (identity : SigningIdentity) (context : ContextId) (parents : List EventId)
    (kind : String) (payload : Json) : Except ContractError SignedEventV1 := do
  let body ← EventBodyV1.new B context parents kind (identity.author B) payload
  identity.signBody B body

end SigningIdentity

variable {B}

theorem EventBodyV1.toJson_increasing (body : EventBodyV1) :
    Increasing [("author", Json.str (body.author.text B)),
      ("context", .str (body.context.text B)),
      ("kind", .str body.kind),
      ("parents", .arr (body.parents.map fun id ↦ .str (id.text B))),
      ("payload", body.payload),
      ("version", .num (.posInt body.version))] :=
  increasing_of_names ["author", "context", "kind", "parents", "payload", "version"] rfl (by decide)

theorem SignedEventV1.toJson_increasing (event : SignedEventV1) :
    Increasing [("body", event.body.toJson B),
      ("event_id", .str (event.eventId.text B)),
      ("signature", .str (event.signature.text B))] :=
  increasing_of_names ["body", "event_id", "signature"] rfl (by decide)

theorem EventBodyV1.validate_eq_ok {body : EventBodyV1} :
    body.validate B = .ok () ↔ body.version = EVENT_VERSION ∧ body.parents.length ≤ MAX_PARENTS ∧
      validateKind body.kind = .ok () ∧ Canonical (EventId.text B) body.parents ∧
        validateJsonValue body.payload 1 = .ok () ∧
          canonicalLength B body.payload ≤ MAX_CANONICAL_PAYLOAD_BYTES ∧
            canonicalLength B (body.toJson B) ≤ MAX_CANONICAL_BODY_BYTES := by
  obtain ⟨payload, hpayload⟩ := canonicalize_total (B := B) body.payload
  rw [validate, unit_bind_eq_ok, unit_bind_eq_ok, unit_bind_eq_ok, unit_bind_eq_ok,
    unit_bind_eq_ok, hpayload, ok_bind, unit_bind_eq_ok, canonicalize_bounded, ensure_eq_ok,
    ensure_eq_ok, ensure_eq_ok, ensure_eq_ok, canonicalize_length hpayload]

/-- The canonical length of a body, by its parts. -/
theorem EventBodyV1.canonicalLength_toJson {body : EventBodyV1}
    (hversion : body.version = EVENT_VERSION) (hkind : validateKind body.kind = .ok ()) :
    canonicalLength B (body.toJson B) ≤
      51 * body.parents.length + body.kind.utf8ByteSize + canonicalLength B body.payload + 192 := by
  have hnames : canonicalLength B (.str "author") = 8 ∧ canonicalLength B (.str "context") = 9 ∧
      canonicalLength B (.str "kind") = 6 ∧ canonicalLength B (.str "parents") = 9 ∧
        canonicalLength B (.str "payload") = 9 ∧ canonicalLength B (.str "version") = 9 := by
    refine ⟨?_, ?_, ?_, ?_, ?_, ?_⟩ <;>
    · rw [canonicalLength_plain (by decide)]
      decide
  have hauthor : canonicalLength B (.str (body.author.text B)) = 53 := by
    rw [AuthorId.text, canonicalLength_fixedText _ (by decide)]
    decide
  have hcontext : canonicalLength B (.str (body.context.text B)) = 50 := by
    rw [ContextId.text, canonicalLength_fixedText _ (by decide)]
    decide
  have hparents : canonicalLength B (.arr (body.parents.map fun id ↦ .str (id.text B))) ≤
      51 * body.parents.length + 2 := by
    have heach : ∀ id : EventId, canonicalLength B (.str (id.text B)) = 50 := fun id ↦ by
      rw [EventId.text, canonicalLength_fixedText _ (by decide)]
      decide
    rw [canonicalLength_arr, List.map_map, List.length_map]
    simp only [Function.comp_def, heach, List.map_const', List.sum_replicate_nat]
    omega
  have hkindLength := canonicalLength_plain (B := B) (dottedName_plain hkind).2
  have hversionLength : canonicalLength B (.num (.posInt body.version)) ≤ 16 :=
    B.toVec_posInt_length (by rw [hversion]; decide)
  rw [toJson, canonicalLength_obj body.toJson_increasing]
  simp only [List.map_cons, List.map_nil, List.sum_cons, List.sum_nil, List.length_cons,
    List.length_nil, hnames, hauthor, hcontext, hkindLength]
  omega

/-- A body is settled when its payload is. -/
theorem EventBodyV1.settled_toJson {body : EventBodyV1} (hversion : body.version = EVENT_VERSION)
    (hpayload : Settled B body.payload) : Settled B (body.toJson B) := by
  refine settled_obj body.toJson_increasing fun m hm ↦ ?_
  simp only [List.mem_cons, List.not_mem_nil, or_false] at hm
  rcases hm with rfl | rfl | rfl | rfl | rfl | rfl
  · exact settled_str _
  · exact settled_str _
  · exact settled_str _
  · refine settled_arr fun v hv ↦ ?_
    obtain ⟨id, -, rfl⟩ := List.mem_map.mp hv
    exact settled_str _
  · exact hpayload
  · refine settled_posInt ?_
    rw [hversion]
    decide

theorem SignedEventV1.settled_toJson {event : SignedEventV1}
    (hversion : event.body.version = EVENT_VERSION) (hpayload : Settled B event.body.payload) :
    Settled B (event.toJson B) := by
  refine settled_obj event.toJson_increasing fun m hm ↦ ?_
  simp only [List.mem_cons, List.not_mem_nil, or_false] at hm
  rcases hm with rfl | rfl | rfl
  · exact EventBodyV1.settled_toJson hversion hpayload
  · exact settled_str _
  · exact settled_str _

theorem rejectUnknown_eq_ok {object : Members} {allowed : List String} :
    rejectUnknown object allowed = .ok () ↔ ∀ m ∈ object, m.1 ∈ allowed := ensure_eq_ok

theorem parseVersion_eq_ok {v : Json} {n : ℕ} (h : parseVersion v = .ok n) :
    n = EVENT_VERSION ∧ v = .num (.posInt n) := by
  cases v with
  | num number =>
    cases number with
    | posInt m =>
      obtain ⟨hm, h⟩ := unit_bind_eq_ok.mp h
      rw [Except.ok.injEq] at h
      exact ⟨h.symm, by rw [← h, ensure_eq_ok.mp hm]⟩
    | _ => cases h
  | _ => cases h

theorem parseParents_eq_ok {v : Json} {parents : List EventId}
    (h : parseParents B v = .ok parents) : v = .arr (parents.map fun id ↦ .str (id.text B)) := by
  cases v with
  | arr values =>
    rw [parseParents, mapEach_eq_ok] at h
    induction h with
    | nil => rfl
    | @cons value id values parents hvalue _ ih =>
      obtain ⟨text, rfl, htext⟩ := parseText_eq_ok.mp hvalue
      rw [EventId.parse_eq_ok] at htext
      rw [List.map_cons, htext, ← Json.arr.inj ih]
  | _ => cases h

/-- A body parsed from a sorted value serializes to the value, and is valid. -/
theorem parseBody_eq_ok {value : Json} {body : EventBodyV1} (hsorted : value.Sorted)
    (h : parseBody B value = .ok body) :
    value = body.toJson B ∧ body.validate B = .ok () := by
  obtain ⟨object, hobject, h⟩ := bind_eq_ok.mp h
  rw [intoObject_eq_ok] at hobject
  subst hobject
  obtain ⟨hknown, h⟩ := unit_bind_eq_ok.mp h
  rw [rejectUnknown_eq_ok] at hknown
  obtain ⟨versionValue, hversionValue, h⟩ := bind_eq_ok.mp h
  obtain ⟨contextValue, hcontextValue, h⟩ := bind_eq_ok.mp h
  obtain ⟨parentsValue, hparentsValue, h⟩ := bind_eq_ok.mp h
  obtain ⟨kindValue, hkindValue, h⟩ := bind_eq_ok.mp h
  obtain ⟨authorValue, hauthorValue, h⟩ := bind_eq_ok.mp h
  obtain ⟨payload, hpayload, h⟩ := bind_eq_ok.mp h
  obtain ⟨version, hversion, h⟩ := bind_eq_ok.mp h
  obtain ⟨context, hcontext, h⟩ := bind_eq_ok.mp h
  obtain ⟨parents, hparents, h⟩ := bind_eq_ok.mp h
  obtain ⟨kind, hkind, h⟩ := bind_eq_ok.mp h
  obtain ⟨author, hauthor, h⟩ := bind_eq_ok.mp h
  obtain ⟨hvalid, h⟩ := unit_bind_eq_ok.mp h
  rw [Except.ok.injEq] at h
  subst h
  rw [takeRequired_eq_ok] at hversionValue hcontextValue hparentsValue
  rw [takeRequired_eq_ok] at hkindValue hauthorValue hpayload
  obtain ⟨-, rfl⟩ := parseVersion_eq_ok hversion
  obtain ⟨contextText, rfl, hcontextText⟩ := parseText_eq_ok.mp hcontext
  rw [ContextId.parse_eq_ok] at hcontextText
  obtain rfl := parseParents_eq_ok hparents
  rw [intoString_eq_ok] at hkind
  subst hkind
  obtain ⟨authorText, rfl, hauthorText⟩ := parseText_eq_ok.mp hauthor
  rw [AuthorId.parse_eq_ok] at hauthorText
  refine ⟨?_, hvalid⟩
  rw [EventBodyV1.toJson]
  refine congrArg Json.obj (hsorted.increasing.eq_of_member
    (EventBodyV1.toJson_increasing (B := B) ⟨version, context, parents, kind, author, payload⟩)
    (fun m hm ↦ ?_) fun m hm ↦ ?_)
  · have := hknown m hm
    simp only [List.mem_cons, List.not_mem_nil, or_false] at this
    simp only [List.map_cons, List.map_nil, List.mem_cons, List.not_mem_nil, or_false]
    tauto
  · simp only [List.mem_cons, List.not_mem_nil, or_false] at hm
    rcases hm with rfl | rfl | rfl | rfl | rfl | rfl
    · rw [hauthorValue, hauthorText]
    · rw [hcontextValue, hcontextText]
    · exact hkindValue
    · exact hparentsValue
    · exact hpayload
    · exact hversionValue

/-- The serialized form of a valid body parses back to it. -/
theorem parseBody_toJson {body : EventBodyV1} (hvalid : body.validate B = .ok ()) :
    parseBody B (body.toJson B) = .ok body := by
  have hversion : body.version = EVENT_VERSION := ensure_eq_ok.mp (unit_bind_eq_ok.mp hvalid).1
  have hinc := body.toJson_increasing (B := B)
  have htake {name : String} {v : Json} (h : (name, v) ∈ [("author", Json.str (body.author.text B)),
      ("context", .str (body.context.text B)), ("kind", .str body.kind),
      ("parents", .arr (body.parents.map fun id ↦ .str (id.text B))),
      ("payload", body.payload), ("version", .num (.posInt body.version))]) :
      takeRequired _ name = .ok v := takeRequired_eq_ok.mpr (member_of_mem hinc h)
  have hparents : parseParents B (.arr (body.parents.map fun id ↦ .str (id.text B))) =
      .ok body.parents := by
    have := mapEach_map (f := parseText (EventId.parse B)) (g := fun id ↦ .str (id.text B))
      (h := id) fun parent (_ : parent ∈ body.parents) ↦
        parseText_eq_ok.mpr ⟨_, rfl, EventId.parse_eq_ok.mpr rfl⟩
    rwa [List.map_id] at this
  rw [parseBody, EventBodyV1.toJson, intoObject, ok_bind, rejectUnknown, ensure_true (by simp),
    ok_bind, htake (v := .num (.posInt body.version)) (by simp), ok_bind,
    htake (v := .str (body.context.text B)) (by simp), ok_bind, htake (v := .arr _) (by simp; rfl),
    ok_bind, htake (v := .str body.kind) (by simp), ok_bind,
    htake (v := .str (body.author.text B)) (by simp), ok_bind, htake (v := body.payload) (by simp),
    ok_bind, parseVersion, ensure_true hversion, ok_bind, ok_bind,
    parseText_eq_ok.mpr ⟨_, rfl, ContextId.parse_eq_ok.mpr rfl⟩, ok_bind, hparents, ok_bind,
    intoString, ok_bind, parseText_eq_ok.mpr ⟨_, rfl, AuthorId.parse_eq_ok.mpr rfl⟩, ok_bind,
    ← hversion]
  exact unit_bind_eq_ok.mpr ⟨hvalid, rfl⟩

namespace SignedEventV1

/-- What a parsed wire establishes: it is within the raw bound, it is the strict text of the
event, and the event verifies. -/
theorem fromWire_eq_ok {input : Bytes} {event : SignedEventV1} (h : fromWire B input = .ok event) :
    input.length ≤ MAX_RAW_WIRE_BYTES ∧ strictJson B input = .ok (event.toJson B) ∧
      event.verify B = .ok () := by
  obtain ⟨hsize, h⟩ := unit_bind_eq_ok.mp h
  obtain ⟨value, hvalue, h⟩ := bind_eq_ok.mp h
  obtain ⟨object, hobject, h⟩ := bind_eq_ok.mp h
  rw [intoObject_eq_ok] at hobject
  subst hobject
  obtain ⟨hknown, h⟩ := unit_bind_eq_ok.mp h
  rw [rejectUnknown_eq_ok] at hknown
  obtain ⟨eventIdValue, heventIdValue, h⟩ := bind_eq_ok.mp h
  obtain ⟨bodyValue, hbodyValue, h⟩ := bind_eq_ok.mp h
  obtain ⟨signatureValue, hsignatureValue, h⟩ := bind_eq_ok.mp h
  obtain ⟨body, hbody, h⟩ := bind_eq_ok.mp h
  obtain ⟨eventId, heventId, h⟩ := bind_eq_ok.mp h
  obtain ⟨signature, hsignature, h⟩ := bind_eq_ok.mp h
  obtain ⟨hverify, h⟩ := unit_bind_eq_ok.mp h
  rw [Except.ok.injEq] at h
  subst h
  rw [takeRequired_eq_ok] at heventIdValue hbodyValue hsignatureValue
  have hsorted := strictJson_sorted hvalue
  obtain ⟨rfl, -⟩ := parseBody_eq_ok (hsorted.member hbodyValue) hbody
  obtain ⟨idText, rfl, hidText⟩ := parseText_eq_ok.mp heventId
  rw [EventId.parse_eq_ok] at hidText
  obtain ⟨signatureText, rfl, hsignatureText⟩ := parseText_eq_ok.mp hsignature
  rw [EventSignature.parse_eq_ok] at hsignatureText
  refine ⟨ensure_eq_ok.mp hsize, ?_, hverify⟩
  rw [hvalue, toJson]
  refine congrArg (Except.ok ∘ Json.obj) (hsorted.increasing.eq_of_member
    (toJson_increasing (B := B) ⟨eventId, body, signature⟩) (fun m hm ↦ ?_) fun m hm ↦ ?_)
  · have := hknown m hm
    simp only [List.mem_cons, List.not_mem_nil, or_false] at this
    simp only [List.map_cons, List.map_nil, List.mem_cons, List.not_mem_nil, or_false]
    tauto
  · simp only [List.mem_cons, List.not_mem_nil, or_false] at hm
    rcases hm with rfl | rfl | rfl
    · exact hbodyValue
    · rw [heventIdValue, hidText]
    · rw [hsignatureValue, hsignatureText]

theorem toWire_eq_ok {event : SignedEventV1} {wire : Bytes} :
    event.toWire B = .ok wire ↔
      event.verify B = .ok () ∧ canonicalize B (event.toJson B) = .ok wire := unit_bind_eq_ok

theorem verify_validate {event : SignedEventV1} (h : event.verify B = .ok ()) :
    event.body.validate B = .ok () := (unit_bind_eq_ok.mp h).1

/-- The envelope adds 177 bytes to the body. -/
theorem length_toJson (event : SignedEventV1) :
    canonicalLength B (event.toJson B) = canonicalLength B (event.body.toJson B) + 177 := by
  have hid : canonicalLength B (.str (event.eventId.text B)) = 50 := by
    rw [EventId.text, canonicalLength_fixedText _ (by decide)]
    decide
  have hsignature : canonicalLength B (.str (event.signature.text B)) = 93 := by
    rw [EventSignature.text, canonicalLength_fixedText _ (by decide)]
    decide
  have hnames : canonicalLength B (.str "body") = 6 ∧ canonicalLength B (.str "event_id") = 10 ∧
      canonicalLength B (.str "signature") = 11 := by
    refine ⟨?_, ?_, ?_⟩ <;>
    · rw [canonicalLength_plain (by decide)]
      decide
  rw [toJson, canonicalLength_obj event.toJson_increasing]
  simp only [List.map_cons, List.map_nil, List.sum_cons, List.sum_nil, List.length_cons,
    List.length_nil, hid, hsignature, hnames]
  omega

theorem length_toWire_le {event : SignedEventV1} {wire : Bytes} (h : event.toWire B = .ok wire) :
    wire.length ≤ MAX_CANONICAL_BODY_BYTES + 177 := by
  obtain ⟨hverify, hcanonical⟩ := toWire_eq_ok.mp h
  have hvalid := verify_validate hverify
  obtain ⟨-, hvalid⟩ := unit_bind_eq_ok.mp hvalid
  obtain ⟨-, hvalid⟩ := unit_bind_eq_ok.mp hvalid
  obtain ⟨-, hvalid⟩ := unit_bind_eq_ok.mp hvalid
  obtain ⟨-, hvalid⟩ := unit_bind_eq_ok.mp hvalid
  obtain ⟨-, hvalid⟩ := unit_bind_eq_ok.mp hvalid
  obtain ⟨payload, -, hvalid⟩ := bind_eq_ok.mp hvalid
  obtain ⟨-, hvalid⟩ := unit_bind_eq_ok.mp hvalid
  obtain ⟨bytes, hbytes, hbound⟩ := bind_eq_ok.mp hvalid
  rw [ensure_eq_ok, canonicalize_length hbytes] at hbound
  rw [canonicalize_length hcanonical, length_toJson]
  omega

/-- The envelope of a valid body is far below the raw wire bound. -/
theorem toWire_length {event : SignedEventV1} {wire : Bytes} (h : event.toWire B = .ok wire) :
    wire.length ≤ MAX_RAW_WIRE_BYTES := (length_toWire_le h).trans (by decide)

theorem toJson_depth_le {event : SignedEventV1} (h : event.body.validate B = .ok ()) :
    (event.toJson B).depth ≤ 66 := by
  obtain ⟨-, h⟩ := unit_bind_eq_ok.mp h
  obtain ⟨-, h⟩ := unit_bind_eq_ok.mp h
  obtain ⟨-, h⟩ := unit_bind_eq_ok.mp h
  obtain ⟨-, h⟩ := unit_bind_eq_ok.mp h
  obtain ⟨hpayload, -⟩ := unit_bind_eq_ok.mp h
  have hdepth := validateJsonValue_depth _ _ hpayload
  have hparents : (Json.arr (event.body.parents.map fun id ↦ .str (id.text B))).depth ≤ 1 :=
    depth_arr_le fun v hv ↦ by
      obtain ⟨id, -, rfl⟩ := List.mem_map.mp hv
      exact Nat.le_refl 0
  have hbody : (event.body.toJson B).depth ≤ 65 := depth_obj_le (n := 64) fun m hm ↦ by
    simp only [List.mem_cons, List.not_mem_nil, or_false] at hm
    rcases hm with rfl | rfl | rfl | rfl | rfl | rfl
    · exact Nat.zero_le _
    · exact Nat.zero_le _
    · exact Nat.zero_le _
    · exact hparents.trans (by decide)
    · exact Nat.le_of_succ_le_succ hdepth
    · exact Nat.zero_le _
  refine depth_obj_le (n := 65) fun m hm ↦ ?_
  simp only [List.mem_cons, List.not_mem_nil, or_false] at hm
  rcases hm with rfl | rfl | rfl
  · exact hbody
  · exact Nat.zero_le _
  · exact Nat.zero_le _

/-- The envelope of a valid body nests far below the limit of the tokenizer. -/
theorem toJson_depth {event : SignedEventV1} (h : event.body.validate B = .ok ()) :
    (event.toJson B).depth ≤ MAX_NESTING := (toJson_depth_le h).trans (by decide)

/-- The wire of a settled event parses back to the event. -/
theorem fromWire_of_settled {event : SignedEventV1} {wire : Bytes}
    (hrender : event.toWire B = .ok wire) (hsettled : Settled B (event.toJson B)) :
    fromWire B wire = .ok event := by
  obtain ⟨hverify, hcanonical⟩ := toWire_eq_ok.mp hrender
  have hinc := event.toJson_increasing (B := B)
  have htake {name : String} {v : Json} (h : (name, v) ∈ [("body", event.body.toJson B),
      ("event_id", Json.str (event.eventId.text B)),
      ("signature", .str (event.signature.text B))]) : takeRequired _ name = .ok v :=
    takeRequired_eq_ok.mpr (member_of_mem hinc h)
  rw [fromWire, ensure_true (toWire_length hrender), ok_bind,
    strictJson_canonicalize hcanonical (toJson_depth (verify_validate hverify)), ok_bind, hsettled,
    toJson, intoObject, ok_bind, rejectUnknown, ensure_true (by simp), ok_bind,
    htake (v := .str (event.eventId.text B)) (by simp), ok_bind,
    htake (v := event.body.toJson B) (by simp), ok_bind,
    htake (v := .str (event.signature.text B)) (by simp), ok_bind,
    parseBody_toJson (verify_validate hverify), ok_bind,
    parseText_eq_ok.mpr ⟨_, rfl, EventId.parse_eq_ok.mpr rfl⟩, ok_bind,
    parseText_eq_ok.mpr ⟨_, rfl, EventSignature.parse_eq_ok.mpr rfl⟩, ok_bind]
  exact unit_bind_eq_ok.mpr ⟨hverify, rfl⟩

/-- An event parsed from canonical bytes is authentic on them. -/
theorem authentic_of_canonical {v : Json} {wire : Bytes} {event : SignedEventV1}
    (hv : canonicalize B v = .ok wire) (h : fromWire B wire = .ok event) :
    event.Authentic B wire := by
  obtain ⟨-, htext, hverify⟩ := fromWire_eq_ok h
  refine ⟨h, toWire_eq_ok.mpr ⟨hverify, ?_⟩⟩
  rw [strictJson_inverse hv htext, canonicalize_collect, hv]

theorem Authentic.settled {event : SignedEventV1} {wire : Bytes} (h : event.Authentic B wire) :
    Settled B (event.toJson B) := by
  exact (strictJson_inverse (toWire_eq_ok.mp h.renders).2 (fromWire_eq_ok h.parses).2.1).symm

/-- The signed envelope determines the event. -/
theorem toJson_injective {first second : SignedEventV1} (h : first.toJson B = second.toJson B) :
    first = second := by
  obtain ⟨firstId, ⟨v, c, ps, k, a, payload⟩, firstSignature⟩ := first
  obtain ⟨secondId, ⟨v', c', ps', k', a', payload'⟩, secondSignature⟩ := second
  simp only [toJson, EventBodyV1.toJson, Json.obj.injEq, List.cons.injEq, Prod.mk.injEq,
    Json.str.injEq, Json.arr.injEq, Json.num.injEq, Number.posInt.injEq, true_and,
    and_true] at h
  obtain ⟨⟨ha, hc, rfl, hps, rfl, rfl⟩, hid, hsignature⟩ := h
  obtain rfl : firstId = secondId := EventId.text_injective hid
  obtain rfl : ps = ps' := by
    refine List.map_injective_iff.mpr (fun x y hxy ↦ ?_) hps
    exact EventId.text_injective (Json.str.inj hxy)
  obtain rfl : a = a' := by
    obtain ⟨a⟩ := a
    obtain ⟨a'⟩ := a'
    exact congrArg AuthorId.mk (fixedText_injective _ _ ha)
  obtain rfl : c = c' := by
    obtain ⟨c⟩ := c
    obtain ⟨c'⟩ := c'
    exact congrArg ContextId.mk (fixedText_injective _ _ hc)
  obtain rfl : firstSignature = secondSignature := by
    obtain ⟨s⟩ := firstSignature
    obtain ⟨s'⟩ := secondSignature
    exact congrArg EventSignature.mk (fixedText_injective _ _ hsignature)
  rfl

/-- The wire of an event parses to an authentic event with the same identity, the same signature
and the same signed columns; only numbers inside the payload may be spelled differently. -/
theorem fromWire_toWire {event verified : SignedEventV1} {wire : Bytes}
    (hrender : event.toWire B = .ok wire) (hparse : fromWire B wire = .ok verified) :
    verified.Authentic B wire ∧ verified.eventId = event.eventId ∧
      verified.body.context = event.body.context ∧ verified.body.author = event.body.author ∧
      verified.body.kind = event.body.kind ∧ verified.body.parents = event.body.parents := by
  obtain ⟨-, hcanonical⟩ := toWire_eq_ok.mp hrender
  refine ⟨authentic_of_canonical hcanonical hparse, ?_⟩
  have htext := (strictJson_inverse hcanonical (fromWire_eq_ok hparse).2.1).symm
  rw [toJson, Json.collect_obj _ event.toJson_increasing] at htext
  have hbody : (event.body.toJson B).collect B.reread = verified.body.toJson B ∧
      event.eventId.text B = verified.eventId.text B := by
    simp only [List.map_cons, List.map_nil, toJson, Json.obj.injEq, List.cons.injEq,
      Prod.mk.injEq, true_and, and_true, Json.collect, Json.str.injEq] at htext
    exact ⟨htext.1, htext.2.1⟩
  obtain ⟨hbody, hid⟩ := hbody
  rw [EventBodyV1.toJson, Json.collect_obj _ event.body.toJson_increasing] at hbody
  simp only [List.map_cons, List.map_nil, EventBodyV1.toJson, Json.obj.injEq, List.cons.injEq,
    Prod.mk.injEq, true_and, and_true, Json.collect, Json.str.injEq, Json.arr.injEq] at hbody
  obtain ⟨hauthor, hcontext, hkind, hparents, -⟩ := hbody
  refine ⟨(EventId.text_injective hid).symm, ?_, ?_, hkind.symm, ?_⟩
  · exact (congrArg ContextId.mk (fixedText_injective _ _ hcontext)).symm
  · exact (congrArg AuthorId.mk (fixedText_injective _ _ hauthor)).symm
  · rw [collectItems_eq_map, List.map_map] at hparents
    have hsame : (Json.collect B.reread ∘ fun id : EventId ↦ Json.str (id.text B)) =
        fun id ↦ Json.str (id.text B) := funext fun id ↦ by simp [Json.collect]
    rw [hsame] at hparents
    exact (List.map_injective_iff.mpr
      (fun x y hxy ↦ EventId.text_injective (Json.str.inj hxy)) hparents).symm

end SignedEventV1

end ContextMesh.Contract
