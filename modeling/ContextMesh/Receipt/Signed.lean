import ContextMesh.Receipt.Record
import ContextMesh.Reference.Golden

/-!
The signed receipt. Issuing a receipt and reading one from its wire both check the identifier, the
signature and the order of the events; of the content hash they check the prefix only, so a receipt
misquotes its task exactly when the task record that went in does.
-/

set_option autoImplicit false
set_option relaxedAutoImplicit false

namespace ContextMesh.Receipt

open Checked Ordered Contract

/-- BLAKE3 derive-key context for receipt identifiers. -/
def RECEIPT_ID_DOMAIN : String := "org.aaif.contextmesh.receipt-id.v1"

/-- ASCII prefix of receipt signature messages, with its separating zero byte. -/
def RECEIPT_SIGNATURE_DOMAIN : Bytes := asBytes "org.aaif.contextmesh.receipt-signature.v1" ++ [0]

structure ReceiptId where
  bytes : Fixed 32
  deriving DecidableEq

structure ReceiptSignature where
  bytes : Fixed 64
  deriving DecidableEq

structure SignedReceiptV1 where
  receiptId : ReceiptId
  body : ReceiptBodyV1
  signature : ReceiptSignature

variable (B : Boundary)

namespace ReceiptId
def text (id : ReceiptId) : String := fixedText B "rcpt1_" id.bytes
def parse (text : String) : Except ContractError ReceiptId :=
  parseFixed B "rcpt1_" 32 text >>= fun bytes ↦ .ok ⟨bytes⟩
end ReceiptId

namespace ReceiptSignature
def text (signature : ReceiptSignature) : String := fixedText B "rsig1_" signature.bytes
def parse (text : String) : Except ContractError ReceiptSignature :=
  parseFixed B "rsig1_" 64 text >>= fun bytes ↦ .ok ⟨bytes⟩
end ReceiptSignature

/-- The BLAKE3 receipt identifier of the canonical body. -/
def deriveReceiptId (body : ReceiptBodyV1) : Except ContractError ReceiptId := do
  let canonical ← body.canonicalBytes B
  .ok ⟨B.deriveKey RECEIPT_ID_DOMAIN canonical⟩

/-- The signature of a message under an explicit domain prefix. -/
def signDomainMessage (identity : SigningIdentity) (domain message : Bytes) : Fixed 64 :=
  B.sign identity.seed (domain ++ message)

/-- Strictly verifies a message signed under an explicit domain prefix. -/
def verifyDomainMessage (author : AuthorId) (domain message : Bytes) (signature : Fixed 64) :
    Except ContractError Unit := do
  ensure (B.isVerifyingKey author.bytes) .signatureInvalid
  ensure (B.verifyStrict author.bytes (domain ++ message) signature) .signatureInvalid

def verifyParts (body : ReceiptBodyV1) (suppliedId : ReceiptId) (signature : ReceiptSignature) :
    Except ContractError Unit := do
  body.validate B
  let expectedId ← deriveReceiptId B body
  ensure (suppliedId = expectedId) .idMismatch
  verifyDomainMessage B body.author RECEIPT_SIGNATURE_DOMAIN suppliedId.bytes.1 signature.bytes

/-! ### Reading -/

def parseVersion : Json → Except ContractError ℕ
  | .num (.posInt n) =>
    ensure (n = RECEIPT_VERSION) .unsupportedVersion >>= fun _ ↦ .ok RECEIPT_VERSION
  | .num _ => .error .unsupportedVersion
  | _ => .error .jsonSyntax

def parseEvents : Json → Except ContractError (List EventId)
  | .arr values => mapEach (parseText (EventId.parse B)) values
  | _ => .error .jsonSyntax

def parseTask (value : Json) : Except ContractError TaskRecordV1 := do
  let object ← intoObject value
  rejectUnknown object ["verbatim", "content_hash", "structured"]
  let verbatim ← takeRequired object "verbatim" >>= intoString
  let contentHash ← takeRequired object "content_hash" >>= intoString
  let structured := match member object "structured" with
    | some .null | none => none
    | some value => some value
  TaskRecordV1.new B verbatim contentHash structured

def parseRecipient (value : Json) : Except ContractError RecipientStateV1 := do
  let object ← intoObject value
  rejectUnknown object ["head"]
  let head ← takeRequired object "head" >>= parseText (EventId.parse B)
  .ok ⟨head⟩

def parseSelector (value : Json) : Except ContractError SelectorRecordV1 := do
  let object ← intoObject value
  rejectUnknown object ["identity", "version", "config_hash"]
  let identity ← takeRequired object "identity" >>= intoString
  let version ← takeRequired object "version" >>= intoString
  let configHash ← takeRequired object "config_hash" >>= intoString
  SelectorRecordV1.new identity version configHash

def parseNotes : Json → Except ContractError (List String)
  | .arr values => mapEach intoString values
  | _ => .error .jsonSyntax

def parseBody (value : Json) : Except ContractError ReceiptBodyV1 := do
  let object ← intoObject value
  rejectUnknown object ["version", "context", "events", "task", "recipient", "selector",
    "omissions", "uncertainty", "created_at", "author"]
  let versionValue ← takeRequired object "version"
  let contextValue ← takeRequired object "context"
  let eventsValue ← takeRequired object "events"
  let taskValue ← takeRequired object "task"
  let recipientValue ← takeRequired object "recipient"
  let selectorValue ← takeRequired object "selector"
  let omissionsValue ← takeRequired object "omissions"
  let uncertaintyValue ← takeRequired object "uncertainty"
  let createdAtValue ← takeRequired object "created_at"
  let authorValue ← takeRequired object "author"
  let version ← parseVersion versionValue
  let context ← parseText (ContextId.parse B) contextValue
  let events ← parseEvents B eventsValue
  let task ← parseTask B taskValue
  let recipient ← parseRecipient B recipientValue
  let selector ← parseSelector selectorValue
  let omissions ← parseNotes omissionsValue
  let uncertainty ← parseNotes uncertaintyValue
  let createdAt ← intoString createdAtValue
  let author ← parseText (AuthorId.parse B) authorValue
  let body : ReceiptBodyV1 := ⟨version, context, events, task, recipient, selector, omissions,
    uncertainty, createdAt, author⟩
  body.validate B
  .ok body

namespace SignedReceiptV1

/-- The envelope as its serializer presents it. -/
def members (receipt : SignedReceiptV1) : Members :=
  [("body", receipt.body.toJson B),
    ("receipt_id", .str (receipt.receiptId.text B)),
    ("signature", .str (receipt.signature.text B))]

def toJson (receipt : SignedReceiptV1) : Json := .obj (receipt.members B)

def verify (receipt : SignedReceiptV1) : Except ContractError Unit :=
  verifyParts B receipt.body receipt.receiptId receipt.signature

/-- Validates, identifies and signs a body. -/
def issue (identity : SigningIdentity) (body : ReceiptBodyV1) :
    Except ContractError SignedReceiptV1 := do
  body.validate B
  ensure (body.author = identity.author B) .authorMismatch
  let receiptId ← deriveReceiptId B body
  let receipt : SignedReceiptV1 := ⟨receiptId, body,
    ⟨signDomainMessage B identity RECEIPT_SIGNATURE_DOMAIN receiptId.bytes.1⟩⟩
  receipt.verify B
  .ok receipt

def fromWire (input : Bytes) : Except ContractError SignedReceiptV1 := do
  ensure (input.length ≤ MAX_RECEIPT_WIRE_BYTES) .wireTooLarge
  let value ← strictJson B input
  let object ← intoObject value
  rejectUnknown object ["receipt_id", "body", "signature"]
  let receiptIdValue ← takeRequired object "receipt_id"
  let bodyValue ← takeRequired object "body"
  let signatureValue ← takeRequired object "signature"
  let body ← parseBody B bodyValue
  let receiptId ← parseText (ReceiptId.parse B) receiptIdValue
  let signature ← parseText (ReceiptSignature.parse B) signatureValue
  verifyParts B body receiptId signature
  .ok ⟨receiptId, body, signature⟩

def toWire (receipt : SignedReceiptV1) : Except ContractError Bytes := do
  receipt.verify B
  canonicalize B (receipt.toJson B)

end SignedReceiptV1

variable {B}

/-! ### What is checked -/

theorem deriveReceiptId_eq_ok {body : ReceiptBodyV1} {id : ReceiptId} :
    deriveReceiptId B body = .ok id ↔ body.validate B = .ok () ∧
      ∃ bytes, canonicalize B (body.toJson B) = .ok bytes ∧
        id = ⟨B.deriveKey RECEIPT_ID_DOMAIN bytes⟩ := by
  unfold deriveReceiptId ReceiptBodyV1.canonicalBytes
  constructor
  · intro hok
    obtain ⟨bytes, hbytes, hid⟩ := bind_eq_ok.mp hok
    obtain ⟨hvalid, hbytes⟩ := unit_bind_eq_ok.mp hbytes
    exact ⟨hvalid, bytes, hbytes, (Except.ok.inj hid).symm⟩
  · rintro ⟨hvalid, bytes, hbytes, rfl⟩
    rw [hvalid, ok_bind, hbytes, ok_bind]

/-- The checks of a receipt, on its parts. -/
theorem verifyParts_eq_ok {body : ReceiptBodyV1} {id : ReceiptId} {signature : ReceiptSignature} :
    verifyParts B body id signature = .ok () ↔ body.validate B = .ok () ∧
      (∃ bytes, canonicalize B (body.toJson B) = .ok bytes ∧
        id = ⟨B.deriveKey RECEIPT_ID_DOMAIN bytes⟩) ∧
      B.isVerifyingKey body.author.bytes = true ∧
      B.verifyStrict body.author.bytes (RECEIPT_SIGNATURE_DOMAIN ++ id.bytes.1) signature.bytes =
        true := by
  unfold verifyParts verifyDomainMessage
  constructor
  · intro hok
    obtain ⟨hvalid, hok⟩ := unit_bind_eq_ok.mp hok
    obtain ⟨expected, hexpected, hok⟩ := bind_eq_ok.mp hok
    obtain ⟨hid, hok⟩ := unit_bind_eq_ok.mp hok
    obtain ⟨hkey, hsignature⟩ := unit_bind_eq_ok.mp hok
    rw [ensure_eq_ok.mp hid] at hsignature ⊢
    exact ⟨hvalid, (deriveReceiptId_eq_ok.mp hexpected).2, ensure_eq_ok.mp hkey,
      ensure_eq_ok.mp hsignature⟩
  · rintro ⟨hvalid, hid, hkey, hsignature⟩
    rw [hvalid, ok_bind, deriveReceiptId_eq_ok.mpr ⟨hvalid, hid⟩, ok_bind, ensure_true rfl, ok_bind,
      ensure_true hkey, ok_bind, ensure_true hsignature]

/-- The task that was read is the task of the document. -/
theorem parseTask_eq_ok {value : Json} {task : TaskRecordV1} (h : parseTask B value = .ok task) :
    ∃ object, value = .obj object ∧ member object "verbatim" = some (.str task.verbatim) ∧
      member object "content_hash" = some (.str task.contentHash) := by
  obtain ⟨object, hobject, h⟩ := bind_eq_ok.mp h
  obtain ⟨-, h⟩ := unit_bind_eq_ok.mp h
  obtain ⟨verbatim, hverbatim, h⟩ := bind_eq_ok.mp h
  obtain ⟨contentHash, hcontentHash, h⟩ := bind_eq_ok.mp h
  obtain ⟨-, h⟩ := unit_bind_eq_ok.mp h
  obtain ⟨verbatimValue, hverbatimValue, hverbatim⟩ := bind_eq_ok.mp hverbatim
  obtain ⟨hashValue, hhashValue, hcontentHash⟩ := bind_eq_ok.mp hcontentHash
  rw [intoString_eq_ok] at hverbatim hcontentHash
  subst hverbatim hcontentHash
  rw [← Except.ok.inj h]
  exact ⟨object, intoObject_eq_ok.mp hobject, takeRequired_eq_ok.mp hverbatimValue,
    takeRequired_eq_ok.mp hhashValue⟩

theorem parseBody_task {value : Json} {body : ReceiptBodyV1} (h : parseBody B value = .ok body) :
    ∃ object task, value = .obj object ∧ member object "task" = some task ∧
      parseTask B task = .ok body.task := by
  obtain ⟨object, hobject, h⟩ := bind_eq_ok.mp h
  obtain ⟨-, h⟩ := unit_bind_eq_ok.mp h
  obtain ⟨_, -, h⟩ := bind_eq_ok.mp h
  obtain ⟨_, -, h⟩ := bind_eq_ok.mp h
  obtain ⟨_, -, h⟩ := bind_eq_ok.mp h
  obtain ⟨taskValue, htaskValue, h⟩ := bind_eq_ok.mp h
  obtain ⟨_, -, h⟩ := bind_eq_ok.mp h
  obtain ⟨_, -, h⟩ := bind_eq_ok.mp h
  obtain ⟨_, -, h⟩ := bind_eq_ok.mp h
  obtain ⟨_, -, h⟩ := bind_eq_ok.mp h
  obtain ⟨_, -, h⟩ := bind_eq_ok.mp h
  obtain ⟨_, -, h⟩ := bind_eq_ok.mp h
  obtain ⟨_, -, h⟩ := bind_eq_ok.mp h
  obtain ⟨_, -, h⟩ := bind_eq_ok.mp h
  obtain ⟨_, -, h⟩ := bind_eq_ok.mp h
  obtain ⟨task, htask, h⟩ := bind_eq_ok.mp h
  obtain ⟨_, -, h⟩ := bind_eq_ok.mp h
  obtain ⟨_, -, h⟩ := bind_eq_ok.mp h
  obtain ⟨_, -, h⟩ := bind_eq_ok.mp h
  obtain ⟨_, -, h⟩ := bind_eq_ok.mp h
  obtain ⟨_, -, h⟩ := bind_eq_ok.mp h
  obtain ⟨_, -, h⟩ := bind_eq_ok.mp h
  obtain ⟨-, h⟩ := unit_bind_eq_ok.mp h
  rw [← Except.ok.inj h]
  exact ⟨object, taskValue, intoObject_eq_ok.mp hobject, takeRequired_eq_ok.mp htaskValue, htask⟩

/-- What issuing establishes: the receipt carries the body it was given, and passes its checks. -/
theorem SignedReceiptV1.issue_eq_ok {identity : SigningIdentity} {body : ReceiptBodyV1}
    {receipt : SignedReceiptV1} (hok : issue B identity body = .ok receipt) :
    receipt.body = body ∧ receipt.verify B = .ok () := by
  obtain ⟨-, hok⟩ := unit_bind_eq_ok.mp hok
  obtain ⟨-, hok⟩ := unit_bind_eq_ok.mp hok
  obtain ⟨receiptId, -, hok⟩ := bind_eq_ok.mp hok
  obtain ⟨hverify, hok⟩ := unit_bind_eq_ok.mp hok
  rw [← Except.ok.inj hok]
  exact ⟨rfl, hverify⟩

/-- What reading establishes: the receipt carries the task of the document, and passes its
checks. -/
theorem SignedReceiptV1.fromWire_eq_ok {input : Bytes} {receipt : SignedReceiptV1}
    (hok : fromWire B input = .ok receipt) : receipt.verify B = .ok () ∧
      ∃ object body task, strictJson B input = .ok (.obj object) ∧
        member object "body" = some (.obj body) ∧ member body "task" = some (.obj task) ∧
        member task "verbatim" = some (.str receipt.body.task.verbatim) ∧
        member task "content_hash" = some (.str receipt.body.task.contentHash) := by
  obtain ⟨-, hok⟩ := unit_bind_eq_ok.mp hok
  obtain ⟨value, hvalue, hok⟩ := bind_eq_ok.mp hok
  obtain ⟨object, hobject, hok⟩ := bind_eq_ok.mp hok
  obtain ⟨-, hok⟩ := unit_bind_eq_ok.mp hok
  obtain ⟨_, -, hok⟩ := bind_eq_ok.mp hok
  obtain ⟨bodyValue, hbodyValue, hok⟩ := bind_eq_ok.mp hok
  obtain ⟨_, -, hok⟩ := bind_eq_ok.mp hok
  obtain ⟨body, hbody, hok⟩ := bind_eq_ok.mp hok
  obtain ⟨_, -, hok⟩ := bind_eq_ok.mp hok
  obtain ⟨_, -, hok⟩ := bind_eq_ok.mp hok
  obtain ⟨hverify, hok⟩ := unit_bind_eq_ok.mp hok
  rw [← Except.ok.inj hok]
  obtain ⟨members, taskValue, rfl, htaskValue, htask⟩ := parseBody_task hbody
  obtain ⟨task, rfl, hverbatim, hcontentHash⟩ := parseTask_eq_ok htask
  rw [intoObject_eq_ok] at hobject
  subst hobject
  exact ⟨hverify, object, members, task, hvalue, takeRequired_eq_ok.mp hbodyValue, htaskValue,
    hverbatim, hcontentHash⟩

/-! ### The round trip -/

theorem ReceiptId.parse_eq_ok {text : String} {id : ReceiptId} :
    ReceiptId.parse B text = .ok id ↔ id.text B = text :=
  parse_wrapped_eq_ok ReceiptId.bytes (fun _ ↦ rfl) fun _ ↦ rfl

theorem ReceiptSignature.parse_eq_ok {text : String} {signature : ReceiptSignature} :
    ReceiptSignature.parse B text = .ok signature ↔ signature.text B = text :=
  parse_wrapped_eq_ok ReceiptSignature.bytes (fun _ ↦ rfl) fun _ ↦ rfl

theorem take_of_mem {members : Members} (h : Increasing members) {name : String} {v : Json}
    (hmem : (name, v) ∈ members) : takeRequired members name = .ok v :=
  takeRequired_eq_ok.mpr (member_of_mem h hmem)

/-- A valid task record whose structured form is not null parses back from its serialized form. -/
theorem parseTask_toJson {task : TaskRecordV1} (hvalid : task.validate B = .ok ())
    (hform : task.structured ≠ some .null) : parseTask B task.toJson = .ok task := by
  have hinc := task.members_increasing
  have hstructured : member task.members "structured" = some (task.structured.getD .null) :=
    member_of_mem hinc (by simp [TaskRecordV1.members])
  have hread : (match member task.members "structured" with
      | some .null | none => none
      | some value => some value) = task.structured := by
    rw [hstructured]
    cases hvalue : task.structured with
    | none => rfl
    | some value =>
      cases value with
      | null => exact absurd hvalue hform
      | _ => rfl
  rw [parseTask, TaskRecordV1.toJson, intoObject, ok_bind, rejectUnknown,
    ensure_true (by simp [TaskRecordV1.members]), ok_bind,
    take_of_mem hinc (v := .str task.verbatim) (by simp [TaskRecordV1.members]), ok_bind,
    intoString, ok_bind,
    take_of_mem hinc (v := .str task.contentHash) (by simp [TaskRecordV1.members]), ok_bind,
    intoString, ok_bind]
  dsimp only
  rw [hread, TaskRecordV1.new]
  exact unit_bind_eq_ok.mpr ⟨hvalid, rfl⟩

theorem parseSelector_toJson {selector : SelectorRecordV1} (hvalid : selector.validate = .ok ()) :
    parseSelector selector.toJson = .ok selector := by
  have hinc := selector.members_increasing
  rw [parseSelector, SelectorRecordV1.toJson, intoObject, ok_bind, rejectUnknown,
    ensure_true (by simp [SelectorRecordV1.members]), ok_bind,
    take_of_mem hinc (v := .str selector.identity) (by simp [SelectorRecordV1.members]), ok_bind,
    intoString, ok_bind,
    take_of_mem hinc (v := .str selector.version) (by simp [SelectorRecordV1.members]), ok_bind,
    intoString, ok_bind,
    take_of_mem hinc (v := .str selector.configHash) (by simp [SelectorRecordV1.members]), ok_bind,
    intoString, ok_bind, SelectorRecordV1.new]
  exact unit_bind_eq_ok.mpr ⟨hvalid, rfl⟩

theorem parseRecipient_toJson (recipient : RecipientStateV1) :
    parseRecipient B (recipient.toJson B) = .ok recipient := by
  rw [parseRecipient, RecipientStateV1.toJson, intoObject, ok_bind, rejectUnknown,
    ensure_true (by simp), ok_bind,
    take_of_mem (List.pairwise_singleton _ _) (List.mem_singleton_self _), ok_bind,
    parseText_eq_ok.mpr ⟨_, rfl, EventId.parse_eq_ok.mpr rfl⟩, ok_bind]

theorem parseNotes_texts (notes : List String) :
    parseNotes (.arr (notes.map .str)) = .ok notes := by
  have hread : mapEach intoString (notes.map .str) = .ok (notes.map id) :=
    mapEach_map fun _ _ ↦ rfl
  rwa [List.map_id] at hread

theorem parseEvents_texts (events : List EventId) :
    parseEvents B (.arr (events.map fun id ↦ .str (id.text B))) = .ok events := by
  have hread : mapEach (parseText (EventId.parse B)) (events.map fun id ↦ .str (id.text B)) =
      .ok (events.map id) :=
    mapEach_map fun _ _ ↦ parseText_eq_ok.mpr ⟨_, rfl, EventId.parse_eq_ok.mpr rfl⟩
  rwa [List.map_id] at hread

/-- The serialized form of a valid body parses back to it. -/
theorem parseBody_toJson {body : ReceiptBodyV1} (hvalid : body.validate B = .ok ())
    (hform : body.task.structured ≠ some .null) : parseBody B (body.toJson B) = .ok body := by
  have hinc := body.members_increasing (B := B)
  obtain ⟨hversion, -, -, htask, hselector, -⟩ := ReceiptBodyV1.validate_eq_ok.mp hvalid
  have htake {name : String} {v : Json} (hmem : (name, v) ∈ body.members B) :
      takeRequired (body.members B) name = .ok v := take_of_mem hinc hmem
  rw [parseBody, ReceiptBodyV1.toJson, intoObject, ok_bind, rejectUnknown,
    ensure_true (by simp [ReceiptBodyV1.members]), ok_bind,
    htake (v := .num (.posInt body.version)) (by simp [ReceiptBodyV1.members]), ok_bind,
    htake (v := .str (body.context.text B)) (by simp [ReceiptBodyV1.members]), ok_bind,
    htake (v := .arr (body.events.map fun id ↦ .str (id.text B)))
      (by simp [ReceiptBodyV1.members]), ok_bind,
    htake (v := body.task.toJson) (by simp [ReceiptBodyV1.members]), ok_bind,
    htake (v := body.recipient.toJson B) (by simp [ReceiptBodyV1.members]), ok_bind,
    htake (v := body.selector.toJson) (by simp [ReceiptBodyV1.members]), ok_bind,
    htake (v := .arr (body.omissions.map .str)) (by simp [ReceiptBodyV1.members]), ok_bind,
    htake (v := .arr (body.uncertainty.map .str)) (by simp [ReceiptBodyV1.members]), ok_bind,
    htake (v := .str body.createdAt) (by simp [ReceiptBodyV1.members]), ok_bind,
    htake (v := .str (body.author.text B)) (by simp [ReceiptBodyV1.members]), ok_bind,
    parseVersion, ensure_true hversion, ok_bind, ok_bind,
    parseText_eq_ok.mpr ⟨_, rfl, ContextId.parse_eq_ok.mpr rfl⟩, ok_bind, parseEvents_texts,
    ok_bind, parseTask_toJson htask hform, ok_bind, parseRecipient_toJson, ok_bind,
    parseSelector_toJson hselector, ok_bind, parseNotes_texts, ok_bind, parseNotes_texts, ok_bind,
    intoString, ok_bind, parseText_eq_ok.mpr ⟨_, rfl, AuthorId.parse_eq_ok.mpr rfl⟩, ok_bind,
    ← hversion]
  exact unit_bind_eq_ok.mpr ⟨hvalid, rfl⟩

/-- The wire of a verified receipt within the bound reads back as the receipt, unless its structured
form is a null or has numbers that are not spelled as they are read. -/
theorem SignedReceiptV1.fromWire_of_settled {receipt : SignedReceiptV1} {wire : Bytes}
    (hrender : receipt.toWire B = .ok wire) (hbound : wire.length ≤ MAX_RECEIPT_WIRE_BYTES)
    (hform : receipt.body.task.structured ≠ some .null)
    (hsettled : ∀ structured ∈ receipt.body.task.structured, Settled B structured) :
    fromWire B wire = .ok receipt := by
  obtain ⟨hverify, hcanonical⟩ := unit_bind_eq_ok.mp hrender
  have hvalid := (verifyParts_eq_ok.mp hverify).1
  obtain ⟨hversion, -, -, htask, -⟩ := ReceiptBodyV1.validate_eq_ok.mp hvalid
  have hinc : Increasing (receipt.members B) :=
    increasing_of_names ["body", "receipt_id", "signature"] rfl (by decide)
  have hsame : Settled B (receipt.toJson B) := by
    refine settled_obj hinc fun m hm ↦ ?_
    simp only [members, List.mem_cons, List.not_mem_nil, or_false] at hm
    rcases hm with rfl | rfl | rfl
    · exact ReceiptBodyV1.settled_toJson hversion hsettled
    · exact settled_str _
    · exact settled_str _
  have hdepth : (receipt.toJson B).depth ≤ MAX_NESTING := by
    refine (depth_obj_le (n := 66) fun m hm ↦ ?_).trans (by decide)
    simp only [members, List.mem_cons, List.not_mem_nil, or_false] at hm
    rcases hm with rfl | rfl | rfl
    · exact ReceiptBodyV1.depth_toJson_le htask
    · exact Nat.zero_le _
    · exact Nat.zero_le _
  rw [fromWire, ensure_true hbound, ok_bind, strictJson_canonicalize hcanonical hdepth, ok_bind,
    hsame, toJson, intoObject, ok_bind, rejectUnknown, ensure_true (by simp [members]), ok_bind,
    take_of_mem hinc (v := .str (receipt.receiptId.text B)) (by simp [members]), ok_bind,
    take_of_mem hinc (v := receipt.body.toJson B) (by simp [members]), ok_bind,
    take_of_mem hinc (v := .str (receipt.signature.text B)) (by simp [members]), ok_bind,
    parseBody_toJson hvalid hform, ok_bind,
    parseText_eq_ok.mpr ⟨_, rfl, ReceiptId.parse_eq_ok.mpr rfl⟩, ok_bind,
    parseText_eq_ok.mpr ⟨_, rfl, ReceiptSignature.parse_eq_ok.mpr rfl⟩, ok_bind]
  exact unit_bind_eq_ok.mpr ⟨hverify, rfl⟩

/-- An honest issuer gets a receipt for every valid body of its own. -/
theorem SignedReceiptV1.issue_succeeds (hhonest : Honest B) {identity : SigningIdentity}
    {body : ReceiptBodyV1} (hvalid : body.validate B = .ok ())
    (hauthor : body.author = identity.author B) :
    ∃ receipt, issue B identity body = .ok receipt := by
  obtain ⟨bytes, hbytes⟩ := canonicalize_total (B := B) (body.toJson B)
  have hid := deriveReceiptId_eq_ok.mpr ⟨hvalid, bytes, hbytes, rfl⟩
  have hkey : B.isVerifyingKey body.author.bytes = true := by
    rw [hauthor]
    exact hhonest.verifying identity.seed
  have hsignature (message : Bytes) : B.verifyStrict body.author.bytes message
      (B.sign identity.seed message) = true := by
    rw [hauthor]
    exact hhonest.accepts identity.seed message
  have hverify := verifyParts_eq_ok.mpr ⟨hvalid, ⟨bytes, hbytes, rfl⟩, hkey, hsignature _⟩
  rw [issue, hvalid, ok_bind, ensure_true hauthor, ok_bind, hid, ok_bind]
  exact ⟨_, unit_bind_eq_ok.mpr ⟨hverify, rfl⟩⟩

/-! ### Truth -/

variable (B) in
/-- A receipt is internally true: its identifier is the hash of its body, its signature verifies,
its events increase strictly, and the content hash of its task is that of the text it carries. -/
structure InternallyTrue (blake3 : Bytes → Fixed 32) (receipt : SignedReceiptV1) : Prop where
  identified : ∃ bytes, canonicalize B (receipt.body.toJson B) = .ok bytes ∧
    receipt.receiptId = ⟨B.deriveKey RECEIPT_ID_DOMAIN bytes⟩
  verifying : B.isVerifyingKey receipt.body.author.bytes = true
  signed : B.verifyStrict receipt.body.author.bytes
    (RECEIPT_SIGNATURE_DOMAIN ++ receipt.receiptId.bytes.1) receipt.signature.bytes = true
  ordered : Canonical (EventId.text B) receipt.body.events
  quoted : receipt.body.task.contentHash =
    taskContentHash blake3 (asBytes receipt.body.task.verbatim)

/-- A receipt that passes its checks is internally true exactly when it quotes its task. -/
theorem internallyTrue_iff {blake3 : Bytes → Fixed 32} {receipt : SignedReceiptV1}
    (hverify : receipt.verify B = .ok ()) : InternallyTrue B blake3 receipt ↔
      receipt.body.task.contentHash =
        taskContentHash blake3 (asBytes receipt.body.task.verbatim) := by
  obtain ⟨hvalid, hid, hkey, hsignature⟩ := verifyParts_eq_ok.mp hverify
  obtain ⟨-, -, hordered, -⟩ := ReceiptBodyV1.validate_eq_ok.mp hvalid
  exact ⟨InternallyTrue.quoted, fun hquoted ↦ ⟨hid, hkey, hsignature, hordered, hquoted⟩⟩

variable (B) in
/-- The document names, in the task of its body, the content hash of the text that stands there. -/
def QuotesTask (blake3 : Bytes → Fixed 32) (input : Bytes) : Prop :=
  ∃ object body task verbatim, strictJson B input = .ok (.obj object) ∧
    member object "body" = some (.obj body) ∧ member body "task" = some (.obj task) ∧
    member task "verbatim" = some (.str verbatim) ∧
    member task "content_hash" = some (.str (taskContentHash blake3 (asBytes verbatim)))

/-- A receipt that is issued is internally true exactly when the body it was issued for has a task
record with the hash of its text; a receipt that is read from a wire, exactly when the document
states that hash. Nothing else about a receipt can be false. -/
theorem accepted_internallyTrue_iff (B : Boundary) (blake3 : Bytes → Fixed 32) :
    (∀ identity body receipt, SignedReceiptV1.issue B identity body = .ok receipt →
      (InternallyTrue B blake3 receipt ↔
        body.task.contentHash = taskContentHash blake3 (asBytes body.task.verbatim))) ∧
    ∀ input receipt, SignedReceiptV1.fromWire B input = .ok receipt →
      (InternallyTrue B blake3 receipt ↔ QuotesTask B blake3 input) := by
  refine ⟨fun identity body receipt hok ↦ ?_, fun input receipt hok ↦ ?_⟩
  · obtain ⟨rfl, hverify⟩ := SignedReceiptV1.issue_eq_ok hok
    exact internallyTrue_iff hverify
  · obtain ⟨hverify, object, body, task, hvalue, hbody, htask, hverbatim, hcontentHash⟩ :=
      SignedReceiptV1.fromWire_eq_ok hok
    rw [internallyTrue_iff hverify]
    constructor
    · intro hquoted
      exact ⟨object, body, task, _, hvalue, hbody, htask, hverbatim, hquoted ▸ hcontentHash⟩
    · rintro ⟨object', body', task', verbatim, hvalue', hbody', htask', hverbatim', hquoted⟩
      rw [hvalue, Except.ok.injEq, Json.obj.injEq] at hvalue'
      subst hvalue'
      rw [hbody, Option.some.injEq, Json.obj.injEq] at hbody'
      subst hbody'
      rw [htask, Option.some.injEq, Json.obj.injEq] at htask'
      subst htask'
      rw [hverbatim, Option.some.injEq, Json.str.injEq] at hverbatim'
      rw [hcontentHash, Option.some.injEq, Json.str.injEq] at hquoted
      rw [hverbatim', hquoted]

section Golden

open Reference

/-- A receipt about nothing but its task, with a stated content hash. -/
def goldenBody (contentHash : String) : ReceiptBodyV1 where
  version := RECEIPT_VERSION
  context := Golden.context
  events := []
  task := ⟨"task", contentHash, none⟩
  recipient := ⟨Golden.first.id⟩
  selector := ⟨"selector", "1", "hash"⟩
  omissions := []
  uncertainty := []
  createdAt := "2026-01-01T00:00:00Z"
  author := Golden.author

theorem canonicalLength_goldenBody {contentHash : String}
    (hhash : canonicalLength Golden.B (.str contentHash) ≤ 100) :
    canonicalLength Golden.B ((goldenBody contentHash).toJson Golden.B) ≤ 10000 := by
  have hrest : ∀ m ∈ ((goldenBody "").members Golden.B).filter fun m ↦ m.1 ≠ "task",
      canonicalLength Golden.B (.str m.1) + canonicalLength Golden.B m.2 ≤ 900 := by
    decide +kernel
  refine (canonicalLength_obj_le 900 (ReceiptBodyV1.members_increasing _) ?_).trans
    (by decide : 10 * (900 + 2) + 2 ≤ 10000)
  intro m hm
  by_cases hname : m.1 = "task"
  · have hvalue : m.2 = (goldenBody contentHash).task.toJson := by
      have hmember := member_of_mem (ReceiptBodyV1.members_increasing _) hm
      rw [hname] at hmember
      exact (Option.some.inj hmember).symm
    have hmembers : ∀ m ∈ ("content_hash", Json.str contentHash) ::
        [("structured", Json.null), ("verbatim", .str "task")],
        canonicalLength Golden.B (.str m.1) + canonicalLength Golden.B m.2 ≤ 150 := by
      refine List.forall_mem_cons.mpr ⟨?_, by decide⟩
      have hcontent : canonicalLength Golden.B (.str "content_hash") = 14 := by decide
      show canonicalLength Golden.B (.str "content_hash") +
        canonicalLength Golden.B (.str contentHash) ≤ 150
      omega
    have htask : canonicalLength Golden.B m.2 ≤ 3 * (150 + 2) + 2 := by
      rw [hvalue]
      exact canonicalLength_obj_le 150 (TaskRecordV1.members_increasing _) hmembers
    have hcontent : canonicalLength Golden.B (.str "task") = 6 := by decide
    rw [hname]
    omega
  · exact hrest m (List.mem_filter.mpr ⟨hm, by simpa using hname⟩ :
      m ∈ ((goldenBody contentHash).members Golden.B).filter fun m ↦ m.1 ≠ "task")
/-- The wire of a receipt of such a body is accepted. -/
theorem accepted_golden (contentHash : String) (hhash : contentHash ≠ "" ∧
      "blake3_".toList <+: contentHash.toList)
    (hsize : canonicalLength Golden.B (.str contentHash) ≤ 100) :
    ∃ receipt wire,
      SignedReceiptV1.issue Golden.B Golden.identity (goldenBody contentHash) = .ok receipt ∧
      receipt.toWire Golden.B = .ok wire ∧
      SignedReceiptV1.fromWire Golden.B wire = .ok receipt := by
  have hlength := canonicalLength_goldenBody hsize
  have htask : (goldenBody contentHash).task.validate Golden.B = .ok () :=
    (TaskRecordV1.validate_unstructured rfl).mpr
      ⟨(by decide : "task" ≠ "" ∧ "task".utf8ByteSize ≤ MAX_TASK_BYTES), hhash⟩
  have hdate : validUtcTimestamp "2026-01-01T00:00:00Z" = true := by decide +kernel
  have hvalid : (goldenBody contentHash).validate Golden.B = .ok () :=
    ReceiptBodyV1.validate_eq_ok.mpr ⟨rfl, Nat.zero_le _, canonical_nil _, htask, rfl,
      Nat.zero_le _, rfl, hdate, hlength.trans (by decide)⟩
  obtain ⟨receipt, hissued⟩ := SignedReceiptV1.issue_succeeds (World.honest Golden.world) hvalid
    (show Golden.author = Golden.identity.author Golden.B from rfl)
  obtain ⟨hsame, hverify⟩ := SignedReceiptV1.issue_eq_ok hissued
  obtain ⟨wire, hwire⟩ := canonicalize_total (B := Golden.B) (receipt.toJson Golden.B)
  have hrender : receipt.toWire Golden.B = .ok wire := unit_bind_eq_ok.mpr ⟨hverify, hwire⟩
  refine ⟨receipt, wire, hissued, hrender, ?_⟩
  apply SignedReceiptV1.fromWire_of_settled hrender
  · have hinc : Increasing (receipt.members Golden.B) :=
      increasing_of_names ["body", "receipt_id", "signature"] rfl (by decide)
    have hid : canonicalLength Golden.B (.str (receipt.receiptId.text Golden.B)) = 51 := by
      rw [ReceiptId.text, canonicalLength_fixedText _ (by decide)]
      decide
    have hsignature : canonicalLength Golden.B (.str (receipt.signature.text Golden.B)) = 94 := by
      rw [ReceiptSignature.text, canonicalLength_fixedText _ (by decide)]
      decide
    have hnames : canonicalLength Golden.B (.str "body") = 6 ∧
        canonicalLength Golden.B (.str "receipt_id") = 12 ∧
        canonicalLength Golden.B (.str "signature") = 11 := by decide
    have hwhole := canonicalLength_obj (B := Golden.B) hinc
    simp only [SignedReceiptV1.members, List.map_cons, List.map_nil, List.sum_cons, List.sum_nil,
      List.length_cons, List.length_nil, hid, hsignature, hnames, hsame] at hwhole
    rw [canonicalize_length hwire, SignedReceiptV1.toJson, SignedReceiptV1.members, hsame, hwhole]
    have hmax : MAX_RECEIPT_WIRE_BYTES = 2097152 := rfl
    omega
  · rw [hsame]
    exact Option.some_ne_none _ |>.symm
  · rw [hsame]
    exact fun structured hstructured ↦ absurd hstructured (Option.not_mem_none structured)

/-- BLAKE3 of the task text. -/
def goldenHash (_ : Bytes) : Fixed 32 := ⟨[
  67, 176, 107, 198, 30, 27, 73, 83, 165, 255, 95, 4, 128, 25, 124, 127, 105, 72, 225, 10, 200, 80,
  247, 124, 253, 119, 181, 31, 66, 245, 253, 59], rfl⟩

/-- A receipt whose task record was made from its text is internally true, issued and read back. -/
theorem accepted_internallyTrue_golden : ∃ receipt wire,
    SignedReceiptV1.issue Golden.B Golden.identity
        (goldenBody (taskContentHash goldenHash (asBytes "task"))) = .ok receipt ∧
      SignedReceiptV1.fromWire Golden.B wire = .ok receipt ∧
      InternallyTrue Golden.B goldenHash receipt ∧ QuotesTask Golden.B goldenHash wire := by
  obtain ⟨receipt, wire, hissued, -, hread⟩ :=
    accepted_golden (taskContentHash goldenHash (asBytes "task")) (by decide) (by decide +kernel)
  obtain ⟨hissues, hreads⟩ := accepted_internallyTrue_iff Golden.B goldenHash
  have htrue := (hissues _ _ _ hissued).mpr rfl
  exact ⟨receipt, wire, hissued, hread, htrue, (hreads _ _ hread).mp htrue⟩

/-- A receipt with a bare prefix for its content hash is issued, and its wire is read back. -/
theorem accepted_misquoted : ∃ receipt wire,
    SignedReceiptV1.issue Golden.B Golden.identity (goldenBody "blake3_") = .ok receipt ∧
      receipt.toWire Golden.B = .ok wire ∧
      SignedReceiptV1.fromWire Golden.B wire = .ok receipt ∧
      ∀ blake3 : Bytes → Fixed 32, receipt.body.task.contentHash ≠
        taskContentHash blake3 (asBytes receipt.body.task.verbatim) := by
  obtain ⟨receipt, wire, hissued, hrender, hread⟩ :=
    accepted_golden "blake3_" (by decide) (by decide +kernel)
  refine ⟨receipt, wire, hissued, hrender, hread, fun blake3 hquoted ↦ ?_⟩
  rw [(SignedReceiptV1.issue_eq_ok hissued).1] at hquoted
  have hlength := congrArg (fun text : String ↦ text.toList.length) hquoted
  rw [length_taskContentHash] at hlength
  exact absurd hlength (by decide)

end Golden

end ContextMesh.Receipt
