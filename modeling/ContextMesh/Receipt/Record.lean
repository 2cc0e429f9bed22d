import ContextMesh.Contract.Event

/-!
The records of a receipt: the task as it was accepted with a hash of its text, the provenance of the
selector, the head the recipient was known to have, and the body that binds them to a list of
events.
-/

set_option autoImplicit false
set_option relaxedAutoImplicit false

namespace ContextMesh.Receipt

open Checked Ordered Contract

/-- Receipt schema version. -/
def RECEIPT_VERSION : ℕ := 1

/-- Maximum number of referenced events in one receipt. -/
def MAX_RECEIPT_EVENTS : ℕ := 4096

/-- Maximum task verbatim bytes. -/
def MAX_TASK_BYTES : ℕ := 65536

/-- Maximum selector identity bytes. -/
def MAX_SELECTOR_IDENTITY_BYTES : ℕ := 128

/-- Maximum selector version bytes. -/
def MAX_SELECTOR_VERSION_BYTES : ℕ := 64

/-- Maximum selector configuration-hash bytes. -/
def MAX_SELECTOR_CONFIG_HASH_BYTES : ℕ := 128

/-- Maximum bytes in one omission or uncertainty note. -/
def MAX_RECEIPT_NOTE_BYTES : ℕ := 512

/-- Maximum number of omission and uncertainty notes in one receipt. -/
def MAX_RECEIPT_NOTES : ℕ := 4096

/-- Maximum canonical receipt wire bytes. -/
def MAX_RECEIPT_WIRE_BYTES : ℕ := 2097152

/-! ### The content hash -/

def hexDigit (n : ℕ) : Char := "0123456789abcdef".toList.getD n '0'

/-- Two lowercase hexadecimal digits. -/
def hexByte (byte : UInt8) : List Char := [hexDigit (byte.toNat / 16), hexDigit (byte.toNat % 16)]

section Hash

variable (blake3 : Bytes → Fixed 32)

/-- The plain BLAKE3 hash of a text, in lowercase hexadecimal after its prefix. -/
def taskContentHash (text : Bytes) : String :=
  "blake3_" ++ String.ofList ((blake3 text).1.flatMap hexByte)

variable {blake3}

theorem toList_taskContentHash (text : Bytes) : (taskContentHash blake3 text).toList =
    "blake3_".toList ++ (blake3 text).1.flatMap hexByte := by
  rw [taskContentHash, String.toList_append]
  exact congrArg ("blake3_".toList ++ ·) String.toList_ofList

theorem length_taskContentHash (text : Bytes) :
    (taskContentHash blake3 text).toList.length = 71 := by
  have hdigits : ∀ bytes : Bytes, (bytes.flatMap hexByte).length = bytes.length * 2 := by
    intro bytes
    induction bytes with
    | nil => rfl
    | cons byte rest ih =>
      rw [List.flatMap_cons, List.length_append, ih, List.length_cons, Nat.succ_mul]
      exact Nat.add_comm _ _
  rw [toList_taskContentHash, List.length_append, hdigits, (blake3 text).2]
  rfl

end Hash

/-! ### Records -/

/-- A task exactly as accepted, with a hash of its text; a structured form only when the caller
supplied one. -/
structure TaskRecordV1 where
  verbatim : String
  contentHash : String
  structured : Option Json

/-- The provenance of a selection. -/
structure SelectorRecordV1 where
  identity : String
  version : String
  configHash : String
  deriving DecidableEq

/-- The head of the recipient's known history. -/
structure RecipientStateV1 where
  head : EventId
  deriving DecidableEq

structure ReceiptBodyV1 where
  version : ℕ
  context : ContextId
  events : List EventId
  task : TaskRecordV1
  recipient : RecipientStateV1
  selector : SelectorRecordV1
  omissions : List String
  uncertainty : List String
  createdAt : String
  author : AuthorId

variable (B : Boundary)

namespace TaskRecordV1

def validate (task : TaskRecordV1) : Except ContractError Unit := do
  ensure (task.verbatim ≠ "" ∧ task.verbatim.utf8ByteSize ≤ MAX_TASK_BYTES) .limitExceeded
  ensure (task.contentHash ≠ "" ∧ "blake3_".toList <+: task.contentHash.toList) .invalidEncoding
  match task.structured with
  | some structured => do
    validateJsonValue structured 1
    let _ ← canonicalPayloadBytes B structured
    .ok ()
  | none => .ok ()

/-- A task record with a stated content hash. -/
def new (verbatim contentHash : String) (structured : Option Json) :
    Except ContractError TaskRecordV1 := do
  let task : TaskRecordV1 := ⟨verbatim, contentHash, structured⟩
  task.validate B
  .ok task

/-- Records a task verbatim with the hash of its text. -/
def fromVerbatim (blake3 : Bytes → Fixed 32) (verbatim : String) (structured : Option Json) :
    Except ContractError TaskRecordV1 :=
  new B verbatim (taskContentHash blake3 (asBytes verbatim)) structured

/-- The record as its serializer presents it; an absent form is null. -/
def members (task : TaskRecordV1) : Members :=
  [("content_hash", .str task.contentHash),
    ("structured", task.structured.getD .null),
    ("verbatim", .str task.verbatim)]

def toJson (task : TaskRecordV1) : Json := .obj task.members

end TaskRecordV1

namespace SelectorRecordV1

def validate (selector : SelectorRecordV1) : Except ContractError Unit := do
  ensure (selector.identity ≠ "" ∧
    selector.identity.utf8ByteSize ≤ MAX_SELECTOR_IDENTITY_BYTES) .limitExceeded
  ensure (selector.version ≠ "" ∧
    selector.version.utf8ByteSize ≤ MAX_SELECTOR_VERSION_BYTES) .limitExceeded
  ensure (selector.configHash ≠ "" ∧
    selector.configHash.utf8ByteSize ≤ MAX_SELECTOR_CONFIG_HASH_BYTES) .limitExceeded

def new (identity version configHash : String) : Except ContractError SelectorRecordV1 := do
  let selector : SelectorRecordV1 := ⟨identity, version, configHash⟩
  selector.validate
  .ok selector

def members (selector : SelectorRecordV1) : Members :=
  [("config_hash", .str selector.configHash),
    ("identity", .str selector.identity),
    ("version", .str selector.version)]

def toJson (selector : SelectorRecordV1) : Json := .obj selector.members

end SelectorRecordV1

def RecipientStateV1.toJson (recipient : RecipientStateV1) : Json :=
  .obj [("head", .str (recipient.head.text B))]

/-! ### Timestamps -/

/-- The number that ASCII digits spell. -/
def digits (bytes : Bytes) : Option ℕ :=
  if bytes.all fun byte ↦ 48 ≤ byte && byte ≤ 57 then
    some (bytes.foldl (fun value byte ↦ value * 10 + (byte.toNat - 48)) 0)
  else none

/-- Whether a text has the form `YYYY-MM-DDTHH:MM:SSZ` with every field in its range. -/
def validUtcTimestamp (text : String) : Bool :=
  let bytes := asBytes text
  let field (start stop : ℕ) := digits ((bytes.take stop).drop start)
  decide (bytes.length = 20 ∧ bytes[4]? = some 45 ∧ bytes[7]? = some 45 ∧ bytes[10]? = some 84 ∧
    bytes[13]? = some 58 ∧ bytes[16]? = some 58 ∧ bytes[19]? = some 90) &&
  match field 0 4, field 5 7, field 8 10, field 11 13, field 14 16, field 17 19 with
  | some year, some month, some day, some hour, some minute, some second =>
    decide (1970 ≤ year ∧ 1 ≤ month ∧ month ≤ 12 ∧ 1 ≤ day ∧ day ≤ 31 ∧ hour ≤ 23 ∧ minute ≤ 59 ∧
      second ≤ 59)
  | _, _, _, _, _, _ => false

example : validUtcTimestamp "2026-02-30T23:59:59Z" = true := by decide +kernel

example : validUtcTimestamp "2026-02-30 23:59:59Z" = false := by decide +kernel

/-! ### The body -/

namespace ReceiptBodyV1

/-- The body as its serializer presents it. -/
def members (body : ReceiptBodyV1) : Members :=
  [("author", .str (body.author.text B)),
    ("context", .str (body.context.text B)),
    ("created_at", .str body.createdAt),
    ("events", .arr (body.events.map fun id ↦ .str (id.text B))),
    ("omissions", .arr (body.omissions.map .str)),
    ("recipient", body.recipient.toJson B),
    ("selector", body.selector.toJson),
    ("task", body.task.toJson),
    ("uncertainty", .arr (body.uncertainty.map .str)),
    ("version", .num (.posInt body.version))]

def toJson (body : ReceiptBodyV1) : Json := .obj (body.members B)

def checkNote (note : String) : Except ContractError Unit :=
  ensure (note ≠ "" ∧ note.utf8ByteSize ≤ MAX_RECEIPT_NOTE_BYTES) .limitExceeded

def validate (body : ReceiptBodyV1) : Except ContractError Unit := do
  ensure (body.version = RECEIPT_VERSION) .unsupportedVersion
  ensure (body.events.length ≤ MAX_RECEIPT_EVENTS) .limitExceeded
  ensure (Canonical (EventId.text B) body.events) .parentOrder
  body.task.validate B
  body.selector.validate
  ensure (body.omissions.length + body.uncertainty.length ≤ MAX_RECEIPT_NOTES) .limitExceeded
  checkEach checkNote (body.omissions ++ body.uncertainty)
  ensure (validUtcTimestamp body.createdAt) .invalidEncoding
  let canonical ← canonicalize B (body.toJson B)
  ensure (canonical.length ≤ MAX_RECEIPT_WIRE_BYTES) .limitExceeded

def new (context : ContextId) (events : List EventId) (task : TaskRecordV1)
    (recipient : RecipientStateV1) (selector : SelectorRecordV1)
    (omissions uncertainty : List String) (createdAt : String) (author : AuthorId) :
    Except ContractError ReceiptBodyV1 := do
  let body : ReceiptBodyV1 := ⟨RECEIPT_VERSION, context, events, task, recipient, selector,
    omissions, uncertainty, createdAt, author⟩
  body.validate B
  .ok body

def canonicalBytes (body : ReceiptBodyV1) : Except ContractError Bytes := do
  body.validate B
  canonicalize B (body.toJson B)

end ReceiptBodyV1

variable {B}

/-! ### Validation -/

/-- What a record without a structured form has to satisfy. -/
theorem TaskRecordV1.validate_unstructured {task : TaskRecordV1} (h : task.structured = none) :
    task.validate B = .ok () ↔
      (task.verbatim ≠ "" ∧ task.verbatim.utf8ByteSize ≤ MAX_TASK_BYTES) ∧
        task.contentHash ≠ "" ∧ "blake3_".toList <+: task.contentHash.toList := by
  rw [validate, unit_bind_eq_ok, ensure_eq_ok, unit_bind_eq_ok, ensure_eq_ok, h]
  exact and_congr_right fun _ ↦ and_iff_left rfl

theorem ReceiptBodyV1.validate_eq_ok {body : ReceiptBodyV1} : body.validate B = .ok () ↔
    body.version = RECEIPT_VERSION ∧ body.events.length ≤ MAX_RECEIPT_EVENTS ∧
      Canonical (EventId.text B) body.events ∧ body.task.validate B = .ok () ∧
      body.selector.validate = .ok () ∧
      body.omissions.length + body.uncertainty.length ≤ MAX_RECEIPT_NOTES ∧
      checkEach checkNote (body.omissions ++ body.uncertainty) = .ok () ∧
      validUtcTimestamp body.createdAt = true ∧
      canonicalLength B (body.toJson B) ≤ MAX_RECEIPT_WIRE_BYTES := by
  rw [validate, unit_bind_eq_ok, unit_bind_eq_ok, unit_bind_eq_ok, unit_bind_eq_ok,
    unit_bind_eq_ok, unit_bind_eq_ok, unit_bind_eq_ok, unit_bind_eq_ok, canonicalize_bounded,
    ensure_eq_ok, ensure_eq_ok, ensure_eq_ok, ensure_eq_ok, ensure_eq_ok]

/-! ### The serialized form -/

theorem TaskRecordV1.members_increasing (task : TaskRecordV1) : Increasing task.members :=
  increasing_of_names ["content_hash", "structured", "verbatim"] rfl (by decide)

theorem SelectorRecordV1.members_increasing (selector : SelectorRecordV1) :
    Increasing selector.members :=
  increasing_of_names ["config_hash", "identity", "version"] rfl (by decide)

theorem ReceiptBodyV1.members_increasing (body : ReceiptBodyV1) : Increasing (body.members B) :=
  increasing_of_names ["author", "context", "created_at", "events", "omissions", "recipient",
    "selector", "task", "uncertainty", "version"] rfl (by decide)

/-- A task record is settled when its structured form is. -/
theorem TaskRecordV1.settled_toJson {task : TaskRecordV1}
    (h : ∀ structured ∈ task.structured, Settled B structured) : Settled B task.toJson := by
  refine settled_obj task.members_increasing fun m hm ↦ ?_
  simp only [TaskRecordV1.members, List.mem_cons, List.not_mem_nil, or_false] at hm
  rcases hm with rfl | rfl | rfl
  · exact settled_str _
  · cases hstructured : task.structured with
    | none => exact settled_null
    | some structured => exact h structured hstructured
  · exact settled_str _

theorem SelectorRecordV1.settled_toJson (selector : SelectorRecordV1) :
    Settled B selector.toJson := by
  refine settled_obj selector.members_increasing fun m hm ↦ ?_
  simp only [SelectorRecordV1.members, List.mem_cons, List.not_mem_nil, or_false] at hm
  rcases hm with rfl | rfl | rfl
  · exact settled_str _
  · exact settled_str _
  · exact settled_str _

theorem settled_texts {α : Type} (text : α → String) (items : List α) :
    Settled B (.arr (items.map fun a ↦ .str (text a))) := by
  refine settled_arr fun v hv ↦ ?_
  obtain ⟨a, -, rfl⟩ := List.mem_map.mp hv
  exact settled_str _

theorem ReceiptBodyV1.settled_toJson {body : ReceiptBodyV1}
    (hversion : body.version = RECEIPT_VERSION)
    (h : ∀ structured ∈ body.task.structured, Settled B structured) :
    Settled B (body.toJson B) := by
  refine settled_obj body.members_increasing fun m hm ↦ ?_
  simp only [ReceiptBodyV1.members, List.mem_cons, List.not_mem_nil, or_false] at hm
  rcases hm with rfl | rfl | rfl | rfl | rfl | rfl | rfl | rfl | rfl | rfl
  · exact settled_str _
  · exact settled_str _
  · exact settled_str _
  · exact settled_texts _ _
  · exact settled_texts id _
  · refine settled_obj (List.pairwise_singleton _ _) fun m hm ↦ ?_
    rw [List.mem_singleton.mp hm]
    exact settled_str _
  · exact SelectorRecordV1.settled_toJson _
  · exact TaskRecordV1.settled_toJson h
  · exact settled_texts id _
  · refine settled_posInt ?_
    rw [hversion]
    decide

theorem depth_texts {α : Type} (text : α → String) (items : List α) :
    (Json.arr (items.map fun a ↦ .str (text a))).depth ≤ 1 := by
  refine depth_arr_le fun v hv ↦ ?_
  obtain ⟨a, -, rfl⟩ := List.mem_map.mp hv
  exact Nat.le_refl 0

theorem TaskRecordV1.depth_toJson_le {task : TaskRecordV1} (h : task.validate B = .ok ()) :
    task.toJson.depth ≤ 65 := by
  obtain ⟨-, h⟩ := unit_bind_eq_ok.mp h
  obtain ⟨-, h⟩ := unit_bind_eq_ok.mp h
  refine depth_obj_le (n := 64) fun m hm ↦ ?_
  simp only [TaskRecordV1.members, List.mem_cons, List.not_mem_nil, or_false] at hm
  rcases hm with rfl | rfl | rfl
  · exact Nat.zero_le _
  · cases hstructured : task.structured with
    | none => exact Nat.zero_le _
    | some structured =>
      rw [hstructured] at h
      exact Nat.le_of_succ_le_succ (validateJsonValue_depth _ _ (unit_bind_eq_ok.mp h).1)
  · exact Nat.zero_le _

theorem ReceiptBodyV1.depth_toJson_le {body : ReceiptBodyV1}
    (h : body.task.validate B = .ok ()) : (body.toJson B).depth ≤ 66 := by
  refine depth_obj_le (n := 65) fun m hm ↦ ?_
  simp only [ReceiptBodyV1.members, List.mem_cons, List.not_mem_nil, or_false] at hm
  rcases hm with rfl | rfl | rfl | rfl | rfl | rfl | rfl | rfl | rfl | rfl
  · exact Nat.zero_le _
  · exact Nat.zero_le _
  · exact Nat.zero_le _
  · exact (depth_texts _ _).trans (by decide)
  · exact (depth_texts id _).trans (by decide)
  · refine (depth_obj_le (n := 0) fun m hm ↦ ?_).trans (by decide)
    rw [List.mem_singleton.mp hm]
    exact Nat.le_refl 0
  · refine (depth_obj_le (n := 0) fun m hm ↦ ?_).trans (by decide)
    simp only [SelectorRecordV1.members, List.mem_cons, List.not_mem_nil, or_false] at hm
    rcases hm with rfl | rfl | rfl
    · exact Nat.le_refl 0
    · exact Nat.le_refl 0
    · exact Nat.le_refl 0
  · exact TaskRecordV1.depth_toJson_le h
  · exact (depth_texts id _).trans (by decide)
  · exact Nat.zero_le _

end ContextMesh.Receipt
