import ContextMesh.Receipt.Signed

/-!
The wire of an issued receipt. Issuing bounds the canonical body, reading bounds the whole envelope
around it. The envelope always takes the same number of bytes more than the body, so that a receipt
is read back exactly when its body leaves room for them.
-/

set_option autoImplicit false
set_option relaxedAutoImplicit false

namespace ContextMesh.Receipt

open Checked Ordered Contract

/-- The canonical bytes of an envelope around the body. -/
def ENVELOPE_BYTES : ℕ := 181

variable (B : Boundary)

/-- The record with its structured form as canonical bytes read back; a null form is no form. -/
def TaskRecordV1.settle (task : TaskRecordV1) : TaskRecordV1 :=
  { task with structured := match task.structured with
      | some .null | none => none
      | some value => some (value.collect B.reread) }

/-- The body with its task as canonical bytes read back. -/
def ReceiptBodyV1.settle (body : ReceiptBodyV1) : ReceiptBodyV1 :=
  { body with task := body.task.settle B }

/-- The receipt with its task as canonical bytes read back. -/
def SignedReceiptV1.settle (receipt : SignedReceiptV1) : SignedReceiptV1 :=
  { receipt with body := receipt.body.settle B }

variable {B}

/-! ### Settled receipts -/

theorem canonicalPayloadBytes_collect (hnumbers : SafeNumbers B) {value : Json} {bytes : Bytes}
    (h : canonicalPayloadBytes B value = .ok bytes) :
    canonicalPayloadBytes B (value.collect B.reread) = .ok bytes := by
  obtain ⟨hvalid, h⟩ := unit_bind_eq_ok.mp h
  rw [canonicalPayloadBytes, validateJsonValue_collect hnumbers _ _ hvalid, ok_bind,
    canonicalize_collect]
  exact h

namespace TaskRecordV1

theorem settle_form (task : TaskRecordV1) : (task.settle B).structured.getD .null =
    (task.structured.getD .null).collect B.reread := by
  unfold settle
  cases task.structured with
  | none => exact settled_null.symm
  | some value =>
    cases value with
    | null => exact settled_null.symm
    | _ => rfl

theorem settle_ne_null (task : TaskRecordV1) : (task.settle B).structured ≠ some .null := by
  unfold settle
  cases task.structured with
  | none => exact Option.some_ne_none _ |>.symm
  | some value =>
    cases value with
    | null => exact Option.some_ne_none _ |>.symm
    | _ =>
      intro hnull
      have hvalue := Option.some.inj hnull
      simp [Json.collect] at hvalue

/-- Every form of a settled record is the form of the record as it is read back. -/
theorem mem_settle {task : TaskRecordV1} {form : Json} (h : form ∈ (task.settle B).structured) :
    ∃ value ∈ task.structured, form = value.collect B.reread := by
  unfold settle at h
  cases hstructured : task.structured with
  | none => simp [hstructured] at h
  | some value =>
    cases value <;> simp [hstructured] at h ⊢ <;> exact h.symm

theorem toJson_settle (task : TaskRecordV1) :
    (task.settle B).toJson = task.toJson.collect B.reread := by
  rw [toJson, toJson, Json.collect_obj _ task.members_increasing, members, settle_form]
  rfl

theorem validate_settle (hnumbers : SafeNumbers B) {task : TaskRecordV1}
    (h : task.validate B = .ok ()) : (task.settle B).validate B = .ok () := by
  obtain ⟨hverbatim, h⟩ := unit_bind_eq_ok.mp h
  obtain ⟨hhash, hform⟩ := unit_bind_eq_ok.mp h
  refine unit_bind_eq_ok.mpr ⟨hverbatim, unit_bind_eq_ok.mpr ⟨hhash, ?_⟩⟩
  cases hsettled : (task.settle B).structured with
  | none => rfl
  | some form =>
    obtain ⟨value, hvalue, rfl⟩ := mem_settle hsettled
    rw [Option.mem_def.mp hvalue] at hform
    obtain ⟨hvalid, hpayload⟩ := unit_bind_eq_ok.mp hform
    obtain ⟨bytes, hbytes, -⟩ := bind_eq_ok.mp hpayload
    refine unit_bind_eq_ok.mpr ⟨validateJsonValue_collect hnumbers _ _ hvalid, ?_⟩
    rw [canonicalPayloadBytes_collect hnumbers hbytes, ok_bind]

end TaskRecordV1

namespace ReceiptBodyV1

theorem toJson_settle {body : ReceiptBodyV1} (hversion : body.version = RECEIPT_VERSION) :
    (body.settle B).toJson B = (body.toJson B).collect B.reread := by
  have htexts {α : Type} (text : α → String) (items : List α) :
      (Json.arr (items.map fun a ↦ .str (text a))).collect B.reread =
        .arr (items.map fun a ↦ .str (text a)) := settled_texts text items
  have hhead : (body.recipient.toJson B).collect B.reread = body.recipient.toJson B := by
    refine settled_obj (List.pairwise_singleton _ _) fun m hm ↦ ?_
    rw [List.mem_singleton.mp hm]
    exact settled_str _
  have hselector : body.selector.toJson.collect B.reread = body.selector.toJson :=
    SelectorRecordV1.settled_toJson _
  have hnumber : (Json.num (.posInt body.version)).collect B.reread =
      .num (.posInt body.version) := by
    refine settled_posInt ?_
    rw [hversion]
    decide
  have hstr (text : String) : (Json.str text).collect B.reread = .str text := settled_str text
  rw [toJson, toJson, Json.collect_obj _ body.members_increasing]
  simp only [members, List.map_cons, List.map_nil, htexts, hhead, hselector, hnumber, hstr,
    ← TaskRecordV1.toJson_settle]
  rfl

theorem canonicalize_settle {body : ReceiptBodyV1} (hversion : body.version = RECEIPT_VERSION) :
    canonicalize B ((body.settle B).toJson B) = canonicalize B (body.toJson B) := by
  rw [toJson_settle hversion, canonicalize_collect]

theorem validate_settle (hnumbers : SafeNumbers B) {body : ReceiptBodyV1}
    (h : body.validate B = .ok ()) : (body.settle B).validate B = .ok () := by
  obtain ⟨hversion, hcount, hordered, htask, hselector, hnotes, hnote, hdate, hbytes⟩ :=
    validate_eq_ok.mp h
  refine validate_eq_ok.mpr ⟨hversion, hcount, hordered,
    TaskRecordV1.validate_settle hnumbers htask, hselector, hnotes, hnote, hdate, ?_⟩
  rw [toJson_settle hversion, canonicalLength, B.toVec_collect]
  exact hbytes

theorem canonicalBytes_eq_ok {body : ReceiptBodyV1} {bytes : Bytes} :
    body.canonicalBytes B = .ok bytes ↔
      body.validate B = .ok () ∧ canonicalize B (body.toJson B) = .ok bytes := unit_bind_eq_ok

end ReceiptBodyV1

namespace SignedReceiptV1

theorem members_increasing (receipt : SignedReceiptV1) : Increasing (receipt.members B) :=
  increasing_of_names ["body", "receipt_id", "signature"] rfl (by decide)

theorem toWire_eq_ok {receipt : SignedReceiptV1} {wire : Bytes} : receipt.toWire B = .ok wire ↔
    receipt.verify B = .ok () ∧ canonicalize B (receipt.toJson B) = .ok wire := unit_bind_eq_ok

theorem toJson_settle {receipt : SignedReceiptV1}
    (hversion : receipt.body.version = RECEIPT_VERSION) :
    (receipt.settle B).toJson B = (receipt.toJson B).collect B.reread := by
  rw [toJson, toJson, Json.collect_obj _ receipt.members_increasing]
  simp only [members, List.map_cons, List.map_nil, Json.collect,
    ← ReceiptBodyV1.toJson_settle hversion]
  rfl

theorem verify_settle (hnumbers : SafeNumbers B) {receipt : SignedReceiptV1}
    (h : receipt.verify B = .ok ()) : (receipt.settle B).verify B = .ok () := by
  obtain ⟨hvalid, ⟨bytes, hbytes, hid⟩, hkey, hsignature⟩ := verifyParts_eq_ok.mp h
  have hversion := (ReceiptBodyV1.validate_eq_ok.mp hvalid).1
  refine verifyParts_eq_ok.mpr ⟨ReceiptBodyV1.validate_settle hnumbers hvalid, ⟨bytes, ?_, hid⟩,
    hkey, hsignature⟩
  exact (ReceiptBodyV1.canonicalize_settle hversion).trans hbytes

/-- The settled receipt has the wire of the receipt. -/
theorem toWire_settle (hnumbers : SafeNumbers B) {receipt : SignedReceiptV1} {wire : Bytes}
    (h : receipt.toWire B = .ok wire) : (receipt.settle B).toWire B = .ok wire := by
  obtain ⟨hverify, hcanonical⟩ := toWire_eq_ok.mp h
  have hvalid := (verifyParts_eq_ok.mp hverify).1
  have hversion := (ReceiptBodyV1.validate_eq_ok.mp hvalid).1
  refine toWire_eq_ok.mpr ⟨verify_settle hnumbers hverify, ?_⟩
  rw [toJson_settle hversion, canonicalize_collect, hcanonical]

/-- A wire within the bound reads back as the settled receipt. -/
theorem fromWire_settle (hnumbers : SafeNumbers B) {receipt : SignedReceiptV1} {wire : Bytes}
    (h : receipt.toWire B = .ok wire) (hbound : wire.length ≤ MAX_RECEIPT_WIRE_BYTES) :
    fromWire B wire = .ok (receipt.settle B) := by
  have hvalid := (verifyParts_eq_ok.mp (toWire_eq_ok.mp h).1).1
  obtain ⟨-, -, -, htask, -⟩ := ReceiptBodyV1.validate_eq_ok.mp hvalid
  refine fromWire_of_settled (toWire_settle hnumbers h) hbound (TaskRecordV1.settle_ne_null _) ?_
  intro form hform
  obtain ⟨value, hvalue, rfl⟩ := TaskRecordV1.mem_settle hform
  refine settled_collect ?_
  obtain ⟨-, htask⟩ := unit_bind_eq_ok.mp htask
  obtain ⟨-, htask⟩ := unit_bind_eq_ok.mp htask
  rw [Option.mem_def.mp hvalue] at htask
  have hdepth := validateJsonValue_depth _ _ (unit_bind_eq_ok.mp htask).1
  exact (Nat.le_of_succ_le_succ hdepth).trans (by decide)

/-- The wire is the canonical body and the envelope around it. -/
theorem length_toWire {receipt : SignedReceiptV1} {wire : Bytes}
    (h : receipt.toWire B = .ok wire) :
    wire.length = canonicalLength B (receipt.body.toJson B) + ENVELOPE_BYTES := by
  have hid : canonicalLength B (.str (receipt.receiptId.text B)) = 51 := by
    rw [ReceiptId.text, canonicalLength_fixedText _ (by decide)]
    decide
  have hsignature : canonicalLength B (.str (receipt.signature.text B)) = 94 := by
    rw [ReceiptSignature.text, canonicalLength_fixedText _ (by decide)]
    decide
  have hnames : canonicalLength B (.str "body") = 6 ∧
      canonicalLength B (.str "receipt_id") = 12 ∧ canonicalLength B (.str "signature") = 11 := by
    refine ⟨?_, ?_, ?_⟩ <;>
    · rw [canonicalLength_plain (by decide)]
      decide
  rw [canonicalize_length (toWire_eq_ok.mp h).2, toJson, canonicalLength_obj (members_increasing _)]
  simp only [members, List.map_cons, List.map_nil, List.sum_cons, List.sum_nil, List.length_cons,
    List.length_nil, hid, hsignature, hnames, ENVELOPE_BYTES]
  omega

variable (B) in
/-- The receipt has a wire, and the wire reads back as a receipt of the same identity, signature and
canonical body, which has the same wire. -/
def ReadsBack (receipt : SignedReceiptV1) : Prop :=
  ∃ wire parsed, receipt.toWire B = .ok wire ∧ fromWire B wire = .ok parsed ∧
    parsed.receiptId = receipt.receiptId ∧ parsed.signature = receipt.signature ∧
    (∃ bytes, receipt.body.canonicalBytes B = .ok bytes ∧
      parsed.body.canonicalBytes B = .ok bytes) ∧
    parsed.toWire B = .ok wire

/-- An issued receipt always has a wire. It is read back, as a receipt of the same identity,
signature, canonical body and wire, exactly when the canonical body leaves room for the envelope. -/
theorem issue_readsBack_iff (B : Boundary) (hnumbers : SafeNumbers B) {identity : SigningIdentity}
    {body : ReceiptBodyV1} {receipt : SignedReceiptV1}
    (hok : issue B identity body = .ok receipt) :
    ReadsBack B receipt ↔
      canonicalLength B (body.toJson B) + ENVELOPE_BYTES ≤ MAX_RECEIPT_WIRE_BYTES := by
  obtain ⟨rfl, hverify⟩ := issue_eq_ok hok
  obtain ⟨hvalid, ⟨bytes, hbytes, -⟩, -⟩ := verifyParts_eq_ok.mp hverify
  have hversion := (ReceiptBodyV1.validate_eq_ok.mp hvalid).1
  constructor
  · rintro ⟨wire, parsed, hrender, hread, -⟩
    rw [← length_toWire hrender]
    exact ensure_eq_ok.mp (unit_bind_eq_ok.mp hread).1
  · intro hbound
    obtain ⟨wire, hwire⟩ := canonicalize_total (B := B) (receipt.toJson B)
    have hrender : receipt.toWire B = .ok wire := toWire_eq_ok.mpr ⟨hverify, hwire⟩
    rw [← length_toWire hrender] at hbound
    refine ⟨wire, receipt.settle B, hrender, fromWire_settle hnumbers hrender hbound, rfl, rfl,
      ⟨bytes, ReceiptBodyV1.canonicalBytes_eq_ok.mpr ⟨hvalid, hbytes⟩, ?_⟩,
      toWire_settle hnumbers hrender⟩
    refine ReceiptBodyV1.canonicalBytes_eq_ok.mpr
      ⟨ReceiptBodyV1.validate_settle hnumbers hvalid, ?_⟩
    exact (ReceiptBodyV1.canonicalize_settle hversion).trans hbytes

end SignedReceiptV1

section Golden

open Reference

/-- A receipt without notes leaves room for its envelope. -/
theorem SignedReceiptV1.issue_readsBack_golden : ∃ receipt,
    issue Golden.B Golden.identity (goldenBody "blake3_") = .ok receipt ∧
      ReadsBack Golden.B receipt := by
  obtain ⟨receipt, -, hissued, -⟩ := accepted_golden "blake3_" (by decide) (by decide +kernel)
  have hlength : canonicalLength Golden.B ((goldenBody "blake3_").toJson Golden.B) ≤ 10000 :=
    canonicalLength_goldenBody (by decide +kernel)
  refine ⟨receipt, hissued, (issue_readsBack_iff Golden.B (World.safeNumbers _) hissued).mpr ?_⟩
  have hmax : ENVELOPE_BYTES = 181 ∧ MAX_RECEIPT_WIRE_BYTES = 2097152 := ⟨rfl, rfl⟩
  omega

/-- The longest note. -/
def longNote : String := letters MAX_RECEIPT_NOTE_BYTES

/-- A body whose notes leave less room than the envelope takes. -/
def crowdedBody : ReceiptBodyV1 :=
  { goldenBody "blake3_" with omissions := List.replicate 4071 longNote }

theorem checkNote_longNote : ReceiptBodyV1.checkNote longNote = .ok () := by
  have hsome : longNote ≠ "" := by
    intro hempty
    have hsize := letters_size MAX_RECEIPT_NOTE_BYTES
    rw [show letters MAX_RECEIPT_NOTE_BYTES = "" from hempty] at hsize
    cases hsize
  unfold ReceiptBodyV1.checkNote
  rw [ensure_eq_ok]
  exact ⟨hsome, (letters_size _).le⟩

/-- Notes change the length of a body by their own length. -/
theorem length_omissions (body : ReceiptBodyV1) (notes : List String) :
    canonicalLength B (({body with omissions := notes} : ReceiptBodyV1).toJson B) +
        canonicalLength B (.arr (body.omissions.map .str)) =
      canonicalLength B (body.toJson B) + canonicalLength B (.arr (notes.map .str)) := by
  rw [ReceiptBodyV1.toJson, ReceiptBodyV1.toJson,
    canonicalLength_obj (ReceiptBodyV1.members_increasing _),
    canonicalLength_obj (ReceiptBodyV1.members_increasing _)]
  simp only [ReceiptBodyV1.members, List.map_cons, List.map_nil, List.sum_cons, List.sum_nil,
    List.length_cons, List.length_nil]
  omega

theorem length_goldenBody :
    canonicalLength Golden.B ((goldenBody "blake3_").toJson Golden.B) = 429 := by
  have hmembers : (((goldenBody "blake3_").members Golden.B).map fun m ↦
      canonicalLength Golden.B (.str m.1) + 1 + canonicalLength Golden.B m.2).sum = 418 := by
    decide +kernel
  rw [ReceiptBodyV1.toJson, canonicalLength_obj (ReceiptBodyV1.members_increasing _), hmembers]
  rfl

theorem length_longNotes (count : ℕ) :
    canonicalLength B (.arr ((List.replicate count longNote).map .str)) =
      count * 514 + (count - 1) + 2 := by
  have hnote : canonicalLength B (.str longNote) = 514 := by
    rw [longNote, canonicalLength_plain (letters_plain _), letters_size]
    rfl
  rw [canonicalLength_arr, List.map_replicate, List.map_replicate, hnote, List.sum_replicate_nat,
    List.length_replicate]

theorem length_crowdedBody :
    canonicalLength Golden.B (crowdedBody.toJson Golden.B) = 2096993 := by
  have hempty : canonicalLength Golden.B (.arr ((goldenBody "blake3_").omissions.map .str)) = 2 :=
    canonicalLength_arr []
  have hchange := length_omissions (B := Golden.B) (goldenBody "blake3_")
    (List.replicate 4071 longNote)
  rw [length_goldenBody, hempty, length_longNotes] at hchange
  rw [crowdedBody]
  omega

/-- A receipt is issued whose wire is too large to be read. -/
theorem SignedReceiptV1.issue_unreadable : ∃ receipt wire,
    issue Golden.B Golden.identity crowdedBody = .ok receipt ∧
      receipt.toWire Golden.B = .ok wire ∧
      fromWire Golden.B wire = .error .wireTooLarge ∧ ¬ ReadsBack Golden.B receipt := by
  have hlength := length_crowdedBody
  have htask : crowdedBody.task.validate Golden.B = .ok () :=
    (TaskRecordV1.validate_unstructured rfl).mpr ⟨by decide, by decide⟩
  have hdate : validUtcTimestamp crowdedBody.createdAt = true := by decide +kernel
  have hnote : checkEach ReceiptBodyV1.checkNote
      (crowdedBody.omissions ++ crowdedBody.uncertainty) = .ok () := by
    refine checkEach_eq_ok.mpr fun note hmem ↦ ?_
    rw [show crowdedBody.uncertainty = [] from rfl, List.append_nil] at hmem
    rw [List.eq_of_mem_replicate hmem]
    exact checkNote_longNote
  have hcount : crowdedBody.omissions.length + crowdedBody.uncertainty.length ≤
      MAX_RECEIPT_NOTES := by
    rw [show crowdedBody.omissions = List.replicate 4071 longNote from rfl,
      List.length_replicate]
    decide
  have hvalid : crowdedBody.validate Golden.B = .ok () :=
    ReceiptBodyV1.validate_eq_ok.mpr ⟨rfl, Nat.zero_le _, canonical_nil _, htask, rfl, hcount,
      hnote, hdate, hlength.trans_le (by decide)⟩
  obtain ⟨receipt, hissued⟩ := issue_succeeds (World.honest Golden.world) hvalid
    (show Golden.author = Golden.identity.author Golden.B from rfl)
  obtain ⟨hsame, hverify⟩ := issue_eq_ok hissued
  obtain ⟨wire, hwire⟩ := canonicalize_total (B := Golden.B) (receipt.toJson Golden.B)
  have hrender : receipt.toWire Golden.B = .ok wire := toWire_eq_ok.mpr ⟨hverify, hwire⟩
  have hlarge : ¬ wire.length ≤ MAX_RECEIPT_WIRE_BYTES := by
    rw [length_toWire hrender, hsame, hlength]
    decide
  have hrefused : fromWire Golden.B wire = .error .wireTooLarge := by
    rw [fromWire, ensure_false hlarge]
    rfl
  refine ⟨receipt, wire, hissued, hrender, hrefused, ?_⟩
  rintro ⟨other, parsed, hother, hread, -⟩
  rw [Except.ok.inj (hother.symm.trans hrender), hrefused] at hread
  cases hread

end Golden

end ContextMesh.Receipt
