import ContextMesh.Receipt.Signed
import ContextMesh.Ledger.Runs

/-!
Verification of a receipt against a store. Every cited event and the head of the recipient is
looked up; what is not stored in the context of the receipt is a finding, and a store that has grown
keeps what a valid receipt refers to.
-/

set_option autoImplicit false
set_option relaxedAutoImplicit false

namespace ContextMesh.Receipt

open Checked Contract Store

/-- What the store knows of a cited event. -/
inductive EventCheck
  | present
  | wrongContext
  | missing

/-- One finding about a reference of a receipt. -/
structure ReceiptDagFinding where
  reason : String
  event : EventId
  deriving DecidableEq

/-- The outcome of verifying a receipt against a store. -/
structure ReceiptDagReport where
  valid : Bool
  checkedEvents : ℕ
  findings : List ReceiptDagFinding

variable (B : Boundary)

def checkEvent (t : Tables) (context : ContextId) (id : EventId) :
    Except StoreError EventCheck := do
  match ← event B t id with
  | some event => .ok (if event.body.context = context then .present else .wrongContext)
  | none => .ok .missing

/-- Checks one reference; the count and the findings are carried. -/
def noteEvent (t : Tables) (context : ContextId) (wrongContext missing : String)
    (noted : ℕ × List ReceiptDagFinding) (id : EventId) :
    Except StoreError (ℕ × List ReceiptDagFinding) := do
  match ← checkEvent B t context id with
  | .present => .ok (noted.1 + 1, noted.2)
  | .wrongContext => .ok (noted.1, noted.2 ++ [⟨wrongContext, id⟩])
  | .missing => .ok (noted.1, noted.2 ++ [⟨missing, id⟩])

/-- Verifies every referenced event, and the head of the recipient, against the store. -/
def SignedReceiptV1.verifyAgainstDag (receipt : SignedReceiptV1) (t : Tables) :
    Except StoreError ReceiptDagReport := do
  let context := receipt.body.context
  let noted ← foldEach (noteEvent B t context "wrong-context" "missing") (0, [])
    receipt.body.events
  let (checked, findings) ← noteEvent B t context "recipient-wrong-context" "recipient-missing"
    noted receipt.body.recipient.head
  .ok ⟨findings.isEmpty, checked, findings⟩

/-! ### What the findings say -/

/-- The findings about one reference: none when the event is stored in the context, and otherwise
one, which tells whether it is stored in another context. -/
inductive Classifies (t : Tables) (context : ContextId) (wrongContext missing : String)
    (id : EventId) : List ReceiptDagFinding → Prop
  | present (held : t.Holds B context id) : Classifies t context wrongContext missing id []
  | wrongContext (other : ContextId) (held : t.Holds B other id) (foreign : other ≠ context) :
    Classifies t context wrongContext missing id [⟨wrongContext, id⟩]
  | missing (absent : ∀ other, ¬ t.Holds B other id) :
    Classifies t context wrongContext missing id [⟨missing, id⟩]

/-- The report lists the findings of the cited events in their order, and then those of the head of
the recipient, and counts the references that are present. -/
structure Reports (t : Tables) (body : ReceiptBodyV1) (report : ReceiptDagReport) : Prop where
  findings : ∃ cited head, report.findings = cited.flatten ++ head ∧
    List.Forall₂ (Classifies B t body.context "wrong-context" "missing") body.events cited ∧
    Classifies B t body.context "recipient-wrong-context" "recipient-missing" body.recipient.head
      head
  counted : report.checkedEvents + report.findings.length = body.events.length + 1
  valid : report.valid = true ↔
    ∀ id ∈ body.events ++ [body.recipient.head], t.Holds B body.context id

section Verification

variable {B} {L : Ledger B} {context : ContextId} {wrongContext missing : String} {id : EventId}

/-- A reference has no finding exactly when its event is stored in the context. -/
theorem Classifies.eq_nil_iff (h : L.WellFormed) {found : List ReceiptDagFinding}
    (hfound : Classifies B L.tables context wrongContext missing id found) :
    found = [] ↔ L.tables.Holds B context id := by
  cases hfound with
  | present held => exact iff_of_true rfl held
  | wrongContext other held foreign =>
    refine iff_of_false (List.cons_ne_nil _ _) fun hheld ↦ foreign ?_
    obtain ⟨e, he, hid, hother⟩ := Ledger.holds_tables.mp held
    obtain ⟨f, hf, hfid, hcontext⟩ := Ledger.holds_tables.mp hheld
    rw [← hother, ← hcontext, h.event_eq_of_id he hf (hid.trans hfid.symm)]
  | missing absent => exact iff_of_false (List.cons_ne_nil _ _) (absent context)

/-- References have no finding exactly when all their events are stored in the context. -/
theorem classifies_flatten_eq_nil (h : L.WellFormed) {ids : List EventId}
    {cited : List (List ReceiptDagFinding)}
    (hcited : List.Forall₂ (Classifies B L.tables context wrongContext missing) ids cited) :
    cited.flatten = [] ↔ ∀ id ∈ ids, L.tables.Holds B context id := by
  induction hcited with
  | nil => exact iff_of_true rfl fun id hid ↦ absurd hid List.not_mem_nil
  | cons hfound _ ih =>
    rw [List.flatten_cons, List.append_eq_nil_iff, ih, hfound.eq_nil_iff h, List.forall_mem_cons]

/-- Checking one reference counts it, or adds its finding. -/
theorem noteEvent_tables (h : L.WellFormed) (context : ContextId) (wrongContext missing : String)
    (noted : ℕ × List ReceiptDagFinding) (id : EventId) :
    ∃ checked found, Classifies B L.tables context wrongContext missing id found ∧
      noteEvent B L.tables context wrongContext missing noted id = .ok (checked, noted.2 ++ found) ∧
      checked + found.length = noted.1 + 1 := by
  rw [noteEvent, checkEvent, Ledger.event_tables h.toWellKeyed]
  cases hfind : L.find id with
  | none =>
    refine ⟨noted.1, _, .missing fun other hheld ↦ ?_, rfl, rfl⟩
    obtain ⟨e, he, hid, -⟩ := Ledger.holds_tables.mp hheld
    exact Ledger.find_eq_none.mp hfind e he hid
  | some e =>
    obtain ⟨he, hid⟩ := h.find_eq_some.mp hfind
    have hheld : L.tables.Holds B e.context id := Ledger.holds_tables.mpr ⟨e, he, hid, rfl⟩
    rw [Option.map_some, ok_bind, ok_bind]
    by_cases hsame : e.event.body.context = context
    · rw [if_pos hsame]
      refine ⟨noted.1 + 1, [], .present (hsame ▸ hheld), ?_, rfl⟩
      rw [List.append_nil]
    · rw [if_neg hsame]
      exact ⟨noted.1, _, .wrongContext e.context hheld hsame, rfl, rfl⟩

theorem noteEvents_tables (h : L.WellFormed) (context : ContextId) (wrongContext missing : String)
    (noted : ℕ × List ReceiptDagFinding) (ids : List EventId) :
    ∃ checked cited,
      List.Forall₂ (Classifies B L.tables context wrongContext missing) ids cited ∧
      foldEach (noteEvent B L.tables context wrongContext missing) noted ids =
        .ok (checked, noted.2 ++ cited.flatten) ∧
      checked + cited.flatten.length = noted.1 + ids.length := by
  induction ids generalizing noted with
  | nil => exact ⟨noted.1, [], .nil, by rw [foldEach, List.flatten_nil, List.append_nil], rfl⟩
  | cons id rest ih =>
    obtain ⟨middle, found, hfound, hnote, hone⟩ :=
      noteEvent_tables h context wrongContext missing noted id
    obtain ⟨checked, cited, hcited, hrest, hcount⟩ := ih (middle, noted.2 ++ found)
    refine ⟨checked, found :: cited, .cons hfound hcited, ?_, ?_⟩
    · rw [foldEach, hnote, ok_bind, hrest, List.flatten_cons, List.append_assoc]
    · rw [List.flatten_cons, List.length_append, List.length_cons]
      omega

/-- Verification against a well-formed store reports on every reference. -/
theorem verifyAgainstDag_tables (h : L.WellFormed) (receipt : SignedReceiptV1) :
    ∃ report, receipt.verifyAgainstDag B L.tables = .ok report ∧
      Reports B L.tables receipt.body report := by
  obtain ⟨middle, cited, hcited, hevents, hcount⟩ := noteEvents_tables h receipt.body.context
    "wrong-context" "missing" (0, []) receipt.body.events
  obtain ⟨checked, head, hhead, hnote, hone⟩ := noteEvent_tables h receipt.body.context
    "recipient-wrong-context" "recipient-missing" (middle, [] ++ cited.flatten)
    receipt.body.recipient.head
  refine ⟨⟨(cited.flatten ++ head).isEmpty, checked, cited.flatten ++ head⟩, ?_, ?_⟩
  · rw [SignedReceiptV1.verifyAgainstDag]
    dsimp only
    rw [hevents, ok_bind, hnote, ok_bind]
    rfl
  · exact
      { findings := ⟨cited, head, rfl, hcited, hhead⟩
        counted := by
          show checked + (cited.flatten ++ head).length = _
          rw [List.length_append]
          omega
        valid := by
          rw [List.isEmpty_iff, List.append_eq_nil_iff, classifies_flatten_eq_nil h hcited,
            hhead.eq_nil_iff h, List.forall_mem_append, List.forall_mem_singleton] }

end Verification

/-- On every reachable store, verification of any receipt reports exactly what is missing or foreign
among its references; and a receipt that is valid stays valid through every later run. -/
theorem verifyAgainstDag_exact {t : Tables} (hreachable : Reachable B t)
    (receipt : SignedReceiptV1) :
    ∃ report, receipt.verifyAgainstDag B t = .ok report ∧ Reports B t receipt.body report ∧
      ∀ later, Run B t later → report.valid = true →
        ∃ report', receipt.verifyAgainstDag B later = .ok report' ∧ report'.valid = true := by
  obtain ⟨L, h, rfl⟩ := Ledger.exists_of_reachable hreachable
  obtain ⟨report, hreport, hreports⟩ := verifyAgainstDag_tables h receipt
  refine ⟨report, hreport, hreports, fun later hrun hvalid ↦ ?_⟩
  obtain ⟨M, rfl, hsteps⟩ := Ledger.run_steps h hrun
  obtain ⟨report', hreport', hreports'⟩ := verifyAgainstDag_tables (hsteps.wellFormed h) receipt
  refine ⟨report', hreport', hreports'.valid.mpr fun id hid ↦ ?_⟩
  have hheld := Ledger.holds_tables.mp (hreports.valid.mp hvalid id hid)
  exact Ledger.holds_tables.mpr (hheld.mono hsteps.events_subset)

section Golden

open Reference Golden

/-- A body that cites both events of the fixture. -/
def citingBody : ReceiptBodyV1 := { goldenBody "blake3_" with events := [second.id, first.id] }

theorem citingBody_valid : citingBody.validate Golden.B = .ok () := by
  have hlength :
      canonicalLength Golden.B (citingBody.toJson Golden.B) ≤ MAX_RECEIPT_WIRE_BYTES := by
    have hmembers : ∀ m ∈ citingBody.members Golden.B,
        canonicalLength Golden.B (.str m.1) + canonicalLength Golden.B m.2 ≤ 900 := by
      decide +kernel
    exact (canonicalLength_obj_le 900 (ReceiptBodyV1.members_increasing _) hmembers).trans
      (by decide : 10 * (900 + 2) + 2 ≤ MAX_RECEIPT_WIRE_BYTES)
  have hsorted : Ordered.Canonical (EventId.text Golden.B) [second.id, first.id] := by decide
  have htask : citingBody.task.validate Golden.B = .ok () :=
    (TaskRecordV1.validate_unstructured rfl).mpr ⟨by decide, by decide⟩
  have hdate : validUtcTimestamp citingBody.createdAt = true := by decide +kernel
  exact ReceiptBodyV1.validate_eq_ok.mpr ⟨rfl, (by decide : 2 ≤ MAX_RECEIPT_EVENTS), hsorted, htask,
    rfl, Nat.zero_le _, rfl, hdate, hlength⟩

/-- An issued receipt whose last event is not stored yet is not valid, and its finding names the
event. It is valid where the event is stored, and after the store has grown. -/
theorem verifyAgainstDag_exact_citing : ∃ receipt early report report',
    SignedReceiptV1.issue Golden.B identity citingBody = .ok receipt ∧
      (receipt.verifyAgainstDag Golden.B rooted.tables = .ok early ∧ early.valid = false ∧
        ⟨"missing", second.id⟩ ∈ early.findings) ∧
      (receipt.verifyAgainstDag Golden.B advanced.tables = .ok report ∧ report.valid = true) ∧
      receipt.verifyAgainstDag Golden.B
        ((Operation.createBranch Golden.context side first.id).execute Golden.B none
          advanced.tables).1 = .ok report' ∧ report'.valid = true := by
  obtain ⟨receipt, hissued⟩ := SignedReceiptV1.issue_succeeds (World.honest Golden.world)
    citingBody_valid (show Golden.author = identity.author Golden.B from rfl)
  have hbody : receipt.body = citingBody := by rw [(SignedReceiptV1.issue_eq_ok hissued).1]
  obtain ⟨early, hearly, hfindings, -⟩ := verifyAgainstDag_exact Golden.B rooted_reachable receipt
  obtain ⟨report, hreport, hreports, hlater⟩ :=
    verifyAgainstDag_exact Golden.B advanced_reachable receipt
  rw [hbody] at hfindings hreports
  have hunstored : ∀ context, ¬ rooted.tables.Holds Golden.B context second.id := by
    intro context hheld
    obtain ⟨e, he, hid, -⟩ := Ledger.holds_tables.mp hheld
    exact first_ne_second (List.mem_singleton.mp he ▸ hid)
  have hfirst : advanced.Holds Golden.context first.id := ⟨first, List.mem_cons_self, rfl, rfl⟩
  have hsecond : advanced.Holds Golden.context second.id :=
    ⟨second, List.mem_cons_of_mem _ (List.mem_singleton_self _), rfl, rfl⟩
  have hvalid : report.valid = true := hreports.valid.mpr fun id hid ↦ by
    rcases List.mem_append.mp hid with hcited | hhead
    · rcases List.mem_pair.mp hcited with rfl | rfl
      · exact Ledger.holds_tables.mpr hsecond
      · exact Ledger.holds_tables.mpr hfirst
    · exact List.mem_singleton.mp hhead ▸ Ledger.holds_tables.mpr hfirst
  obtain ⟨report', hreport', hvalid'⟩ :=
    hlater _ (.step (.refl _) (.createBranch Golden.context side first.id) none) hvalid
  refine ⟨receipt, early, report, report', hissued, ⟨hearly, ?_, ?_⟩, ⟨hreport, hvalid⟩, hreport',
    hvalid'⟩
  · rw [Bool.eq_false_iff]
    intro hsound
    exact hunstored _ (hfindings.valid.mp hsound _ List.mem_cons_self)
  · obtain ⟨cited, head, hall, hcited, -⟩ := hfindings.findings
    cases hcited with
    | cons hclassified _ =>
      rw [hall]
      cases hclassified with
      | present hheld => exact absurd hheld (hunstored _)
      | wrongContext other hheld _ => exact absurd hheld (hunstored other)
      | missing _ => exact List.mem_append_left _ List.mem_cons_self

end Golden

end ContextMesh.Receipt
