import ContextMesh.Delta.Ancestry
import ContextMesh.Delta.Views

/-!
The delta of a closed selection: the references that a recipient's known history lacks. The selected
events are split by binary search in the known history, and the references outside it are gathered
with the sum of their payload bytes, within bounds on both.
-/

set_option autoImplicit false
set_option relaxedAutoImplicit false

namespace ContextMesh.Delivery

open Checked Ordered Contract Relation Store Ledger ContextMesh.Delta

/-- The selected events outside a known history and those inside it, in canonical order. -/
structure DeltaReport where
  delta : List EventId
  known : List EventId
  deriving DecidableEq

/-- The closed references outside a known history, with the head and the history they were computed
against and the selected events inside it. -/
structure Delta where
  context : ContextId
  recipientHead : Option EventId
  recipientClosure : List EventId
  selectedKnown : List EventId
  references : List SourceReference
  totalBytes : ℕ
  limits : ClosureLimits

def Delta.events (delta : Delta) : List EventId := delta.references.map SourceReference.event

def Delta.isColdStart (delta : Delta) : Bool := delta.recipientHead.isNone

variable (B : Boundary)

/-- Splits the selected events by a search in the known history. -/
def deltaOver (selected closure : List EventId) : DeltaReport :=
  let selectedIds := normalize (EventId.text B) selected
  let closureIds := normalize (EventId.text B) closure
  let parts := selectedIds.partition fun id ↦
    binarySearch (EventId.text B) closureIds (id.text B)
  ⟨parts.2, parts.1⟩

/-- Checks that a stated head is stored in a context. The errors are the caller's. -/
def checkHead {ε : Type} (t : Tables) (context : ContextId) (store : StoreError → ε)
    (unknown wrong : EventId → ε) (head : EventId) : Except ε Unit := do
  let found ← (event B t head).mapError store
  let event ← required found (unknown head)
  ensure (event.body.context = context) (wrong head)

/-- Appends a reference that the search finds in the delta and counts its payload bytes. -/
def collectReference (delta : List EventId) (collected : List SourceReference × ℕ)
    (reference : SourceReference) : List SourceReference × ℕ :=
  if binarySearch (EventId.text B) delta (reference.event.text B) then
    (collected.1 ++ [reference], collected.2 + reference.payloadBytes)
  else collected

/-- Computes the closed selected events outside the known history of a recipient. -/
def computeDelta (t : Tables) (selected : ClosedSelection) (recipient : RecipientState) :
    Except DeltaError Delta := do
  ensure (recipient.context = selected.context) .contextMismatch
  checkEach (checkHead B t selected.context .store .unknownRecipientHead .wrongContext)
    recipient.head.toList
  let report := deltaOver B (selected.references.map SourceReference.event) recipient.closure
  ensure (report.delta.length ≤ MAX_DELTA_EVENTS) .limitExceeded
  let collected := selected.references.foldl (collectReference B report.delta) ([], 0)
  ensure (collected.2 ≤ MAX_DELTA_BYTES) .limitExceeded
  .ok ⟨selected.context, recipient.head, recipient.closure, report.known, collected.1, collected.2,
    selected.limits⟩

variable {B}

/-! ### The split -/

section Split

variable {selected closure : List EventId} {id : EventId}

theorem binarySearch_normalize {ids : List EventId} :
    binarySearch (EventId.text B) (normalize (EventId.text B) ids) (id.text B) = true ↔
      id ∈ ids := by
  rw [binarySearch_iff EventId.text_injective
    (normalize_canonical EventId.text_injective ids).pairwise, mem_normalize]

theorem deltaOver_delta : (deltaOver B selected closure).delta =
    (normalize (EventId.text B) selected).filter fun id ↦ id ∉ closure := by
  unfold deltaOver
  dsimp only
  rw [List.partition_eq_filter_filter]
  refine List.filter_congr fun id _ ↦ ?_
  rw [Bool.eq_iff_iff, Function.comp_apply, Bool.not_eq_true', Bool.eq_false_iff, Ne,
    binarySearch_normalize, decide_eq_true_eq]

theorem deltaOver_known : (deltaOver B selected closure).known =
    (normalize (EventId.text B) selected).filter fun id ↦ id ∈ closure := by
  unfold deltaOver
  dsimp only
  rw [List.partition_eq_filter_filter]
  refine List.filter_congr fun id _ ↦ ?_
  rw [Bool.eq_iff_iff, binarySearch_normalize, decide_eq_true_eq]

theorem mem_deltaOver_delta :
    id ∈ (deltaOver B selected closure).delta ↔ id ∈ selected ∧ id ∉ closure := by
  rw [deltaOver_delta, List.mem_filter, mem_normalize, decide_eq_true_eq]

theorem deltaOver_canonical : Canonical (EventId.text B) (deltaOver B selected closure).delta := by
  rw [deltaOver_delta]
  exact (normalize_canonical EventId.text_injective selected).sublist List.filter_sublist

end Split

/-! ### The delta -/

/-- The references outside a known history. -/
def lacking (closure : List EventId) (references : List SourceReference) : List SourceReference :=
  references.filter fun reference ↦ reference.event ∉ closure

/-- The references gathered are those outside the known history. -/
theorem foldl_collectReference {delta : List EventId} {closure : List EventId}
    {references : List SourceReference}
    (hfound : ∀ reference ∈ references,
      binarySearch (EventId.text B) delta (reference.event.text B) = true ↔
        reference.event ∉ closure) (collected : List SourceReference × ℕ) :
    references.foldl (collectReference B delta) collected =
      (collected.1 ++ lacking closure references,
        collected.2 + ((lacking closure references).map SourceReference.payloadBytes).sum) := by
  induction references generalizing collected with
  | nil => simp [lacking]
  | cons reference rest ih =>
    obtain ⟨hreference, hrest⟩ := List.forall_mem_cons.mp hfound
    rw [List.foldl_cons, ih hrest, collectReference]
    by_cases houtside : reference.event ∉ closure
    · have hkept : lacking closure (reference :: rest) = reference :: lacking closure rest :=
        List.filter_cons_of_pos (decide_eq_true houtside)
      rw [if_pos (hreference.mpr houtside), hkept, List.map_cons, List.sum_cons,
        List.append_assoc, List.singleton_append, Nat.add_assoc]
    · have hdropped : lacking closure (reference :: rest) = lacking closure rest :=
        List.filter_cons_of_neg (by simpa using houtside)
      rw [if_neg (fun hfinds ↦ houtside (hreference.mp hfinds)), hdropped]

section Compute

variable {t : Tables} {selected : ClosedSelection} {recipient : RecipientState} {delta : Delta}

/-- The delta in terms of the references outside the known history. -/
theorem computeDelta_eq_ok : computeDelta B t selected recipient = .ok delta ↔
    recipient.context = selected.context ∧
    (∀ head ∈ recipient.head,
      checkHead B t selected.context DeltaError.store .unknownRecipientHead .wrongContext head =
        .ok ()) ∧
    (deltaOver B (selected.references.map SourceReference.event) recipient.closure).delta.length ≤
      MAX_DELTA_EVENTS ∧
    ((lacking recipient.closure selected.references).map SourceReference.payloadBytes).sum ≤
      MAX_DELTA_BYTES ∧
    delta = ⟨selected.context, recipient.head, recipient.closure,
      (deltaOver B (selected.references.map SourceReference.event) recipient.closure).known,
      lacking recipient.closure selected.references,
      ((lacking recipient.closure selected.references).map SourceReference.payloadBytes).sum,
      selected.limits⟩ := by
  have hfold : selected.references.foldl (collectReference B
      (deltaOver B (selected.references.map SourceReference.event) recipient.closure).delta)
      ([], 0) = (lacking recipient.closure selected.references,
        ((lacking recipient.closure selected.references).map
          SourceReference.payloadBytes).sum) := by
    rw [foldl_collectReference, List.nil_append, Nat.zero_add]
    intro reference hreference
    rw [binarySearch_iff EventId.text_injective deltaOver_canonical.pairwise, mem_deltaOver_delta]
    exact and_iff_right (List.mem_map_of_mem hreference)
  unfold computeDelta
  dsimp only
  rw [hfold, unit_bind_eq_ok, ensure_eq_ok, unit_bind_eq_ok, checkEach_eq_ok, unit_bind_eq_ok,
    ensure_eq_ok, unit_bind_eq_ok, ensure_eq_ok, Except.ok.injEq]
  simp only [Option.mem_toList, Option.mem_def, eq_comm]

end Compute

variable {L : Ledger B} {context : ContextId}

theorem checkHead_eq_ok (h : L.WellKeyed) {ε : Type} {store : StoreError → ε}
    {unknown wrong : EventId → ε} {head : EventId} {u : Unit} :
    checkHead B L.tables context store unknown wrong head = .ok u ↔ L.Holds context head := by
  rw [checkHead, event_tables h, mapError_ok, ok_bind]
  cases hfind : L.find head with
  | none =>
    refine ⟨fun hok ↦ ?_, fun ⟨e, he, hid, _⟩ ↦ absurd hid (find_eq_none.mp hfind e he)⟩
    cases hok
  | some e =>
    obtain ⟨he, hid⟩ := h.find_eq_some.mp hfind
    rw [Option.map_some, required_some, ok_bind, ensure_eq_ok]
    constructor
    · exact fun hcontext ↦ ⟨e, he, hid, hcontext⟩
    · rintro ⟨f, hf, hfid, hcontext⟩
      exact h.event_eq_of_id he hf (hid.trans hfid.symm) ▸ hcontext

/-- The events of the delta are those of the references outside the known history. -/
theorem deltaOver_references {references : List SourceReference} {closure : List EventId}
    (hcanonical : Canonical (EventId.text B) (references.map SourceReference.event)) :
    (deltaOver B (references.map SourceReference.event) closure).delta =
      (lacking closure references).map SourceReference.event := by
  rw [deltaOver_delta, normalize_eq_self hcanonical, List.filter_map]
  rfl

variable (B) in
/-- The event is the head of the recipient or one of its ancestors. -/
def Knows (t : Tables) (recipient : RecipientState) (id : EventId) : Prop :=
  ∃ head ∈ recipient.head, ReflTransGen (t.Parent B) head id

variable (B) in
/-- The recipient knows nothing, or the ancestry of a head of the store. -/
def Derived (t : Tables) (recipient : RecipientState) : Prop :=
  (∃ context, recipient = .coldStart context) ∨
    ∃ context head bounds, RecipientState.atHead B t context head bounds = .ok recipient

theorem Derived.mem_closure (h : L.WellFormed) {recipient : RecipientState}
    (hrecipient : Derived B L.tables recipient) (id : EventId) :
    id ∈ recipient.closure ↔ Knows B L.tables recipient id := by
  rw [Knows, parent_tables]
  rcases hrecipient with ⟨context, rfl⟩ | ⟨context, head, bounds, hok⟩
  · simp [RecipientState.coldStart]
  · obtain ⟨-, hhead, -, hclosure, -⟩ := atHead_eq_ok h hok
    rw [hclosure, hhead]
    simp [Ledger.Ancestor]

/-- The head of a derived recipient is stored in its context. -/
theorem Derived.holds (h : L.WellFormed) {recipient : RecipientState}
    (hrecipient : Derived B L.tables recipient) {head : EventId} (hhead : head ∈ recipient.head) :
    L.Holds recipient.context head := by
  rcases hrecipient with ⟨context, rfl⟩ | ⟨context, stated, bounds, hok⟩
  · cases hhead
  · obtain ⟨hcontext, hstated, -⟩ := atHead_eq_ok h hok
    rw [hstated, Option.mem_def, Option.some.injEq] at hhead
    rw [← hhead, hcontext]
    exact holds_of_atHead h hok

open scoped Classical in
variable (B) in
/-- The references that a recipient does not know. -/
noncomputable def unknownTo (t : Tables) (recipient : RecipientState)
    (references : List SourceReference) : List SourceReference :=
  references.filter fun reference ↦ ¬ Knows B t recipient reference.event

open scoped Classical in
variable (B) in
/-- The references that a recipient knows. -/
noncomputable def knownTo (t : Tables) (recipient : RecipientState)
    (references : List SourceReference) : List SourceReference :=
  references.filter fun reference ↦ Knows B t recipient reference.event

theorem mem_map_filter {references : List SourceReference} {p : EventId → Bool} {id : EventId} :
    id ∈ (references.filter fun reference ↦ p reference.event).map SourceReference.event ↔
      id ∈ references.map SourceReference.event ∧ p id = true := by
  simp only [List.mem_map, List.mem_filter]
  constructor
  · rintro ⟨reference, ⟨hmem, hp⟩, rfl⟩
    exact ⟨⟨reference, hmem, rfl⟩, hp⟩
  · rintro ⟨⟨reference, hmem, rfl⟩, hp⟩
    exact ⟨reference, ⟨hmem, hp⟩, rfl⟩

theorem mem_unknownTo {t : Tables} {recipient : RecipientState} {references : List SourceReference}
    {id : EventId} : id ∈ (unknownTo B t recipient references).map SourceReference.event ↔
      id ∈ references.map SourceReference.event ∧ ¬ Knows B t recipient id := by
  classical
  rw [unknownTo, mem_map_filter (p := fun id ↦ decide (¬ Knows B t recipient id)),
    decide_eq_true_eq]

theorem mem_knownTo {t : Tables} {recipient : RecipientState} {references : List SourceReference}
    {id : EventId} : id ∈ (knownTo B t recipient references).map SourceReference.event ↔
      id ∈ references.map SourceReference.event ∧ Knows B t recipient id := by
  classical
  rw [knownTo, mem_map_filter (p := fun id ↦ decide (Knows B t recipient id)), decide_eq_true_eq]

/-- A recipient that knows nothing lacks everything. -/
theorem unknownTo_cold {t : Tables} {recipient : RecipientState} (hcold : recipient.head = none)
    {references : List SourceReference} : unknownTo B t recipient references = references := by
  unfold unknownTo
  rw [List.filter_eq_self]
  intro reference _
  have hnone : ¬ Knows B t recipient reference.event := by
    rintro ⟨head, hhead, -⟩
    rw [hcold] at hhead
    cases hhead
  simpa using hnone

theorem lacking_eq (h : L.WellFormed) {recipient : RecipientState}
    (hrecipient : Derived B L.tables recipient) (references : List SourceReference) :
    lacking recipient.closure references = unknownTo B L.tables recipient references := by
  refine List.filter_congr fun reference _ ↦ ?_
  rw [decide_eq_decide, hrecipient.mem_closure h]

/-- The delta is what the recipient lacks. It exists exactly when the contexts match and the closed
references outside the known history are within the bounds; it holds these references and the sum of
their payload bytes, and lists the closed events inside the known history apart. -/
theorem computeDelta_exact (B : Boundary) (t : Tables) (hreachable : Reachable B t)
    (context : ContextId) (selected candidates : List EventId) (policy : CriticalPolicy)
    (limits : ClosureLimits) (c : ClosedSelection)
    (hclosed : closeSelection B t context selected candidates policy limits = .ok c)
    (recipient : RecipientState) (hrecipient : Derived B t recipient) :
    ((∃ delta, computeDelta B t c recipient = .ok delta) ↔
      recipient.context = c.context ∧
      (unknownTo B t recipient c.references).length ≤ MAX_DELTA_EVENTS ∧
      ((unknownTo B t recipient c.references).map SourceReference.payloadBytes).sum ≤
        MAX_DELTA_BYTES) ∧
    ∀ delta, computeDelta B t c recipient = .ok delta →
      delta.references = unknownTo B t recipient c.references ∧
      delta.selectedKnown = (knownTo B t recipient c.references).map SourceReference.event ∧
      Canonical (EventId.text B) delta.events ∧
      Canonical (EventId.text B) delta.selectedKnown ∧
      (∀ id ∈ delta.events, id ∉ delta.selectedKnown) ∧
      (∀ id, id ∈ delta.events ∨ id ∈ delta.selectedKnown ↔
        id ∈ c.references.map SourceReference.event) ∧
      delta.totalBytes = (delta.references.map SourceReference.payloadBytes).sum ∧
      (recipient.head = none → delta.references = c.references) := by
  obtain ⟨L, h, rfl⟩ := exists_of_reachable hreachable
  obtain ⟨-, hcanonical⟩ := closeSelection_canonical h.toWellKeyed hclosed
  have hlacking := lacking_eq h hrecipient c.references
  have hheads : recipient.context = c.context → ∀ head ∈ recipient.head,
      checkHead B L.tables c.context DeltaError.store .unknownRecipientHead .wrongContext head =
        .ok () := fun hcontext head hhead ↦
    (checkHead_eq_ok h.toWellKeyed).mpr (hcontext ▸ hrecipient.holds h hhead)
  constructor
  · simp only [computeDelta_eq_ok, deltaOver_references hcanonical, List.length_map, hlacking]
    constructor
    · rintro ⟨delta, hcontext, -, hcount, hbytes, -⟩
      exact ⟨hcontext, hcount, hbytes⟩
    · rintro ⟨hcontext, hcount, hbytes⟩
      exact ⟨_, hcontext, hheads hcontext, hcount, hbytes, rfl⟩
  · intro delta hdelta
    obtain ⟨-, -, -, -, rfl⟩ := computeDelta_eq_ok.mp hdelta
    have hknown : (deltaOver B (c.references.map SourceReference.event) recipient.closure).known =
        (knownTo B L.tables recipient c.references).map SourceReference.event := by
      rw [deltaOver_known, normalize_eq_self hcanonical, List.filter_map, knownTo]
      refine congrArg _ (List.filter_congr fun reference _ ↦ ?_)
      rw [Function.comp_apply, decide_eq_decide, hrecipient.mem_closure h]
    unfold Delta.events
    dsimp only
    rw [hknown, hlacking]
    refine ⟨rfl, rfl, ?_, ?_, fun id hunknown hknows ↦ ?_, fun id ↦ ?_, rfl, fun hcold ↦ ?_⟩
    · exact hcanonical.sublist (List.filter_sublist.map _)
    · exact hcanonical.sublist (List.filter_sublist.map _)
    · exact (mem_unknownTo.mp hunknown).2 (mem_knownTo.mp hknows).2
    · rw [mem_unknownTo, mem_knownTo, ← and_or_left]
      exact and_iff_left (em' _)
    · exact unknownTo_cold hcold

/-- A recipient that knows nothing is sent the whole selection. -/
theorem computeDelta_coldStart {t : Tables} {c : ClosedSelection}
    (hcount : c.references.length ≤ MAX_DELTA_EVENTS)
    (hbytes : (c.references.map SourceReference.payloadBytes).sum ≤ MAX_DELTA_BYTES) :
    computeDelta B t c (.coldStart c.context) = .ok ⟨c.context, none, [], [], c.references,
      (c.references.map SourceReference.payloadBytes).sum, c.limits⟩ := by
  have hall : lacking [] c.references = c.references :=
    List.filter_eq_self.mpr fun reference _ ↦ decide_eq_true List.not_mem_nil
  have hknown : (deltaOver B (c.references.map SourceReference.event) []).known = [] := by
    rw [deltaOver_known]
    exact List.filter_eq_nil_iff.mpr fun id _ hmem ↦ List.not_mem_nil (of_decide_eq_true hmem)
  have hfew : (deltaOver B (c.references.map SourceReference.event) []).delta.length ≤
      c.references.length := by
    rw [deltaOver_delta]
    exact (List.length_filter_le _ _).trans
      ((length_normalize_le _ _).trans (List.length_map _).le)
  rw [computeDelta_eq_ok]
  unfold RecipientState.coldStart
  dsimp only
  rw [hall, hknown]
  exact ⟨rfl, fun head hhead ↦ absurd hhead (Option.not_mem_none head), hfew.trans hcount, hbytes,
    rfl⟩

section Golden

open Reference Golden

theorem derived_second : ∃ recipient,
    RecipientState.atHead Golden.B advanced.tables Golden.context second.id .default =
      .ok recipient ∧ Derived Golden.B advanced.tables recipient := by
  have hfew : advanced.events.length ≤ 60 := by decide
  obtain ⟨recipient, hok⟩ := atHead_succeeds advanced_wellFormed rfl
    ⟨second, second_stored, rfl, rfl⟩ (withinLimits_of_few hfew (advanced.Below [second.id]))
  exact ⟨recipient, hok, Or.inr ⟨_, _, _, hok⟩⟩

/-- A recipient at the request lacks nothing of it, and a recipient that knows nothing lacks it. -/
theorem computeDelta_exact_advanced : ∃ c recipient,
    closeSelection Golden.B advanced.tables Golden.context [] [second.id] requestPolicy .default =
      .ok c ∧
    RecipientState.atHead Golden.B advanced.tables Golden.context second.id .default =
      .ok recipient ∧
    (∀ delta, computeDelta Golden.B advanced.tables c recipient = .ok delta →
      delta.references = unknownTo Golden.B advanced.tables recipient c.references) ∧
    ∃ delta, computeDelta Golden.B advanced.tables c (.coldStart Golden.context) = .ok delta ∧
      delta.references = c.references := by
  have hclosed := closeSelection_advanced .default rfl
  obtain ⟨recipient, hrecipient, hderived⟩ := derived_second
  have hexact := fun known hknown ↦ computeDelta_exact Golden.B advanced.tables advanced_reachable
    Golden.context [] [second.id] requestPolicy .default _ hclosed known hknown
  refine ⟨_, recipient, hclosed, hrecipient, fun delta hdelta ↦
    ((hexact recipient hderived).2 delta hdelta).1, ?_⟩
  obtain ⟨hsucceeds, hdelta⟩ := hexact (.coldStart Golden.context) (Or.inl ⟨_, rfl⟩)
  obtain ⟨-, -, -, -, -, hpayload, -⟩ := EventBodyV1.validate_eq_ok.mp second.valid
  obtain ⟨delta, hok⟩ := hsucceeds.mpr ⟨rfl, by
      rw [unknownTo_cold rfl]
      exact (by decide : 1 ≤ MAX_DELTA_EVENTS), by
      rw [unknownTo_cold rfl, List.map_singleton, List.sum_singleton]
      exact hpayload.trans (by decide)⟩
  exact ⟨delta, hok, (hdelta delta hok).2.2.2.2.2.2.2 rfl⟩

end Golden

end ContextMesh.Delivery
