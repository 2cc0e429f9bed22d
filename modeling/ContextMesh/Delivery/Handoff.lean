import ContextMesh.Delivery.Difference

/-!
Handoffs: a delta bound to the head it was computed against, with the omissions, the uncertainty
markers and the sources included again after a challenge. A handoff is built from a delta and
changed by three operations; each of them keeps the lists sorted, bounded and apart from the delta,
so a handoff built by any history of them is well formed.
-/

set_option autoImplicit false
set_option relaxedAutoImplicit false

namespace ContextMesh.Delivery

open Checked Ordered Contract Relation Store Ledger ContextMesh.Delta

/-- Hard maximum number of listed omissions on one handoff. -/
def MAX_OMISSIONS : ℕ := 4096

/-- Hard maximum number of uncertainty markers on one handoff. -/
def MAX_UNCERTAINTY_NOTES : ℕ := 64

/-- Hard maximum byte size of one uncertainty marker or challenge note. -/
def MAX_NOTE_BYTES : ℕ := 1024

inductive HandoffError
  | stale (computed current : Option EventId)
  | unknownRecipientHead (head : EventId)
  | wrongContext (event : EventId)
  | invalidState
  | store (error : StoreError)
  | unknownOmission (event : EventId)
  | delta (error : DeltaError)
  | internal

/-- Why a source was left out of a handoff. -/
inductive OmissionReason
  | notSelected
  | deliberate
  | capabilityMismatch
  deriving DecidableEq

structure Omission where
  event : EventId
  reason : OmissionReason
  deriving DecidableEq

/-- A recipient's challenge of a listed omission. -/
structure OmissionChallenge where
  event : EventId
  note : String
  deriving DecidableEq

/-- A source included again after a challenge. -/
structure ReIncluded where
  event : EventId
  challenge : OmissionChallenge
  deriving DecidableEq

/-- A delta with what it leaves out, what it is uncertain of and what was challenged. -/
structure Handoff where
  delta : Delta
  omissions : List Omission
  uncertainty : List String
  reIncluded : List ReIncluded

variable (B : Boundary)

namespace Handoff

/-- Binds a delta. A recipient knows its own head. -/
def fromDelta (delta : Delta) : Except HandoffError Handoff := do
  ensure (∀ head ∈ delta.recipientHead,
    binarySearch (EventId.text B) delta.recipientClosure (head.text B) = true) .invalidState
  .ok ⟨delta, [], [], []⟩

def events (handoff : Handoff) : List EventId := handoff.delta.events

/-- Both the head the handoff was computed against and the stated current head are stored in the
context of the handoff, and they agree. -/
def verifyValid (t : Tables) (handoff : Handoff) (currentHead : Option EventId) :
    Except HandoffError Unit := do
  checkEach (checkHead B t handoff.delta.context .store .unknownRecipientHead .wrongContext)
    handoff.delta.recipientHead.toList
  checkEach (checkHead B t handoff.delta.context .store .unknownRecipientHead .wrongContext)
    currentHead.toList
  ensure (handoff.delta.recipientHead = currentHead)
    (.stale handoff.delta.recipientHead currentHead)

/-- The delta of a handoff that is still valid. -/
def verifiedDelta (t : Tables) (handoff : Handoff) (currentHead : Option EventId) :
    Except HandoffError Delta := do
  verifyValid B t handoff currentHead
  .ok handoff.delta

/-- Lists an event that the handoff does not carry as omitted; a listed event stays as it is. -/
def withOmission (handoff : Handoff) (event : EventId) (reason : OmissionReason) :
    Except HandoffError Handoff := do
  ensure (¬ binarySearch (EventId.text B) handoff.delta.events (event.text B) = true) .invalidState
  if handoff.omissions.any fun omission ↦ omission.event = event then .ok handoff
  else do
    ensure (¬ handoff.omissions.length ≥ MAX_OMISSIONS) .invalidState
    .ok { handoff with
      omissions := sort (fun omission ↦ omission.event.text B)
        (handoff.omissions ++ [⟨event, reason⟩]) }

/-- Records an uncertainty marker. -/
def withUncertainty (handoff : Handoff) (note : String) : Except HandoffError Handoff := do
  ensure (note ≠ "" ∧ note.utf8ByteSize ≤ MAX_NOTE_BYTES) .invalidState
  let uncertainty := normalize id (handoff.uncertainty ++ [note])
  ensure (uncertainty.length ≤ MAX_UNCERTAINTY_NOTES) .invalidState
  .ok { handoff with uncertainty := uncertainty }

/-- Challenges a listed omission. -/
def challenge (handoff : Handoff) (event : EventId) (note : String) :
    Except HandoffError OmissionChallenge := do
  ensure (note ≠ "" ∧ note.utf8ByteSize ≤ MAX_NOTE_BYTES) .invalidState
  ensure (handoff.omissions.any fun omission ↦ omission.event = event) (.unknownOmission event)
  .ok ⟨event, note⟩

/-- The handoff that includes a challenged omission again: its delta is computed anew from the
supplied selection and has to carry the challenged event. -/
def followUp (t : Tables) (handoff : Handoff) (closed : ClosedSelection)
    (recipient : RecipientState) (challenge : OmissionChallenge) :
    Except HandoffError Handoff := do
  verifyValid B t handoff recipient.head
  ensure (handoff.omissions.any fun omission ↦ omission.event = challenge.event)
    (.unknownOmission challenge.event)
  let selected := sort (EventId.text B) (closed.references.map SourceReference.event)
  ensure (binarySearch (EventId.text B) selected (challenge.event.text B) = true) .invalidState
  let delta ← (computeDelta B t closed recipient).mapError .delta
  ensure (binarySearch (EventId.text B) delta.events (challenge.event.text B) = true) .invalidState
  let followUp ← fromDelta B delta
  .ok { followUp with
    omissions := handoff.omissions.filter fun omission ↦
      ¬ binarySearch (EventId.text B) delta.events (omission.event.text B) = true
    uncertainty := handoff.uncertainty
    reIncluded := handoff.reIncluded ++ [⟨challenge.event, challenge⟩] }

end Handoff

variable {B}

namespace Handoff

variable {t : Tables} {handoff next : Handoff} {delta : Delta} {closed : ClosedSelection}
  {recipient : RecipientState} {challenge : OmissionChallenge}

/-! ### What the operations do -/

theorem fromDelta_eq_ok : fromDelta B delta = .ok next ↔
    (∀ head ∈ delta.recipientHead,
      binarySearch (EventId.text B) delta.recipientClosure (head.text B) = true) ∧
    ⟨delta, [], [], []⟩ = next := by
  rw [fromDelta, unit_bind_eq_ok, ensure_eq_ok, Except.ok.injEq]

theorem verifyValid_eq_ok {current : Option EventId} {u : Unit} :
    verifyValid B t handoff current = .ok u ↔
      (∀ head ∈ handoff.delta.recipientHead, checkHead B t handoff.delta.context
        HandoffError.store .unknownRecipientHead .wrongContext head = .ok ()) ∧
      handoff.delta.recipientHead = current := by
  rw [verifyValid, unit_bind_eq_ok, unit_bind_eq_ok, checkEach_eq_ok, checkEach_eq_ok, ensure_eq_ok]
  simp only [Option.mem_toList, Option.mem_def]
  constructor
  · exact fun ⟨hembedded, _, hsame⟩ ↦ ⟨hembedded, hsame⟩
  · rintro ⟨hembedded, rfl⟩
    exact ⟨hembedded, hembedded, rfl⟩

theorem any_omission {event : EventId} :
    (handoff.omissions.any fun omission ↦ omission.event = event) = true ↔
      ∃ omission ∈ handoff.omissions, omission.event = event := by
  rw [List.any_eq_true]
  exact exists_congr fun omission ↦ and_congr_right fun _ ↦ decide_eq_true_iff

/-- An omission is a listed one, or it is put in its place. -/
theorem withOmission_eq_ok {event : EventId} {reason : OmissionReason} :
    withOmission B handoff event reason = .ok next ↔
      ¬ binarySearch (EventId.text B) handoff.events (event.text B) = true ∧
      ((∃ omission ∈ handoff.omissions, omission.event = event) ∧ handoff = next ∨
        (¬ ∃ omission ∈ handoff.omissions, omission.event = event) ∧
          handoff.omissions.length < MAX_OMISSIONS ∧
          { handoff with
            omissions := sort (fun omission ↦ omission.event.text B)
              (handoff.omissions ++ [⟨event, reason⟩]) } = next) := by
  rw [withOmission, unit_bind_eq_ok, ensure_eq_ok, ← any_omission]
  refine and_congr_right fun _ ↦ ?_
  by_cases hlisted : (handoff.omissions.any fun omission ↦ omission.event = event) = true
  · rw [if_pos hlisted, Except.ok.injEq]
    simp [hlisted]
  · rw [if_neg hlisted, unit_bind_eq_ok, ensure_eq_ok, Except.ok.injEq, Nat.not_le]
    simp [hlisted]

theorem withUncertainty_eq_ok {note : String} : withUncertainty handoff note = .ok next ↔
    (note ≠ "" ∧ note.utf8ByteSize ≤ MAX_NOTE_BYTES) ∧
    (normalize id (handoff.uncertainty ++ [note])).length ≤ MAX_UNCERTAINTY_NOTES ∧
    { handoff with uncertainty := normalize id (handoff.uncertainty ++ [note]) } = next := by
  rw [withUncertainty, unit_bind_eq_ok, ensure_eq_ok, unit_bind_eq_ok, ensure_eq_ok,
    Except.ok.injEq]

/-- Everything a follow-up checks, and the handoff it makes. -/
theorem followUp_eq_ok : followUp B t handoff closed recipient challenge = .ok next ↔
    ∃ delta, verifyValid B t handoff recipient.head = .ok () ∧
      (∃ omission ∈ handoff.omissions, omission.event = challenge.event) ∧
      challenge.event ∈ closed.references.map SourceReference.event ∧
      computeDelta B t closed recipient = .ok delta ∧
      binarySearch (EventId.text B) delta.events (challenge.event.text B) = true ∧
      (∀ head ∈ delta.recipientHead,
        binarySearch (EventId.text B) delta.recipientClosure (head.text B) = true) ∧
      ⟨delta, handoff.omissions.filter fun omission ↦
          ¬ binarySearch (EventId.text B) delta.events (omission.event.text B) = true,
        handoff.uncertainty, handoff.reIncluded ++ [⟨challenge.event, challenge⟩]⟩ = next := by
  unfold followUp
  dsimp only
  rw [unit_bind_eq_ok, unit_bind_eq_ok, ensure_eq_ok, any_omission, unit_bind_eq_ok, ensure_eq_ok,
    binarySearch_iff EventId.text_injective (sort_pairwise _ _), mem_sort]
  constructor
  · rintro ⟨hvalid, hlisted, hselected, hok⟩
    obtain ⟨delta, hdelta, hok⟩ := bind_eq_ok.mp hok
    obtain ⟨hlands, hok⟩ := unit_bind_eq_ok.mp hok
    obtain ⟨bound, hbound, hok⟩ := bind_eq_ok.mp hok
    obtain ⟨hhead, rfl⟩ := fromDelta_eq_ok.mp hbound
    rw [Except.ok.injEq] at hok
    exact ⟨delta, hvalid, hlisted, hselected, mapError_eq_ok.mp hdelta, ensure_eq_ok.mp hlands,
      hhead, hok⟩
  · rintro ⟨delta, hvalid, hlisted, hselected, hdelta, hlands, hhead, hok⟩
    rw [hdelta, mapError_ok, ok_bind, ensure_true hlands, ok_bind,
      fromDelta_eq_ok.mpr ⟨hhead, rfl⟩, ok_bind]
    exact ⟨hvalid, hlisted, hselected, congrArg _ hok⟩

/-! ### The invariant -/

variable (B) in
/-- What every handoff keeps: its omissions are sorted, bounded and apart from its delta, its
markers are sorted, bounded and neither empty nor too long, its head is in its closure, and every
source included again was challenged by name. -/
structure WellFormed (handoff : Handoff) : Prop where
  events : Canonical (EventId.text B) handoff.events
  omissions : Canonical (fun omission : Omission ↦ omission.event.text B) handoff.omissions
  fewOmissions : handoff.omissions.length ≤ MAX_OMISSIONS
  apart : ∀ omission ∈ handoff.omissions, omission.event ∉ handoff.events
  uncertainty : Canonical id handoff.uncertainty
  notes : ∀ note ∈ handoff.uncertainty, note ≠ "" ∧ note.utf8ByteSize ≤ MAX_NOTE_BYTES
  fewNotes : handoff.uncertainty.length ≤ MAX_UNCERTAINTY_NOTES
  head : ∀ head ∈ handoff.delta.recipientHead, head ∈ handoff.delta.recipientClosure
  challenged : ∀ entry ∈ handoff.reIncluded, entry.challenge.event = entry.event

variable (B) in
/-- The selection was closed on some reachable store. -/
def Closes (closed : ClosedSelection) : Prop :=
  ∃ t, Reachable B t ∧ ∃ context selected candidates policy limits,
    closeSelection B t context selected candidates policy limits = .ok closed

theorem Closes.canonical (h : Closes B closed) :
    Canonical (EventId.text B) (closed.references.map SourceReference.event) := by
  obtain ⟨t, hreachable, context, selected, candidates, policy, limits, hclosed⟩ := h
  obtain ⟨L, h, rfl⟩ := exists_of_reachable hreachable
  exact (closeSelection_canonical h.toWellKeyed hclosed).2

/-- The events of a delta stand in the order of the selection. -/
theorem delta_canonical (h : Closes B closed)
    (hdelta : computeDelta B t closed recipient = .ok delta) :
    Canonical (EventId.text B) delta.events := by
  obtain ⟨-, -, -, -, rfl⟩ := computeDelta_eq_ok.mp hdelta
  exact h.canonical.sublist (List.filter_sublist.map _)

theorem mem_of_search {ids : List EventId} {head : EventId}
    (h : binarySearch (EventId.text B) ids (head.text B) = true) : head ∈ ids := by
  obtain ⟨other, hother, htext⟩ := exists_of_binarySearch h
  exact EventId.text_injective htext ▸ hother

theorem fromDelta_wellFormed (h : Closes B closed)
    (hdelta : computeDelta B t closed recipient = .ok delta) (hok : fromDelta B delta = .ok next) :
    next.WellFormed B := by
  obtain ⟨hhead, rfl⟩ := fromDelta_eq_ok.mp hok
  exact {
    events := delta_canonical h hdelta
    omissions := canonical_nil _
    fewOmissions := Nat.zero_le _
    apart := fun _ hmem ↦ absurd hmem List.not_mem_nil
    uncertainty := canonical_nil _
    notes := fun _ hmem ↦ absurd hmem List.not_mem_nil
    fewNotes := Nat.zero_le _
    head := fun head hmem ↦ mem_of_search (hhead head hmem)
    challenged := fun _ hmem ↦ absurd hmem List.not_mem_nil }

theorem WellFormed.withOmission (h : handoff.WellFormed B) {event : EventId}
    {reason : OmissionReason} (hok : Handoff.withOmission B handoff event reason = .ok next) :
    next.WellFormed B := by
  obtain ⟨houtside, ⟨-, rfl⟩ | ⟨hnew, hfew, rfl⟩⟩ := withOmission_eq_ok.mp hok
  · exact h
  · rw [binarySearch_iff EventId.text_injective h.events.pairwise] at houtside
    refine { h with omissions := sort_canonical ?_, fewOmissions := ?_, apart := ?_ }
    · have hkeys := (canonical_iff_pairwise.mp h.omissions).imp fun hlt ↦ hlt.ne
      refine List.pairwise_append.mpr ⟨hkeys, List.pairwise_singleton _ _, ?_⟩
      intro omission homission other hother htext
      rw [List.mem_singleton.mp hother] at htext
      exact hnew ⟨omission, homission, EventId.text_injective htext⟩
    · rw [(sort_perm _ _).length_eq, List.length_append, List.length_singleton]
      exact hfew
    · intro omission homission
      rcases List.mem_append.mp (mem_sort.mp homission) with homission | homission
      · exact h.apart omission homission
      · rw [List.mem_singleton.mp homission]
        exact houtside

theorem WellFormed.withUncertainty (h : handoff.WellFormed B) {note : String}
    (hok : Handoff.withUncertainty handoff note = .ok next) : next.WellFormed B := by
  obtain ⟨hnote, hfew, rfl⟩ := withUncertainty_eq_ok.mp hok
  refine { h with
    uncertainty := normalize_canonical Function.injective_id _, notes := ?_, fewNotes := hfew }
  intro other hother
  rcases List.mem_append.mp (mem_normalize.mp hother) with hother | hother
  · exact h.notes other hother
  · rw [List.mem_singleton.mp hother]
    exact hnote

theorem WellFormed.followUp (h : handoff.WellFormed B) (hclosed : Closes B closed)
    (hok : Handoff.followUp B t handoff closed recipient challenge = .ok next) :
    next.WellFormed B := by
  obtain ⟨delta, -, -, -, hdelta, -, hhead, rfl⟩ := followUp_eq_ok.mp hok
  have hevents := delta_canonical hclosed hdelta
  exact {
    events := hevents
    omissions := h.omissions.sublist List.filter_sublist
    fewOmissions := (List.length_filter_le _ _).trans h.fewOmissions
    apart := fun omission homission hcarried ↦ by
      have houtside := of_decide_eq_true (List.mem_filter.mp homission).2
      exact houtside ((binarySearch_iff EventId.text_injective hevents.pairwise).mpr hcarried)
    uncertainty := h.uncertainty
    notes := h.notes
    fewNotes := h.fewNotes
    head := fun head hmem ↦ mem_of_search (hhead head hmem)
    challenged := fun entry hentry ↦ by
      rcases List.mem_append.mp hentry with hentry | hentry
      · exact h.challenged entry hentry
      · rw [List.mem_singleton.mp hentry] }

/-- A marker that is recorded already changes nothing. -/
theorem WellFormed.withUncertainty_of_mem (h : handoff.WellFormed B) {note : String}
    (hnote : note ∈ handoff.uncertainty) :
    Handoff.withUncertainty handoff note = .ok handoff := by
  have hsame : normalize id (handoff.uncertainty ++ [note]) = handoff.uncertainty := by
    have hcanonical := normalize_canonical Function.injective_id (handoff.uncertainty ++ [note])
    refine hcanonical.eq_of_mem_iff h.uncertainty fun other ↦ ?_
    rw [mem_normalize, List.mem_append, List.mem_singleton]
    exact or_iff_left_of_imp fun heq ↦ heq ▸ hnote
  rw [withUncertainty_eq_ok, hsame]
  exact ⟨h.notes note hnote, h.fewNotes, rfl⟩

variable (B) in
/-- The handoffs that the operations build, with a condition on the follow-ups. -/
inductive Built (permits : Handoff → ClosedSelection → RecipientState → Prop) : Handoff → Prop
  | fromDelta {t : Tables} {closed : ClosedSelection} {recipient : RecipientState} {delta : Delta}
      {handoff : Handoff} (hclosed : Closes B closed)
      (hdelta : computeDelta B t closed recipient = .ok delta)
      (hok : Handoff.fromDelta B delta = .ok handoff) : Built permits handoff
  | withOmission {handoff next : Handoff} {event : EventId} {reason : OmissionReason}
      (hbuilt : Built permits handoff)
      (hok : Handoff.withOmission B handoff event reason = .ok next) : Built permits next
  | withUncertainty {handoff next : Handoff} {note : String} (hbuilt : Built permits handoff)
      (hok : Handoff.withUncertainty handoff note = .ok next) : Built permits next
  | followUp {t : Tables} {handoff next : Handoff} {closed : ClosedSelection}
      {recipient : RecipientState} {challenge : OmissionChallenge}
      (hbuilt : Built permits handoff) (hclosed : Closes B closed)
      (hpermits : permits handoff closed recipient)
      (hok : Handoff.followUp B t handoff closed recipient challenge = .ok next) :
      Built permits next

theorem Built.wellFormed {permits : Handoff → ClosedSelection → RecipientState → Prop}
    (hbuilt : Built B permits handoff) : handoff.WellFormed B := by
  induction hbuilt with
  | fromDelta hclosed hdelta hok => exact fromDelta_wellFormed hclosed hdelta hok
  | withOmission _ hok ih => exact ih.withOmission hok
  | withUncertainty _ hok ih => exact ih.withUncertainty hok
  | followUp _ hclosed _ hok ih => exact ih.followUp hclosed hok

/-- Every handoff is well formed, whatever built it. A follow-up appends the challenged event to the
sources included again, and to record an omission or a marker that is recorded already changes
nothing. -/
theorem built_wellFormed (B : Boundary) (handoff : Handoff)
    (hbuilt : Built B (fun _ _ _ ↦ True) handoff) :
    handoff.WellFormed B ∧
    (∀ t closed recipient challenge next,
      followUp B t handoff closed recipient challenge = .ok next →
        next.reIncluded = handoff.reIncluded ++ [⟨challenge.event, challenge⟩]) ∧
    (∀ omission ∈ handoff.omissions, ∀ reason,
      withOmission B handoff omission.event reason = .ok handoff) ∧
    ∀ note ∈ handoff.uncertainty, withUncertainty handoff note = .ok handoff := by
  have h := hbuilt.wellFormed
  refine ⟨h, fun t closed recipient challenge next hok ↦ ?_, fun omission homission reason ↦ ?_,
    fun note hnote ↦ ?_⟩
  · obtain ⟨delta, -, -, -, -, -, -, rfl⟩ := followUp_eq_ok.mp hok
    rfl
  · rw [withOmission_eq_ok, binarySearch_iff EventId.text_injective h.events.pairwise]
    exact ⟨h.apart omission homission, Or.inl ⟨⟨omission, homission, rfl⟩, rfl⟩⟩
  · exact h.withUncertainty_of_mem hnote

section Golden

open Reference Golden

/-- The delta that carries a stored event of the fixture alone to a recipient that knows nothing. -/
def goldenDelta (e : StoredEvent Golden.B) : Delta :=
  ⟨Golden.context, none, [], [], [referenceOf e], payloadBytes e, .default⟩

theorem golden_payload {e : StoredEvent Golden.B} : payloadBytes e ≤ MAX_DELTA_BYTES := by
  obtain ⟨-, -, -, -, -, hpayload, -⟩ := EventBodyV1.validate_eq_ok.mp e.valid
  exact hpayload.trans (by decide)

theorem computeDelta_golden {t : Tables} {e : StoredEvent Golden.B} {selected added : List EventId}
    {total : ℕ} : computeDelta Golden.B t
      ⟨Golden.context, [referenceOf e], selected, added, total, .default⟩
      (.coldStart Golden.context) = .ok (goldenDelta e) := by
  have hone : ([referenceOf e] : List SourceReference).length ≤ MAX_DELTA_EVENTS := by
    rw [List.length_singleton]
    decide
  have hsum : ([referenceOf e].map SourceReference.payloadBytes).sum = payloadBytes e := by
    rw [List.map_singleton, List.sum_singleton]
    rfl
  rw [goldenDelta, ← hsum]
  exact computeDelta_coldStart (c := ⟨Golden.context, [referenceOf e], selected, added, total,
    .default⟩) hone (hsum.trans_le golden_payload)

/-- Every kind of the fixture is critical. -/
def goldenPolicy : CriticalPolicy where
  kinds := ["agent.request", "context.genesis"]
  canonical := canonical_iff_pairwise.mpr (by decide)
  bounded := by decide
  named := by decide

theorem golden_critical {e : StoredEvent Golden.B} (he : e ∈ advanced.events) :
    e.context = Golden.context ∧ goldenPolicy.isCritical e.kind = true := by
  rcases List.mem_cons.mp he with rfl | he
  · exact ⟨rfl, rfl⟩
  · rw [List.mem_singleton.mp he]
    exact ⟨rfl, rfl⟩

/-- An event of the fixture, covered alone. -/
theorem closes_golden {e : StoredEvent Golden.B} (he : e ∈ advanced.events) :
    Closes Golden.B ⟨Golden.context, [referenceOf e], [], [e.id], payloadBytes e, .default⟩ := by
  obtain ⟨hcontext, hkind⟩ := golden_critical he
  refine ⟨advanced.tables, advanced_reachable, Golden.context, [], [e.id], goldenPolicy, .default,
    ?_⟩
  rw [← hcontext]
  exact closeSelection_nil advanced_wellFormed he hkind rfl

/-- An event of the fixture is handed to a recipient that knows nothing, and another event is listed
as left out. -/
theorem built_golden {permits : Handoff → ClosedSelection → RecipientState → Prop}
    {e f : StoredEvent Golden.B} (he : e ∈ advanced.events) (hne : f.id ≠ e.id) :
    Built Golden.B permits ⟨goldenDelta e, [⟨f.id, .deliberate⟩], [], []⟩ := by
  have hbuilt : Built Golden.B permits ⟨goldenDelta e, [], [], []⟩ :=
    .fromDelta (closes_golden he) (computeDelta_golden (t := advanced.tables))
      (fromDelta_eq_ok.mpr ⟨fun _ hhead ↦ absurd hhead (Option.not_mem_none _), rfl⟩)
  suffices homitted : withOmission Golden.B ⟨goldenDelta e, [], [], []⟩ f.id .deliberate =
      .ok ⟨goldenDelta e, [⟨f.id, .deliberate⟩], [], []⟩ from .withOmission hbuilt homitted
  rw [withOmission_eq_ok,
    binarySearch_iff EventId.text_injective hbuilt.wellFormed.events.pairwise]
  refine ⟨fun hmem ↦ hne (List.mem_singleton.mp hmem), Or.inr ⟨?_, ?_, ?_⟩⟩
  · rintro ⟨omission, hmem, -⟩
    exact absurd hmem List.not_mem_nil
  · show 0 < MAX_OMISSIONS
    decide
  · rw [List.nil_append, sort_eq_self (canonical_singleton _ _)]

/-- The request, with its genesis listed as deliberately left out. -/
theorem built_wellFormed_advanced : ∃ handoff : Handoff,
    handoff.omissions = [⟨first.id, .deliberate⟩] ∧ handoff.WellFormed Golden.B ∧
      withOmission Golden.B handoff first.id .notSelected = .ok handoff := by
  obtain ⟨hwell, -, hsame, -⟩ :=
    built_wellFormed Golden.B _ (built_golden second_stored first_ne_second)
  exact ⟨_, rfl, hwell, hsame _ (List.mem_singleton_self _) .notSelected⟩

end Golden

end Handoff

end ContextMesh.Delivery
