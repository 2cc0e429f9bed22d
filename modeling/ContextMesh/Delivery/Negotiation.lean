import ContextMesh.Delivery.Handoff

/-!
Handoff negotiation over a chain of follow-ups. A follow-up computes its delta anew from the
selection it is given, and takes no account of what the handoff before it carried: an event that the
new selection leaves out is neither carried nor listed any more. Nothing is hidden exactly when the
selection keeps what the handoff carried.
-/

set_option autoImplicit false
set_option relaxedAutoImplicit false

namespace ContextMesh.Delivery.Handoff

open Checked Ordered Contract Store Ledger ContextMesh.Delta

variable {B : Boundary} {t : Tables} {handoff next : Handoff} {closed : ClosedSelection}
  {recipient : RecipientState} {challenge : OmissionChallenge}

/-- The selection keeps what the handoff carries, unless the recipient knows it, and keeps what it
included again, which the recipient must not know. -/
structure Keeps (handoff : Handoff) (closed : ClosedSelection) (recipient : RecipientState) :
    Prop where
  carried : ∀ id ∈ handoff.events,
    id ∈ closed.references.map SourceReference.event ∨ id ∈ recipient.closure
  included : ∀ entry ∈ handoff.reIncluded,
    entry.event ∈ closed.references.map SourceReference.event ∧
      entry.event ∉ recipient.closure

/-- Every event that the first handoff carries or lists as omitted is carried by the next one,
listed by it, or known to its recipient. -/
def HidesNothing (handoff next : Handoff) : Prop :=
  ∀ id, id ∈ handoff.events ∨ id ∈ handoff.omissions.map Omission.event →
    id ∈ next.events ∨ id ∈ next.omissions.map Omission.event ∨ id ∈ next.delta.recipientClosure

/-- Every event recorded as included again is carried. -/
def Includes (handoff : Handoff) : Prop :=
  ∀ entry ∈ handoff.reIncluded, entry.event ∈ handoff.events

/-- A follow-up carries the selected events outside the history of the recipient, and lists the
omissions that it does not carry. -/
theorem mem_followUp (hclosed : Closes B closed)
    (hok : followUp B t handoff closed recipient challenge = .ok next) :
    (∀ id, id ∈ next.events ↔
      id ∈ closed.references.map SourceReference.event ∧ id ∉ recipient.closure) ∧
    (∀ id, id ∈ next.omissions.map Omission.event ↔
      id ∈ handoff.omissions.map Omission.event ∧ id ∉ next.events) ∧
    next.delta.recipientClosure = recipient.closure ∧
    challenge.event ∈ next.events ∧
    next.reIncluded = handoff.reIncluded ++ [⟨challenge.event, challenge⟩] := by
  obtain ⟨delta, -, -, -, hdelta, hlands, -, rfl⟩ := followUp_eq_ok.mp hok
  have hfinds (id : EventId) :
      binarySearch (EventId.text B) delta.events (id.text B) = true ↔ id ∈ delta.events :=
    binarySearch_iff EventId.text_injective (delta_canonical hclosed hdelta).pairwise
  refine ⟨fun id ↦ ?_, fun id ↦ ?_, ?_, (hfinds challenge.event).mp hlands, rfl⟩
  · obtain ⟨-, -, -, -, rfl⟩ := computeDelta_eq_ok.mp hdelta
    show id ∈ (lacking recipient.closure closed.references).map SourceReference.event ↔ _
    rw [lacking, mem_map_filter (p := fun id ↦ decide (id ∉ recipient.closure)), decide_eq_true_eq]
  · simp only [List.mem_map, List.mem_filter, decide_eq_true_eq, hfinds]
    constructor
    · rintro ⟨omission, ⟨homission, houtside⟩, rfl⟩
      exact ⟨⟨omission, homission, rfl⟩, houtside⟩
    · rintro ⟨⟨omission, homission, rfl⟩, houtside⟩
      exact ⟨omission, ⟨homission, houtside⟩, rfl⟩
  · obtain ⟨-, -, -, -, rfl⟩ := computeDelta_eq_ok.mp hdelta
    rfl

/-- A listed omission is never hidden: it is carried or it stays listed. -/
theorem listed_followUp (hclosed : Closes B closed)
    (hok : followUp B t handoff closed recipient challenge = .ok next) {id : EventId}
    (hlisted : id ∈ handoff.omissions.map Omission.event) :
    id ∈ next.events ∨ id ∈ next.omissions.map Omission.event := by
  obtain ⟨-, homissions, -⟩ := mem_followUp hclosed hok
  by_cases hcarried : id ∈ next.events
  · exact Or.inl hcarried
  · exact Or.inr ((homissions id).mpr ⟨hlisted, hcarried⟩)

/-- A follow-up to a well formed handoff hides nothing exactly when the selection keeps what the
handoff carries. -/
theorem hidesNothing_iff (h : handoff.WellFormed B) (hclosed : Closes B closed)
    (hok : followUp B t handoff closed recipient challenge = .ok next) :
    HidesNothing handoff next ↔ ∀ id ∈ handoff.events,
      id ∈ closed.references.map SourceReference.event ∨ id ∈ recipient.closure := by
  obtain ⟨hevents, homissions, hclosure, -⟩ := mem_followUp hclosed hok
  constructor
  · intro hnothing id hid
    rcases hnothing id (Or.inl hid) with hcarried | hlisted | hknown
    · exact Or.inl ((hevents id).mp hcarried).1
    · -- what the handoff carries is not listed by it, and a follow-up lists nothing new
      obtain ⟨omission, homission, rfl⟩ := List.mem_map.mp ((homissions id).mp hlisted).1
      exact absurd hid (h.apart omission homission)
    · exact Or.inr (hclosure ▸ hknown)
  · rintro hkeeps id (hid | hid)
    · by_cases hknown : id ∈ recipient.closure
      · exact Or.inr (Or.inr (hclosure.symm ▸ hknown))
      · have hselected := (hkeeps id hid).resolve_right hknown
        exact Or.inl ((hevents id).mpr ⟨hselected, hknown⟩)
    · exact (listed_followUp hclosed hok hid).imp_right Or.inl

/-- A follow-up carries everything recorded as included again exactly when the selection keeps what
was included before. -/
theorem includes_iff (hclosed : Closes B closed)
    (hok : followUp B t handoff closed recipient challenge = .ok next) :
    Includes next ↔ ∀ entry ∈ handoff.reIncluded,
      entry.event ∈ closed.references.map SourceReference.event ∧
        entry.event ∉ recipient.closure := by
  obtain ⟨hevents, -, -, hlands, hincluded⟩ := mem_followUp hclosed hok
  unfold Includes
  simp only [hincluded, List.forall_mem_append, List.forall_mem_singleton, hevents]
  exact and_iff_left ((hevents challenge.event).mp hlands)

/-- What a chain of keeping follow-ups included again is carried at its end. -/
theorem Built.includes (hbuilt : Built B Keeps handoff) : Includes handoff := by
  induction hbuilt with
  | fromDelta _ _ hok =>
    obtain ⟨-, rfl⟩ := fromDelta_eq_ok.mp hok
    exact fun entry hentry ↦ absurd hentry List.not_mem_nil
  | withOmission _ hok ih =>
    obtain ⟨-, ⟨-, rfl⟩ | ⟨-, -, rfl⟩⟩ := withOmission_eq_ok.mp hok
    · exact ih
    · exact ih
  | withUncertainty _ hok ih =>
    obtain ⟨-, -, rfl⟩ := withUncertainty_eq_ok.mp hok
    exact ih
  | followUp _ hclosed hkeeps hok _ => exact (includes_iff hclosed hok).mpr hkeeps.included

/-- Along a chain of follow-ups whose selections keep what the handoffs carried, every event
recorded as included again is carried. The next follow-up hides nothing and carries everything
included again exactly when its selection keeps what the handoff carries. -/
theorem followUps_hide_nothing_iff (B : Boundary) (handoff : Handoff)
    (hbuilt : Built B Keeps handoff) :
    Includes handoff ∧
    ∀ (t : Tables) (closed : ClosedSelection) (recipient : RecipientState)
      (challenge : OmissionChallenge) (next : Handoff), Closes B closed →
      followUp B t handoff closed recipient challenge = .ok next →
        (HidesNothing handoff next ∧ Includes next ↔ Keeps handoff closed recipient) := by
  refine ⟨hbuilt.includes, fun t closed recipient challenge next hclosed hok ↦ ?_⟩
  rw [hidesNothing_iff hbuilt.wellFormed hclosed hok, includes_iff hclosed hok]
  exact ⟨fun ⟨hcarried, hincluded⟩ ↦ ⟨hcarried, hincluded⟩,
    fun hkeeps ↦ ⟨hkeeps.carried, hkeeps.included⟩⟩

section Golden

open Reference Golden

/-- A follow-up for a recipient that knows nothing carries the whole selection. -/
theorem followUp_coldStart (t : Tables) (handoff : Handoff) (challenge : OmissionChallenge)
    (hcold : handoff.delta.recipientHead = none) (hclosed : Closes B closed)
    (hlisted : ∃ omission ∈ handoff.omissions, omission.event = challenge.event)
    (hselected : challenge.event ∈ closed.references.map SourceReference.event)
    (hcount : closed.references.length ≤ MAX_DELTA_EVENTS)
    (hbytes : (closed.references.map SourceReference.payloadBytes).sum ≤ MAX_DELTA_BYTES) :
    ∃ next, followUp B t handoff closed (.coldStart closed.context) challenge = .ok next ∧
      next.events = closed.references.map SourceReference.event := by
  have hdelta := computeDelta_coldStart (B := B) (t := t) hcount hbytes
  have hnone : ∀ head, head ∉ handoff.delta.recipientHead := fun head ↦
    hcold ▸ Option.not_mem_none head
  refine ⟨_, followUp_eq_ok.mpr ⟨_, ?_, hlisted, hselected, hdelta, ?_, ?_, rfl⟩, rfl⟩
  · exact verifyValid_eq_ok.mpr ⟨fun head hhead ↦ absurd hhead (hnone head), hcold⟩
  · exact (binarySearch_iff EventId.text_injective hclosed.canonical.pairwise).mpr hselected
  · exact fun head hhead ↦ absurd hhead (Option.not_mem_none head)

/-- The ancestry of the request, closed and small enough for a delta. -/
theorem closes_ancestry : ∃ c, Closes Golden.B c ∧ c.context = Golden.context ∧
    first.id ∈ c.references.map SourceReference.event ∧
    second.id ∈ c.references.map SourceReference.event ∧
    c.references.length ≤ MAX_DELTA_EVENTS ∧
    (c.references.map SourceReference.payloadBytes).sum ≤ MAX_DELTA_BYTES := by
  have hwithin : WithinLimits Golden.B advanced.tables .default (advanced.Below [second.id]) :=
    withinLimits_of_few (by decide) _
  have hheld : ∀ head ∈ [second.id], advanced.Holds Golden.context head := fun head hhead ↦
    ⟨second, second_stored, (List.mem_singleton.mp hhead).symm, rfl⟩
  obtain ⟨c, hc⟩ : ∃ c, closeSelection Golden.B advanced.tables Golden.context [second.id] []
      goldenPolicy .default = .ok c :=
    closeSelection_succeeds advanced_wellFormed rfl (Nat.zero_le _) hheld
      (fun id hid ↦ absurd hid List.not_mem_nil) hwithin
  obtain ⟨es, href, -, hstored, hnodup, hmem, -, -⟩ := closeSelection_eq_ok advanced_wellFormed hc
  have hids : c.references.map SourceReference.event = es.map StoredEvent.id := by
    rw [href, map_event_referenceOf]
  have hbytes : c.references.map SourceReference.payloadBytes = es.map payloadBytes := by
    rw [href, List.map_map]
    rfl
  obtain ⟨hcount, hsum⟩ := hwithin es hnodup fun e he ↦ by
    refine ⟨mem_tables_events.mpr (hstored e he), ?_⟩
    exact ((hmem e.id).mp (List.mem_map_of_mem he)).resolve_right
      fun hnone ↦ absurd hnone.1 List.not_mem_nil
  have hbelow : ∀ id, advanced.Ancestor second.id id →
      id ∈ c.references.map SourceReference.event := fun id hid ↦ by
    rw [hids, hmem]
    exact Or.inl ⟨second.id, List.mem_singleton_self _, hid⟩
  refine ⟨c, ⟨advanced.tables, advanced_reachable, _, _, _, _, _, hc⟩,
    (closeSelection_canonical advanced_wellFormed.toWellKeyed hc).1, hbelow first.id ?_,
    hbelow second.id .refl, ?_, hbytes ▸ hsum⟩
  · exact .single ⟨second, second_stored, rfl, second_parents ▸ List.mem_singleton_self _⟩
  · rw [href, List.length_map]
    exact hcount

/-- The genesis is left out, challenged and included again beside the request. -/
theorem followUps_hide_nothing_advanced : ∃ handoff next : Handoff,
    Built Golden.B Keeps handoff ∧ HidesNothing handoff next ∧ Includes next ∧
      first.id ∉ handoff.events ∧ first.id ∈ next.events := by
  obtain ⟨c, hclosed, hcontext, hfirst, hsecond, hcount, hbytes⟩ := closes_ancestry
  have hbuilt : Built Golden.B Keeps ⟨goldenDelta second, [⟨first.id, .deliberate⟩], [], []⟩ :=
    built_golden second_stored first_ne_second
  obtain ⟨next, hok, hevents⟩ := followUp_coldStart advanced.tables
    ⟨goldenDelta second, [⟨first.id, .deliberate⟩], [], []⟩ ⟨first.id, "where does it start?"⟩
    rfl hclosed ⟨_, List.mem_singleton_self _, rfl⟩ hfirst hcount hbytes
  obtain ⟨hnothing, hincludes⟩ :=
    ((followUps_hide_nothing_iff Golden.B _ hbuilt).2 _ _ _ _ _ hclosed hok).mpr
      { carried := fun id hid ↦ Or.inl (List.mem_singleton.mp hid ▸ hsecond)
        included := fun entry hentry ↦ absurd hentry List.not_mem_nil }
  exact ⟨_, next, hbuilt, hnothing, hincludes,
    fun hmem ↦ first_ne_second (List.mem_singleton.mp hmem), hevents ▸ hfirst⟩

/-- A follow-up that includes the request again hides the genesis that the handoff carried. -/
theorem followUp_hides : ∃ (handoff next : Handoff) (closed : ClosedSelection)
    (challenge : OmissionChallenge), Built Golden.B (fun _ _ _ ↦ True) handoff ∧
      Closes Golden.B closed ∧
      handoff.challenge second.id "is this all?" = .ok challenge ∧
      followUp Golden.B advanced.tables handoff closed (.coldStart Golden.context) challenge =
        .ok next ∧
      first.id ∈ handoff.events ∧ first.id ∉ next.events ∧
      first.id ∉ next.omissions.map Omission.event ∧ first.id ∉ next.delta.recipientClosure := by
  have hclosed := closes_golden second_stored
  have hbuilt : Built Golden.B (fun _ _ _ ↦ True)
      ⟨goldenDelta first, [⟨second.id, .deliberate⟩], [], []⟩ :=
    built_golden first_stored first_ne_second.symm
  obtain ⟨next, hok, hevents⟩ := followUp_coldStart advanced.tables
    ⟨goldenDelta first, [⟨second.id, .deliberate⟩], [], []⟩ ⟨second.id, "is this all?"⟩ rfl hclosed
    ⟨_, List.mem_singleton_self _, rfl⟩ (List.mem_singleton_self _)
    (by decide : 1 ≤ MAX_DELTA_EVENTS) golden_payload
  obtain ⟨-, homissions, hclosure, -⟩ := mem_followUp hclosed hok
  refine ⟨_, next, _, _, hbuilt, hclosed, ?_, hok, List.mem_singleton_self _, fun hmem ↦ ?_,
    fun hmem ↦ ?_, ?_⟩
  · rfl
  · rw [hevents] at hmem
    exact first_ne_second (List.mem_singleton.mp hmem)
  · exact first_ne_second (List.mem_singleton.mp ((homissions first.id).mp hmem).1)
  · rw [hclosure]
    exact List.not_mem_nil

end Golden

end ContextMesh.Delivery.Handoff
