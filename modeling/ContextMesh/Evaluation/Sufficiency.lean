import ContextMesh.Delivery.Handoff

/-!
The simulated recipient and the sufficiency claim. A recipient needs the critical events of a task
and looks for them in what a handoff carries; what it knows already is not carried. So a selection
is sufficient at a head exactly when it covers every critical event and none of them is an ancestor
of the head, and the further the head, the less is sufficient.
-/

set_option autoImplicit false
set_option relaxedAutoImplicit false

namespace ContextMesh.Evaluation

open Checked Ordered Contract Relation Store Ledger ContextMesh.Delta Delivery

/-- The expected outcome of one case. -/
inductive CaseExpectation
  | fails
  | passes
  deriving DecidableEq

/-- What a simulated recipient measures: the critical events it notices missing, the critical events
missing without being listed, and whether it completes the task. -/
structure CaseResult where
  noticed : List EventId
  hidden : List EventId
  completed : Bool
  deriving DecidableEq

/-- Whether a result is the expected one. -/
def CaseResult.passes (result : CaseResult) : CaseExpectation → Bool
  | .fails => !result.completed && !result.noticed.isEmpty && result.hidden.isEmpty
  | .passes => result.completed && result.noticed.isEmpty && result.hidden.isEmpty

variable (B : Boundary)

/-- Sorts one critical event into the noticed and the hidden ones, if the handoff lacks it. -/
def missing (handoff : Handoff) (lists : List EventId × List EventId) (event : EventId) :
    List EventId × List EventId :=
  if binarySearch (EventId.text B) handoff.events (event.text B) then lists
  else if handoff.omissions.any fun omission ↦ omission.event = event then
    (lists.1 ++ [event], lists.2)
  else (lists.1, lists.2 ++ [event])

/-- Measures one handoff against the critical events of a task. -/
def simulate (handoff : Handoff) (critical : List EventId) : CaseResult :=
  let lists := critical.foldl (missing B handoff) ([], [])
  ⟨lists.1, lists.2,
    critical.all fun event ↦ binarySearch (EventId.text B) handoff.events (event.text B)⟩

inductive ClaimError
  | delta (error : DeltaError)
  | handoff (error : HandoffError)
  | closure (error : ClosureError)
  | internal

/-- The recorded evidence that backs a claim. -/
inductive ClaimBasis
  | b8Evaluation
  | metric
  deriving DecidableEq

structure SufficiencyClaim where
  sufficient : Bool
  basis : ClaimBasis
  deriving DecidableEq

/-- What the simulated recipient at a head measures on the handoff that a selection delivers. -/
def measureAt (t : Tables) (context : ContextId) (head : EventId) (critical : List EventId)
    (closed : ClosedSelection) (limits : ClosureLimits) : Except ClaimError CaseResult := do
  let recipient ← (RecipientState.atHead B t context head limits).mapError .delta
  let delta ← (computeDelta B t closed recipient).mapError .delta
  let handoff ← (Handoff.fromDelta B delta).mapError .handoff
  .ok (simulate B handoff critical)

/-- Checks the sufficiency of a closed selection for a recipient at a head. -/
def checkSufficiency (t : Tables) (context : ContextId) (genesis : EventId)
    (critical : List EventId) (closed : ClosedSelection) (limits : ClosureLimits) :
    Except ClaimError SufficiencyClaim := do
  let result ← measureAt B t context genesis critical closed limits
  .ok ⟨result.completed && result.hidden.isEmpty, .b8Evaluation⟩

variable {B}

/-! ### The simulated recipient -/

/-- The critical events are sorted by what the handoff carries and what it lists. -/
theorem foldl_missing {handoff : Handoff} (h : Canonical (EventId.text B) handoff.events)
    (critical : List EventId) (lists : List EventId × List EventId) :
    critical.foldl (missing B handoff) lists =
      (lists.1 ++ critical.filter fun id ↦
          id ∉ handoff.events ∧ id ∈ handoff.omissions.map Omission.event,
        lists.2 ++ critical.filter fun id ↦
          id ∉ handoff.events ∧ id ∉ handoff.omissions.map Omission.event) := by
  induction critical generalizing lists with
  | nil => simp
  | cons id rest ih =>
    have hlisted : (handoff.omissions.any fun omission ↦ omission.event = id) = true ↔
        id ∈ handoff.omissions.map Omission.event := by
      rw [Handoff.any_omission, List.mem_map]
    rw [List.foldl_cons, ih, missing, List.filter_cons, List.filter_cons]
    by_cases hcarried : id ∈ handoff.events
    · rw [if_pos ((binarySearch_iff EventId.text_injective h.pairwise).mpr hcarried)]
      simp [hcarried]
    · rw [if_neg fun hfound ↦
        hcarried ((binarySearch_iff EventId.text_injective h.pairwise).mp hfound)]
      by_cases homitted : id ∈ handoff.omissions.map Omission.event
      · rw [if_pos (hlisted.mpr homitted)]
        simp [hcarried, homitted]
      · rw [if_neg fun hany ↦ homitted (hlisted.mp hany)]
        simp [hcarried, homitted]

/-- What a recipient measures: the critical events that the handoff lacks, listed or not, and
whether it lacks none. -/
theorem simulate_eq {handoff : Handoff} (h : Canonical (EventId.text B) handoff.events)
    (critical : List EventId) : simulate B handoff critical =
      ⟨critical.filter fun id ↦ id ∉ handoff.events ∧ id ∈ handoff.omissions.map Omission.event,
        critical.filter fun id ↦ id ∉ handoff.events ∧ id ∉ handoff.omissions.map Omission.event,
        critical.all fun id ↦ id ∈ handoff.events⟩ := by
  have hfound : ∀ id, binarySearch (EventId.text B) handoff.events (id.text B) =
      decide (id ∈ handoff.events) := fun id ↦ by
    rw [Bool.eq_iff_iff, binarySearch_iff EventId.text_injective h.pairwise, decide_eq_true_eq]
  unfold simulate
  dsimp only
  rw [foldl_missing h, List.nil_append, List.nil_append]
  simp only [hfound]

/-- A single critical event that is listed and not carried is noticed. -/
theorem simulate_listed {handoff : Handoff} (h : Canonical (EventId.text B) handoff.events)
    {id : EventId} (habsent : id ∉ handoff.events)
    (hlisted : id ∈ handoff.omissions.map Omission.event) :
    simulate B handoff [id] = ⟨[id], [], false⟩ := by
  rw [simulate_eq h]
  simp only [List.filter_cons, List.filter_nil, List.all_cons, habsent, hlisted, not_false_eq_true,
    not_true_eq_false, and_self, and_false, decide_true, decide_false, Bool.false_eq_true,
    Bool.false_and, ↓reduceIte]

/-- The task of a single critical event is completed when it is carried. -/
theorem simulate_completed {handoff : Handoff} (h : Canonical (EventId.text B) handoff.events)
    {id : EventId} : (simulate B handoff [id]).completed = true ↔ id ∈ handoff.events := by
  rw [simulate_eq h, List.all_cons, List.all_nil, Bool.and_true, decide_eq_true_eq]

/-! ### Recipients at two heads -/

section Heads

variable {t : Tables} {context : ContextId} {head : EventId} {critical : List EventId}
  {closed : ClosedSelection} {limits : ClosureLimits}

variable (B) in
/-- The selection covers the event, and the event is neither the head nor an ancestor of it. -/
def Delivers (t : Tables) (closed : ClosedSelection) (head id : EventId) : Prop :=
  id ∈ closed.references.map SourceReference.event ∧ ¬ ReflTransGen (t.Parent B) head id

/-- The further the head, the less is delivered. -/
theorem Delivers.anti {near far id : EventId} (hbelow : ReflTransGen (t.Parent B) far near)
    (h : Delivers B t closed far id) : Delivers B t closed near id :=
  ⟨h.1, fun hknown ↦ h.2 (hbelow.trans hknown)⟩

theorem delivers_iff {near far id : EventId} (hbelow : ReflTransGen (t.Parent B) far near) :
    Delivers B t closed far id ↔
      Delivers B t closed near id ∧ ¬ ReflTransGen (t.Parent B) far id :=
  ⟨fun h ↦ ⟨h.anti hbelow, h.2⟩, fun h ↦ ⟨h.1.1, h.2⟩⟩

/-- A handoff that a selection delivers at a head carries what it delivers and lists nothing. -/
theorem measureAt_eq_ok (hreachable : Reachable B t) (hclosed : Handoff.Closes B closed)
    {result : CaseResult}
    (hok : measureAt B t context head critical closed limits = .ok result) :
    (∀ id, id ∈ result.hidden ↔ id ∈ critical ∧ ¬ Delivers B t closed head id) ∧
      result.noticed = [] ∧
      (result.completed = true ↔ ∀ id ∈ critical, Delivers B t closed head id) := by
  obtain ⟨L, h, rfl⟩ := exists_of_reachable hreachable
  obtain ⟨recipient, hrecipient, hok⟩ := bind_eq_ok.mp hok
  obtain ⟨delta, hdelta, hok⟩ := bind_eq_ok.mp hok
  obtain ⟨handoff, hhandoff, hok⟩ := bind_eq_ok.mp hok
  rw [mapError_eq_ok] at hrecipient hdelta hhandoff
  obtain ⟨-, hhead, -⟩ := atHead_eq_ok h hrecipient
  have hderived : Derived B L.tables recipient := Or.inr ⟨_, _, _, hrecipient⟩
  have hevents := Handoff.delta_canonical hclosed hdelta
  have hcarried : ∀ id, id ∈ delta.events ↔ Delivers B L.tables closed head id := fun id ↦ by
    obtain ⟨-, -, -, -, rfl⟩ := computeDelta_eq_ok.mp hdelta
    show id ∈ (lacking recipient.closure closed.references).map SourceReference.event ↔ _
    rw [lacking_eq h hderived, mem_unknownTo, Delivers, Knows, hhead]
    simp
  obtain ⟨-, rfl⟩ := Handoff.fromDelta_eq_ok.mp hhandoff
  rw [Except.ok.injEq, simulate_eq hevents] at hok
  subst hok
  unfold Handoff.events
  simp only [List.map_nil, List.not_mem_nil, and_false, decide_false, List.filter_false,
    not_false_eq_true, and_true, List.mem_filter, decide_eq_true_eq, List.all_eq_true, hcarried,
    implies_true]

/-- A recipient at a head is measured when its known history is within the limits and what it lacks
is within the bounds of a delta. -/
theorem measureAt_succeeds (hreachable : Reachable B t) {recipient : RecipientState}
    (hrecipient : RecipientState.atHead B t context head limits = .ok recipient)
    (hcontext : context = closed.context)
    (hfew : (deltaOver B (closed.references.map SourceReference.event)
      recipient.closure).delta.length ≤ MAX_DELTA_EVENTS)
    (hbytes : ((lacking recipient.closure closed.references).map
      SourceReference.payloadBytes).sum ≤ MAX_DELTA_BYTES) :
    ∃ result, measureAt B t context head critical closed limits = .ok result := by
  obtain ⟨L, h, rfl⟩ := exists_of_reachable hreachable
  obtain ⟨hsame, hhead, hsorted, hmem, -⟩ := atHead_eq_ok h hrecipient
  have hderived : Derived B L.tables recipient := Or.inr ⟨_, _, _, hrecipient⟩
  have hdelta := computeDelta_eq_ok.mpr ⟨hsame.trans hcontext, fun other hother ↦
    (checkHead_eq_ok h.toWellKeyed).mpr (hcontext ▸ hsame ▸ hderived.holds h hother), hfew, hbytes,
    rfl⟩
  have hbound : ∀ other ∈ recipient.head,
      binarySearch (EventId.text B) recipient.closure (other.text B) = true := fun other hother ↦ by
    rw [hhead, Option.mem_def, Option.some.injEq] at hother
    rw [binarySearch_iff EventId.text_injective hsorted.pairwise, hmem, ← hother]
    exact ReflTransGen.refl
  rw [measureAt, hrecipient, mapError_ok, ok_bind, hdelta, mapError_ok, ok_bind,
    Handoff.fromDelta_eq_ok.mpr ⟨hbound, rfl⟩, mapError_ok, ok_bind]
  exact ⟨_, rfl⟩

/-- A selection is sufficient at a head when it delivers every critical event there. -/
theorem sufficient_iff (hreachable : Reachable B t) (hclosed : Handoff.Closes B closed)
    {claim : SufficiencyClaim}
    (hok : checkSufficiency B t context head critical closed limits = .ok claim) :
    claim.sufficient = true ↔ ∀ id ∈ critical, Delivers B t closed head id := by
  obtain ⟨result, hresult, hok⟩ := bind_eq_ok.mp hok
  obtain ⟨hhidden, -, hcompleted⟩ := measureAt_eq_ok hreachable hclosed hresult
  rw [Except.ok.injEq] at hok
  rw [← hok, Bool.and_eq_true, hcompleted, List.isEmpty_iff, List.eq_nil_iff_forall_not_mem]
  refine and_iff_left_of_imp fun hall id hid ↦ ?_
  obtain ⟨hcritical, hlacks⟩ := (hhidden id).mp hid
  exact hlacks (hall id hcritical)

/-- A recipient at a later head is measured when one at an earlier head is: it lacks less. -/
theorem measureAt_later (hreachable : Reachable B t) {near far : EventId}
    (hbelow : ReflTransGen (t.Parent B) far near) {result : CaseResult}
    (hnear : measureAt B t context near critical closed limits = .ok result)
    {recipient : RecipientState}
    (hfar : RecipientState.atHead B t context far limits = .ok recipient) :
    ∃ later, measureAt B t context far critical closed limits = .ok later := by
  obtain ⟨earlier, hearlier, hnear⟩ := bind_eq_ok.mp hnear
  obtain ⟨delta, hdelta, -⟩ := bind_eq_ok.mp hnear
  rw [mapError_eq_ok] at hearlier hdelta
  obtain ⟨hcontext, -, hfew, hbytes, -⟩ := computeDelta_eq_ok.mp hdelta
  have hkept : ∀ id, id ∉ recipient.closure → id ∉ earlier.closure := by
    obtain ⟨L, h, rfl⟩ := exists_of_reachable hreachable
    obtain ⟨-, -, -, hnearer, -⟩ := atHead_eq_ok h hearlier
    obtain ⟨-, -, -, hfurther, -⟩ := atHead_eq_ok h hfar
    intro id houtside hinside
    rw [parent_tables] at hbelow
    exact houtside ((hfurther id).mpr (hbelow.trans ((hnearer id).mp hinside)))
  have hlacks : (lacking recipient.closure closed.references).Sublist
      (lacking earlier.closure closed.references) :=
    List.monotone_filter_right _ fun reference houtside ↦
      decide_eq_true (hkept _ (of_decide_eq_true houtside))
  refine measureAt_succeeds hreachable hfar ?_ ?_ ?_
  · obtain ⟨L, h, rfl⟩ := exists_of_reachable hreachable
    rw [← hcontext, (atHead_eq_ok h hearlier).1]
  · refine le_trans (List.Sublist.length_le ?_) hfew
    rw [deltaOver_delta, deltaOver_delta]
    exact List.monotone_filter_right _ fun id houtside ↦
      decide_eq_true (hkept _ (of_decide_eq_true houtside))
  · exact ((hlacks.map _).sum_le_sum fun _ _ ↦ Nat.zero_le _).trans hbytes

end Heads

/-- What a recipient comes to know stops counting as delivered. Where a selection is judged at a
head, it is judged at every later head with a known history; the critical events hidden there are
those hidden before and those in that history, and the selection is sufficient there exactly when it
was before and no critical event is in that history. -/
theorem checkSufficiency_later (B : Boundary) (t : Tables) (hreachable : Reachable B t)
    (closed : ClosedSelection) (hclosed : Handoff.Closes B closed) (context : ContextId)
    (critical : List EventId) (limits : ClosureLimits) (near far : EventId)
    (hbelow : ReflTransGen (t.Parent B) far near) (claim : SufficiencyClaim)
    (hnear : checkSufficiency B t context near critical closed limits = .ok claim)
    (recipient : RecipientState)
    (hfar : RecipientState.atHead B t context far limits = .ok recipient) :
    ∃ later before after,
      checkSufficiency B t context far critical closed limits = .ok later ∧
      measureAt B t context near critical closed limits = .ok before ∧
      measureAt B t context far critical closed limits = .ok after ∧
      (∀ id, id ∈ after.hidden ↔
        id ∈ before.hidden ∨ id ∈ critical ∧ ReflTransGen (t.Parent B) far id) ∧
      (later.sufficient = true ↔ claim.sufficient = true ∧
        ∀ id ∈ critical, ¬ ReflTransGen (t.Parent B) far id) := by
  obtain ⟨before, hbefore, -⟩ := bind_eq_ok.mp hnear
  obtain ⟨after, hafter⟩ := measureAt_later hreachable hbelow hbefore hfar
  have hlater : checkSufficiency B t context far critical closed limits =
      .ok ⟨after.completed && after.hidden.isEmpty, .b8Evaluation⟩ := by
    rw [checkSufficiency, hafter, ok_bind]
  refine ⟨_, before, after, hlater, hbefore, hafter, fun id ↦ ?_, ?_⟩
  · rw [(measureAt_eq_ok hreachable hclosed hafter).1,
      (measureAt_eq_ok hreachable hclosed hbefore).1, delivers_iff hbelow, not_and_or, not_not,
      and_or_left]
  · rw [sufficient_iff hreachable hclosed hlater, sufficient_iff hreachable hclosed hnear,
      ← forall₂_and]
    exact forall₂_congr fun id _ ↦ delivers_iff hbelow

section Golden

open Reference Golden Handoff

/-- The request, covered alone. -/
def goldenClosed : ClosedSelection :=
  ⟨Golden.context, [referenceOf second], [], [second.id], payloadBytes second, .default⟩

theorem golden_closes : Closes Golden.B goldenClosed := closes_golden second_stored

theorem golden_atHead {e : StoredEvent Golden.B} (he : e ∈ advanced.events)
    (hcontext : e.context = Golden.context) : ∃ recipient,
    RecipientState.atHead Golden.B advanced.tables Golden.context e.id .default = .ok recipient :=
  atHead_succeeds advanced_wellFormed rfl ⟨e, he, rfl, hcontext⟩
    (withinLimits_of_few (by decide) (advanced.Below [e.id]))

theorem golden_below : ReflTransGen (advanced.tables.Parent Golden.B) second.id first.id := by
  rw [parent_tables]
  exact .single ⟨second, second_stored, rfl, second_parents ▸ List.mem_singleton_self _⟩

/-- The selection is sufficient for a recipient at the genesis. -/
theorem golden_sufficient : ∃ claim, checkSufficiency Golden.B advanced.tables Golden.context
    first.id [second.id] goldenClosed .default = .ok claim ∧ claim.sufficient = true := by
  obtain ⟨recipient, hrecipient⟩ := golden_atHead first_stored rfl
  have hlacks : (lacking recipient.closure goldenClosed.references).Sublist [referenceOf second] :=
    List.filter_sublist
  have hfew : (deltaOver Golden.B (goldenClosed.references.map SourceReference.event)
      recipient.closure).delta.length ≤ MAX_DELTA_EVENTS := by
    rw [deltaOver_references golden_closes.canonical, List.length_map]
    exact hlacks.length_le.trans (by decide : 1 ≤ MAX_DELTA_EVENTS)
  obtain ⟨result, hresult⟩ : ∃ result, measureAt Golden.B advanced.tables Golden.context first.id
      [second.id] goldenClosed .default = .ok result :=
    measureAt_succeeds advanced_reachable hrecipient rfl hfew
      (((hlacks.map _).sum_le_sum fun _ _ ↦ Nat.zero_le _).trans golden_payload)
  have hclaim : checkSufficiency Golden.B advanced.tables Golden.context first.id [second.id]
      goldenClosed .default =
        .ok ⟨result.completed && result.hidden.isEmpty, .b8Evaluation⟩ := by
    rw [checkSufficiency, hresult, ok_bind]
  refine ⟨_, hclaim, ?_⟩
  rw [sufficient_iff advanced_reachable golden_closes hclaim]
  intro id hid
  rw [List.mem_singleton.mp hid]
  refine ⟨List.mem_singleton_self _, fun hknown ↦ ?_⟩
  rw [parent_tables] at hknown
  rcases ReflTransGen.cases_head hknown with hsame | ⟨parent, ⟨e, he, hid, hparent⟩, -⟩
  · exact first_ne_second hsame
  · obtain rfl := advanced_wellFormed.event_eq_of_id he first_stored hid
    exact List.not_mem_nil (first_parents ▸ hparent)

/-- The request counts as delivered at the genesis; at the request itself it is known and hidden. -/
theorem checkSufficiency_later_advanced : ∃ claim recipient later,
    checkSufficiency Golden.B advanced.tables Golden.context first.id [second.id] goldenClosed
      .default = .ok claim ∧
    RecipientState.atHead Golden.B advanced.tables Golden.context second.id .default =
      .ok recipient ∧
    checkSufficiency Golden.B advanced.tables Golden.context second.id [second.id] goldenClosed
      .default = .ok later ∧
    (later.sufficient = true ↔ claim.sufficient = true ∧
      ∀ id ∈ [second.id], ¬ ReflTransGen (advanced.tables.Parent Golden.B) second.id id) := by
  obtain ⟨claim, hclaim, -⟩ := golden_sufficient
  obtain ⟨recipient, hrecipient⟩ := golden_atHead second_stored rfl
  obtain ⟨later, -, -, hlater, -, -, -, hexact⟩ := checkSufficiency_later Golden.B advanced.tables
    advanced_reachable goldenClosed golden_closes Golden.context [second.id] .default first.id
    second.id golden_below claim hclaim recipient hrecipient
  exact ⟨claim, recipient, later, hclaim, hrecipient, hlater, hexact⟩

/-- A selection that is sufficient at the genesis is not sufficient at the request. -/
theorem checkSufficiency_lost : Reachable Golden.B advanced.tables ∧
    Closes Golden.B goldenClosed ∧
    ReflTransGen (advanced.tables.Parent Golden.B) second.id first.id ∧
    ∃ claim later,
      checkSufficiency Golden.B advanced.tables Golden.context first.id [second.id] goldenClosed
        .default = .ok claim ∧ claim.sufficient = true ∧
      checkSufficiency Golden.B advanced.tables Golden.context second.id [second.id] goldenClosed
        .default = .ok later ∧ later.sufficient = false := by
  refine ⟨advanced_reachable, golden_closes, golden_below, ?_⟩
  obtain ⟨claim, hclaim, hsufficient⟩ := golden_sufficient
  obtain ⟨recipient, hrecipient⟩ := golden_atHead second_stored rfl
  obtain ⟨before, hbefore, -⟩ := bind_eq_ok.mp hclaim
  obtain ⟨after, hafter⟩ := measureAt_later advanced_reachable golden_below hbefore hrecipient
  have hlater : checkSufficiency Golden.B advanced.tables Golden.context second.id [second.id]
      goldenClosed .default =
        .ok ⟨after.completed && after.hidden.isEmpty, .b8Evaluation⟩ := by
    rw [checkSufficiency, hafter, ok_bind]
  refine ⟨claim, _, hclaim, hsufficient, hlater, ?_⟩
  rw [Bool.eq_false_iff, Ne, sufficient_iff advanced_reachable golden_closes hlater]
  intro hall
  exact (hall second.id (List.mem_singleton_self _)).2 ReflTransGen.refl

end Golden

end ContextMesh.Evaluation
