import ContextMesh.Delta.Critical
import ContextMesh.Evaluation.Sufficiency
import ContextMesh.Selection.Baseline

/-!
The minimality claim. A selection is removal-minimal when it is sufficient and no selected source
can be left out: without it, the other sources and the events added for critical coverage are not
sufficient. The check closes the other sources alone, without the added events, and never asks
whether the selection itself is sufficient.
-/

set_option autoImplicit false
set_option relaxedAutoImplicit false

namespace ContextMesh.Evaluation

open Checked Ordered Contract Relation Store Ledger ContextMesh.Delta Delivery Selection

/-- A recorded selection metric: selected count and exported bytes against the budget the selection
was computed under. -/
structure SelectionMetric where
  selectedEvents : ℕ
  exportedBytes : ℕ
  maxSelectedEvents : ℕ
  maxExportedBytes : ℕ
  deriving DecidableEq

/-- Records the metric from a closed selection and its budget. -/
def SelectionMetric.record (closed : ClosedSelection) (budget : SelectionBudget) :
    SelectionMetric :=
  ⟨closed.selected.length, closed.totalBytes, budget.maxSelectedEvents, budget.maxExportedBytes⟩

structure MinimalityClaim where
  minimal : Bool
  metric : SelectionMetric
  basis : ClaimBasis
  deriving DecidableEq

/-- The policy under which the check closes: a kind that no chain contains. -/
def noAddPolicy : CriticalPolicy where
  kinds := ["ob10.no-critical-kind"]
  canonical := canonical_singleton _ _
  bounded := by decide
  named := by decide

theorem noAddPolicy_new : CriticalPolicy.new ["ob10.no-critical-kind"] = .ok noAddPolicy := rfl

/-- The selected sources other than the removed one. -/
def others (closed : ClosedSelection) (removed : EventId) : List EventId :=
  closed.selected.filter fun event ↦ event ≠ removed

theorem mem_others {closed : ClosedSelection} {removed id : EventId} :
    id ∈ others closed removed ↔ id ∈ closed.selected ∧ id ≠ removed := by
  rw [others, List.mem_filter, decide_eq_true_eq]

variable (B : Boundary)

/-- Whether every listed source is load-bearing: the first one without which the others are
sufficient ends the check. -/
def loadBearing (t : Tables) (context : ContextId) (genesis : EventId) (critical : List EventId)
    (closed : ClosedSelection) (limits : ClosureLimits) : List EventId → Except ClaimError Bool
  | [] => .ok true
  | removed :: rest => do
    let reduced := others closed removed
    let reducedClosed ← (closeSelection B t context reduced reduced noAddPolicy limits).mapError
      .closure
    let claim ← checkSufficiency B t context genesis critical reducedClosed limits
    if claim.sufficient then .ok false
    else loadBearing t context genesis critical closed limits rest

/-- Checks removal-minimality of a selection for a recipient at a head. -/
def checkMinimality (t : Tables) (context : ContextId) (genesis : EventId)
    (critical : List EventId) (closed : ClosedSelection) (budget : SelectionBudget)
    (limits : ClosureLimits) : Except ClaimError MinimalityClaim := do
  let minimal ← loadBearing B t context genesis critical closed limits closed.selected
  .ok ⟨minimal, .record closed budget, .metric⟩

/-! ### What is covered without a source -/

/-- Every critical event is covered, and none of them is the head or an ancestor of it. -/
def Sufficient (t : Tables) (head : EventId) (critical : List EventId)
    (covered : EventId → Prop) : Prop :=
  ∀ id ∈ critical, covered id ∧ ¬ ReflTransGen (t.Parent B) head id

/-- The references of a selection. -/
def Covered (closed : ClosedSelection) (id : EventId) : Prop :=
  id ∈ closed.references.map SourceReference.event

/-- The ancestry of the selected sources other than the removed one. -/
def LeftAlone (t : Tables) (closed : ClosedSelection) (removed id : EventId) : Prop :=
  ∃ head ∈ others closed removed, ReflTransGen (t.Parent B) head id

/-- The ancestry of the other sources together with the events added for critical coverage. -/
def LeftCovered (t : Tables) (closed : ClosedSelection) (removed id : EventId) : Prop :=
  LeftAlone B t closed removed id ∨ id ∈ closed.addedCritical

/-- The selection is sufficient, and without any one selected source it is not. -/
structure RemovalMinimal (t : Tables) (head : EventId) (critical : List EventId)
    (closed : ClosedSelection) : Prop where
  sufficient : Sufficient B t head critical (Covered closed)
  loadBearing : ∀ removed ∈ closed.selected,
    ¬ Sufficient B t head critical (LeftCovered B t closed removed)

variable {B} {t : Tables} {context : ContextId} {head : EventId} {critical : List EventId}
  {closed : ClosedSelection} {limits : ClosureLimits}

/-- What covers more is sufficient where what covers less is. -/
theorem Sufficient.mono {covered covered' : EventId → Prop}
    (hmore : ∀ id, covered id → covered' id) (h : Sufficient B t head critical covered) :
    Sufficient B t head critical covered' :=
  fun id hid ↦ (h id hid).imp_left (hmore id)

/-- A closed selection keeps its sources, in order and once. -/
theorem closeSelection_selected {selected candidates : List EventId} {policy : CriticalPolicy}
    (hok : closeSelection B t context selected candidates policy limits = .ok closed) :
    closed.selected = normalize (EventId.text B) selected := by
  obtain ⟨checked, -, hok⟩ := bind_eq_ok.mp hok
  obtain ⟨-, hok⟩ := unit_bind_eq_ok.mp hok
  obtain ⟨nodes, -, hok⟩ := bind_eq_ok.mp hok
  obtain ⟨report, -, hok⟩ := bind_eq_ok.mp hok
  obtain ⟨coverage, -, hok⟩ := bind_eq_ok.mp hok
  obtain ⟨exported, -, hok⟩ := bind_eq_ok.mp hok
  rw [Except.ok.injEq] at hok
  rw [← hok]

/-- A closed selection covers the ancestry of its sources and the critical candidates. -/
theorem covered_iff (hreachable : Reachable B t) {selected candidates : List EventId}
    {policy : CriticalPolicy}
    (hok : closeSelection B t context selected candidates policy limits = .ok closed)
    (id : EventId) : Covered closed id ↔
      (∃ source ∈ selected, ReflTransGen (t.Parent B) source id) ∨
        id ∈ candidates ∧ Critical B t context policy id := by
  obtain ⟨L, h, rfl⟩ := exists_of_reachable hreachable
  obtain ⟨es, hreferences, -, -, -, hmem, -⟩ := closeSelection_eq_ok h hok
  rw [← below_tables, ← critical_tables, ← hmem, Covered, hreferences, map_event_referenceOf]

/-- A verdict on a closed selection judges what the selection covers. -/
theorem verdict_iff (hreachable : Reachable B t) (hcloses : Handoff.Closes B closed)
    {verdict : SufficiencyClaim}
    (hverdict : checkSufficiency B t context head critical closed limits = .ok verdict) :
    verdict.sufficient = true ↔ Sufficient B t head critical (Covered closed) :=
  sufficient_iff hreachable hcloses hverdict

/-- The verdict on the other sources, closed with themselves as candidates, judges their ancestry
alone. -/
theorem verdict_alone (hreachable : Reachable B t) {removed : EventId}
    {reduced : ClosedSelection}
    (hreduced : closeSelection B t context (others closed removed) (others closed removed)
      noAddPolicy limits = .ok reduced)
    {verdict : SufficiencyClaim}
    (hverdict : checkSufficiency B t context head critical reduced limits = .ok verdict) :
    verdict.sufficient = true ↔ Sufficient B t head critical (LeftAlone B t closed removed) := by
  rw [verdict_iff hreachable ⟨t, hreachable, _, _, _, _, _, hreduced⟩ hverdict]
  have hsame : ∀ id, Covered reduced id ↔ LeftAlone B t closed removed id := fun id ↦ by
    rw [covered_iff hreachable hreduced]
    exact or_iff_left_of_imp fun hid ↦ ⟨id, hid.1, .refl⟩
  exact ⟨Sufficient.mono fun id ↦ (hsame id).mp, Sufficient.mono fun id ↦ (hsame id).mpr⟩

/-- The verdict on the other sources, closed with the added events as critical candidates, judges
their ancestry together with the added events. -/
theorem verdict_covered (hreachable : Reachable B t) {removed : EventId}
    {policy : CriticalPolicy} (hadded : ∀ id ∈ closed.addedCritical, Critical B t context policy id)
    {reduced : ClosedSelection}
    (hreduced : closeSelection B t context (others closed removed) closed.addedCritical policy
      limits = .ok reduced)
    {verdict : SufficiencyClaim}
    (hverdict : checkSufficiency B t context head critical reduced limits = .ok verdict) :
    verdict.sufficient = true ↔
      Sufficient B t head critical (LeftCovered B t closed removed) := by
  rw [verdict_iff hreachable ⟨t, hreachable, _, _, _, _, _, hreduced⟩ hverdict]
  have hsame : ∀ id, Covered reduced id ↔ LeftCovered B t closed removed id := fun id ↦ by
    rw [covered_iff hreachable hreduced]
    exact or_congr_right (and_iff_left_of_imp (hadded id))
  exact ⟨Sufficient.mono fun id ↦ (hsame id).mp, Sufficient.mono fun id ↦ (hsame id).mpr⟩

/-- The check passes exactly when the ancestry of the other sources is sufficient for no listed
source. -/
theorem loadBearing_iff (hreachable : Reachable B t) {listed : List EventId} {minimal : Bool}
    (hok : loadBearing B t context head critical closed limits listed = .ok minimal) :
    minimal = true ↔
      ∀ removed ∈ listed, ¬ Sufficient B t head critical (LeftAlone B t closed removed) := by
  induction listed with
  | nil =>
    rw [loadBearing, Except.ok.injEq] at hok
    rw [← hok]
    exact iff_of_true rfl fun removed hremoved ↦ absurd hremoved List.not_mem_nil
  | cons removed rest ih =>
    rw [loadBearing] at hok
    obtain ⟨reduced, hreduced, hok⟩ := bind_eq_ok.mp hok
    obtain ⟨verdict, hverdict, hok⟩ := bind_eq_ok.mp hok
    rw [mapError_eq_ok] at hreduced
    have hjudged := verdict_alone hreachable hreduced hverdict
    rw [List.forall_mem_cons, ← hjudged]
    by_cases hsufficient : verdict.sufficient = true
    · rw [if_pos hsufficient, Except.ok.injEq] at hok
      rw [← hok]
      exact iff_of_false Bool.false_ne_true fun hall ↦ hall.1 hsufficient
    · rw [if_neg hsufficient] at hok
      rw [ih hok]
      exact (and_iff_right hsufficient).symm

/-- What the check claims: the metric, and whether every selected source is load-bearing for the
sources alone. -/
theorem checkMinimality_eq_ok (hreachable : Reachable B t) {budget : SelectionBudget}
    {claim : MinimalityClaim}
    (hok : checkMinimality B t context head critical closed budget limits = .ok claim) :
    claim.metric = .record closed budget ∧ claim.basis = .metric ∧
      (claim.minimal = true ↔ ∀ removed ∈ closed.selected,
        ¬ Sufficient B t head critical (LeftAlone B t closed removed)) := by
  obtain ⟨minimal, hminimal, hok⟩ := bind_eq_ok.mp hok
  rw [Except.ok.injEq] at hok
  subst hok
  exact ⟨rfl, rfl, loadBearing_iff hreachable hminimal⟩

/-- What is left without a source was covered with it, also on a store that has grown since the
selection was closed. -/
theorem covered_of_left {t₀ : Tables} (hreachable₀ : Reachable B t₀) (hreachable : Reachable B t)
    (hkept : ∀ row ∈ t₀.events, row ∈ t.events) {context₀ : ContextId}
    {sources candidates : List EventId} {policy : CriticalPolicy} {limits₀ : ClosureLimits}
    (hclosed : closeSelection B t₀ context₀ sources candidates policy limits₀ = .ok closed)
    {removed id : EventId} (hleft : LeftCovered B t closed removed id) : Covered closed id := by
  obtain ⟨L₀, h₀, rfl⟩ := exists_of_reachable hreachable₀
  obtain ⟨L, h, rfl⟩ := exists_of_reachable hreachable
  have hsub : ∀ e ∈ L₀.events, e ∈ L.events := fun e he ↦
    mem_tables_events.mp (hkept e.row (mem_tables_events.mpr he))
  obtain ⟨es, hreferences, -, hstored, -, hmem, -, hcritical⟩ := closeSelection_eq_ok h₀ hclosed
  rw [Covered, hreferences, map_event_referenceOf, hmem]
  rcases hleft with ⟨source, hsource, hbelow⟩ | hadded
  · have hselected : source ∈ sources := by
      have hlisted := (mem_others.mp hsource).1
      rwa [closeSelection_selected hclosed, mem_normalize] at hlisted
    obtain ⟨e, he, hid⟩ := List.mem_map.mp ((hmem source).mpr (Or.inl ⟨source, hselected, .refl⟩))
    rw [parent_tables] at hbelow
    exact Or.inl ⟨source, hselected,
      (h₀.ancestor_iff h hsub ⟨e, hstored e he, hid, rfl⟩).mp hbelow⟩
  · exact Or.inr (hcritical id hadded)

/-- When the minimality claim means removal-minimality. Let a selection have been closed on a store,
and let the check pass judgement on it, on that store as it is then or has grown since. A verdict of
sufficiency on the selection is a judgement on what the selection covers, and one on the other
sources, closed with the added events as critical candidates, is a judgement on what is left covered
without the removed source. The claim of minimality is right exactly when the selection is
sufficient and, if some source can be left out next to the added events, some source can be left out
without them. -/
theorem checkMinimality_iff (B : Boundary) (t₀ t : Tables) (hreachable₀ : Reachable B t₀)
    (hreachable : Reachable B t) (hkept : ∀ row ∈ t₀.events, row ∈ t.events)
    (context₀ : ContextId) (sources candidates : List EventId) (policy : CriticalPolicy)
    (limits₀ : ClosureLimits) (closed : ClosedSelection)
    (hclosed : closeSelection B t₀ context₀ sources candidates policy limits₀ = .ok closed)
    (context : ContextId) (head : EventId) (critical : List EventId) (budget : SelectionBudget)
    (limits : ClosureLimits) (claim : MinimalityClaim)
    (hok : checkMinimality B t context head critical closed budget limits = .ok claim) :
    (∀ verdict, checkSufficiency B t context head critical closed limits = .ok verdict →
      (verdict.sufficient = true ↔ Sufficient B t head critical (Covered closed))) ∧
    (∀ removed ∈ closed.selected, ∀ policy',
      (∀ id ∈ closed.addedCritical, Critical B t context policy' id) → ∀ reduced,
      closeSelection B t context (others closed removed) closed.addedCritical policy' limits =
        .ok reduced → ∀ verdict,
      checkSufficiency B t context head critical reduced limits = .ok verdict →
      (verdict.sufficient = true ↔
        Sufficient B t head critical (LeftCovered B t closed removed))) ∧
    ((claim.minimal = true ↔ RemovalMinimal B t head critical closed) ↔
      Sufficient B t head critical (Covered closed) ∧
      ((∃ removed ∈ closed.selected,
          Sufficient B t head critical (LeftCovered B t closed removed)) →
        ∃ removed ∈ closed.selected,
          Sufficient B t head critical (LeftAlone B t closed removed))) := by
  refine ⟨fun verdict ↦
    verdict_iff hreachable ⟨t₀, hreachable₀, _, _, _, _, _, hclosed⟩, ?_, ?_⟩
  · intro removed _ policy' hadded reduced hreduced verdict hverdict
    exact verdict_covered hreachable hadded hreduced hverdict
  obtain ⟨-, -, hminimal⟩ := checkMinimality_eq_ok hreachable hok
  -- the sources alone cover less than they do next to the added events, and that less than all
  have halone : ∀ removed, Sufficient B t head critical (LeftAlone B t closed removed) →
      Sufficient B t head critical (LeftCovered B t closed removed) := fun removed ↦
    Sufficient.mono fun id ↦ Or.inl
  have hleft : ∀ removed, Sufficient B t head critical (LeftCovered B t closed removed) →
      Sufficient B t head critical (Covered closed) := fun removed ↦
    Sufficient.mono fun id ↦ covered_of_left hreachable₀ hreachable hkept hclosed
  rw [hminimal]
  constructor
  · intro hright
    by_cases hspared : ∃ removed ∈ closed.selected,
        Sufficient B t head critical (LeftAlone B t closed removed)
    · refine ⟨?_, fun _ ↦ hspared⟩
      obtain ⟨removed, -, hsufficient⟩ := hspared
      exact hleft removed (halone removed hsufficient)
    · have hnone : RemovalMinimal B t head critical closed :=
        hright.mp fun removed hremoved hsufficient ↦ hspared ⟨removed, hremoved, hsufficient⟩
      refine ⟨hnone.sufficient, ?_⟩
      rintro ⟨removed, hremoved, hsufficient⟩
      exact absurd hsufficient (hnone.loadBearing removed hremoved)
  · rintro ⟨hsufficient, hspared⟩
    constructor
    · intro hnone
      refine ⟨hsufficient, fun removed hremoved hleftover ↦ ?_⟩
      obtain ⟨other, hother, hstill⟩ := hspared ⟨removed, hremoved, hleftover⟩
      exact hnone other hother hstill
    · intro hnone removed hremoved hstill
      exact hnone.loadBearing removed hremoved (halone removed hstill)

section Golden

open Reference Golden

/-- A single event of the fixture, closed alone. The check without it closes nothing, which lacks
the request, so it claims that the event is load-bearing. -/
theorem golden_single {e : StoredEvent Golden.B} (he : e ∈ advanced.events)
    (hcontext : e.context = Golden.context) : ∃ closed claim,
    closeSelection Golden.B advanced.tables Golden.context [e.id] [] noAddPolicy .default =
      .ok closed ∧
    checkMinimality Golden.B advanced.tables Golden.context first.id [second.id] closed .default
      .default = .ok claim ∧ claim.minimal = true := by
  have hfew : advanced.events.length ≤ 60 := by decide
  obtain ⟨closed, hclosed⟩ : ∃ closed, closeSelection Golden.B advanced.tables Golden.context
      [e.id] [] noAddPolicy .default = .ok closed := by
    refine closeSelection_succeeds advanced_wellFormed rfl (Nat.zero_le _) ?_ ?_
      (withinLimits_of_few hfew _)
    · intro head hhead
      exact ⟨e, he, (List.mem_singleton.mp hhead).symm, hcontext⟩
    · exact fun id hid ↦ absurd hid List.not_mem_nil
  have hselected : closed.selected = [e.id] := by
    rw [closeSelection_selected hclosed, normalize_eq_self (canonical_singleton _ _)]
  have hothers : others closed e.id = [] := by
    rw [others, hselected, List.filter_singleton, decide_eq_false (fun hne ↦ hne rfl)]
    rfl
  -- nothing is closed, so nothing is delivered
  obtain ⟨reduced, hreduced⟩ : ∃ reduced, closeSelection Golden.B advanced.tables Golden.context
      [] [] noAddPolicy .default = .ok reduced :=
    closeSelection_succeeds advanced_wellFormed rfl (Nat.zero_le _)
      (fun head hhead ↦ absurd hhead List.not_mem_nil)
      (fun id hid ↦ absurd hid List.not_mem_nil) (withinLimits_of_few hfew _)
  have hnothing : reduced.references = [] := by
    rw [← List.map_eq_nil_iff (f := SourceReference.event), List.eq_nil_iff_forall_not_mem]
    intro id hid
    rcases (covered_iff advanced_reachable hreduced id).mp hid with ⟨source, hsource, -⟩ | ⟨hid, -⟩
    · exact absurd hsource List.not_mem_nil
    · exact absurd hid List.not_mem_nil
  obtain ⟨recipient, hrecipient⟩ := golden_atHead first_stored rfl
  have hsame : Golden.context = reduced.context :=
    (closeSelection_canonical advanced_wellFormed.toWellKeyed hreduced).1.symm
  obtain ⟨result, hresult⟩ : ∃ result, measureAt Golden.B advanced.tables Golden.context first.id
      [second.id] reduced .default = .ok result := by
    refine measureAt_succeeds advanced_reachable hrecipient hsame ?_ ?_
    · rw [hnothing, deltaOver_delta]
      exact Nat.zero_le _
    · rw [hnothing]
      exact Nat.zero_le _
  have hverdict : checkSufficiency Golden.B advanced.tables Golden.context first.id [second.id]
      reduced .default = .ok ⟨result.completed && result.hidden.isEmpty, .b8Evaluation⟩ := by
    rw [checkSufficiency, hresult, ok_bind]
  have hinsufficient : ¬ (result.completed && result.hidden.isEmpty) = true := by
    have hiff := verdict_iff advanced_reachable
      ⟨advanced.tables, advanced_reachable, _, _, _, _, _, hreduced⟩ hverdict
    intro hsufficient
    have hcovered := (hiff.mp hsufficient second.id (List.mem_singleton_self _)).1
    rw [Covered, hnothing] at hcovered
    exact List.not_mem_nil hcovered
  refine ⟨closed, ⟨true, .record closed .default, .metric⟩, hclosed, ?_, rfl⟩
  rw [checkMinimality, hselected, loadBearing, hothers, hreduced, mapError_ok, ok_bind, hverdict,
    ok_bind, if_neg hinsufficient, loadBearing, ok_bind]

/-- The request alone is removal-minimal for a recipient at the genesis. -/
theorem checkMinimality_iff_advanced : ∃ closed claim,
    closeSelection Golden.B advanced.tables Golden.context [second.id] [] noAddPolicy .default =
      .ok closed ∧
    checkMinimality Golden.B advanced.tables Golden.context first.id [second.id] closed .default
      .default = .ok claim ∧
    ((claim.minimal = true ↔
        RemovalMinimal Golden.B advanced.tables first.id [second.id] closed) ↔
      Sufficient Golden.B advanced.tables first.id [second.id] (Covered closed) ∧
      ((∃ removed ∈ closed.selected, Sufficient Golden.B advanced.tables first.id [second.id]
          (LeftCovered Golden.B advanced.tables closed removed)) →
        ∃ removed ∈ closed.selected, Sufficient Golden.B advanced.tables first.id [second.id]
          (LeftAlone Golden.B advanced.tables closed removed))) := by
  obtain ⟨closed, claim, hclosed, hok, -⟩ := golden_single second_stored rfl
  exact ⟨closed, claim, hclosed, hok, (checkMinimality_iff Golden.B advanced.tables
    advanced.tables advanced_reachable advanced_reachable (fun row hrow ↦ hrow) Golden.context
    [second.id] [] noAddPolicy .default closed hclosed Golden.context first.id [second.id] .default
    .default claim hok).2.2⟩

/-- The genesis alone is claimed to be minimal for a task that needs the request, which it does not
cover. -/
theorem checkMinimality_insufficient : Reachable Golden.B advanced.tables ∧ ∃ closed claim,
    closeSelection Golden.B advanced.tables Golden.context [first.id] [] noAddPolicy .default =
      .ok closed ∧
    checkMinimality Golden.B advanced.tables Golden.context first.id [second.id] closed .default
      .default = .ok claim ∧ claim.minimal = true ∧
    ¬ RemovalMinimal Golden.B advanced.tables first.id [second.id] closed := by
  obtain ⟨closed, claim, hclosed, hok, hminimal⟩ := golden_single first_stored rfl
  refine ⟨advanced_reachable, closed, claim, hclosed, hok, hminimal, fun hright ↦ ?_⟩
  have hcovered := (hright.sufficient second.id (List.mem_singleton_self _)).1
  rw [covered_iff advanced_reachable hclosed, ← below_tables] at hcovered
  rcases hcovered with hbelow | ⟨hcandidate, -⟩
  · exact first_ne_second ((below_genesis second.id).mp hbelow).symm
  · exact List.not_mem_nil hcandidate

end Golden

end ContextMesh.Evaluation
