import ContextMesh.Delta.Recipient
import ContextMesh.Ledger.Runs
import ContextMesh.Ledger.Projection

/-!
Views as functions of their heads. A projection and a known history read the ancestry of their heads
and nothing else, so they do not see the order or the repeats of the heads, nor anything that was
stored before or after beside that ancestry.
-/

set_option autoImplicit false
set_option relaxedAutoImplicit false

namespace ContextMesh.Delta

open Checked Ordered Contract Relation Traversal Store Ledger

variable {B : Boundary} {L L' : Ledger B} {context : ContextId}

/-- Two ledgers have the same event wherever both store the identifier. -/
def Agree (L L' : Ledger B) : Prop :=
  ∀ e ∈ L.events, ∀ f ∈ L'.events, e.id = f.id → e = f

theorem Agree.symm (h : Agree L L') : Agree L' L :=
  fun e he f hf hid ↦ (h f hf e he hid.symm).symm

/-- Ledgers that agree and store an event look its whole ancestry up alike. -/
theorem Agree.find_eq (hagree : Agree L L') (h : L.WellFormed) (h' : L'.WellFormed)
    {head id : EventId} (hheld : L.Holds context head) (hheld' : L'.Holds context head)
    (hid : L.Ancestor head id) :
    L.find id = L'.find id := by
  have hid' : L'.Ancestor head id :=
    h'.ancestor_of_agree (fun e he f hf heq ↦
      congrArg StoredEvent.wire (hagree.symm e he f hf heq)) hheld' hid
  obtain ⟨e, he, rfl, -⟩ := h.holds_ancestor hheld hid
  obtain ⟨f, hf, hfid, -⟩ := h'.holds_ancestor hheld' hid'
  obtain rfl := hagree e he f hf hfid.symm
  rw [h.find_eq_some.mpr ⟨he, rfl⟩, h'.find_eq_some.mpr ⟨hf, rfl⟩]

/-- The projection is a function of the ancestry. -/
theorem project_agree (h : L.WellFormed) (h' : L'.WellFormed) {heads : List EventId}
    (hagree : ∀ head ∈ heads, ∀ id, L.Ancestor head id → L.find id = L'.find id)
    (limits : ProjectionLimits) :
    project B L.tables context heads limits = project B L'.tables context heads limits := by
  have hsame : ∀ id, Reached (graph L.find) (normalize (EventId.text B) heads) id →
      L.find id = L'.find id := by
    intro id hreached
    obtain ⟨head, hhead, hancestor⟩ := h.reached_iff.mp hreached
    exact hagree head (mem_normalize.mp hhead) id hancestor
  rw [project, project]
  cases hheads : normalizeHeads B heads with
  | error error => rw [error_bind, error_bind]
  | ok normalized =>
    obtain ⟨-, hnormalized⟩ := unit_bind_eq_ok.mp hheads
    rw [Except.ok.injEq] at hnormalized
    rw [ok_bind, ok_bind, ← hnormalized, projectOn_congr h.reads h'.reads hsame]

/-- Heads with the same members give the same projection. -/
theorem project_heads {heads heads' : List EventId} (hmem : ∀ id, id ∈ heads ↔ id ∈ heads')
    (hlength : heads.length ≤ MAX_PROJECTION_HEADS)
    (hlength' : heads'.length ≤ MAX_PROJECTION_HEADS) (t : Tables) (limits : ProjectionLimits) :
    project B t context heads limits = project B t context heads' limits := by
  have hnil : heads ≠ [] ↔ heads' ≠ [] := by
    simp only [Ne, List.eq_nil_iff_forall_not_mem, hmem]
  have hnormalized := normalize_congr (EventId.text_injective (B := B)) hmem
  have hheads : normalizeHeads B heads = normalizeHeads B heads' := by
    rw [normalizeHeads, normalizeHeads, hnormalized]
    by_cases hempty : heads = []
    · have hempty' : heads' = [] := by
        by_contra hne
        exact hnil.mpr hne hempty
      rw [ensure_false (fun hok ↦ hok.1 hempty), ensure_false (fun hok ↦ hok.1 hempty')]
    · rw [ensure_true ⟨hempty, hlength⟩, ensure_true ⟨hnil.mp hempty, hlength'⟩]
  rw [project, project, hheads]

/-- The known history is a function of the ancestry. -/
theorem atHead_agree (h : L.WellFormed) (h' : L'.WellFormed) {head : EventId}
    (hagree : ∀ id, L.Ancestor head id → L.find id = L'.find id) (limits : ClosureLimits) :
    RecipientState.atHead B L.tables context head limits =
      RecipientState.atHead B L'.tables context head limits := by
  have hevent : ∀ id, Reached (graph L.find) [head] id →
      Store.event B L.tables id = Store.event B L'.tables id := by
    intro id hreached
    obtain ⟨_, hhead, hancestor⟩ := h.reached_iff.mp hreached
    rw [List.mem_singleton.mp hhead] at hancestor
    rw [event_tables h.toWellKeyed, event_tables h'.toWellKeyed, hagree id hancestor]
  have hvisit : ∀ limits known id (child : Option EventId), Reached (graph L.find) [head] id →
      (historian B L.tables context limits).visit known id child =
        (historian B L'.tables context limits).visit known id child := by
    intro limits known id child hreached
    change visitKnown B L.tables context limits known id child =
      visitKnown B L'.tables context limits known id child
    rw [visitKnown, visitKnown, hevent id hreached]
  have hclosed : ∀ limits known id (child : Option EventId) known' u parents,
      Reached (graph L.find) [head] id →
        (historian B L.tables context limits).visit known id child = .ok (known', u, parents) →
          ∀ parent ∈ parents, Reached (graph L.find) [head] parent := by
    intro limits known id child known' u parents hreached hok parent hparent
    obtain ⟨-, hok⟩ := unit_bind_eq_ok.mp hok
    obtain ⟨found, hfound, hok⟩ := bind_eq_ok.mp hok
    obtain ⟨event, hevent, hok⟩ := bind_eq_ok.mp hok
    obtain ⟨-, hok⟩ := unit_bind_eq_ok.mp hok
    obtain ⟨payload, -, hok⟩ := bind_eq_ok.mp hok
    obtain ⟨-, hok⟩ := unit_bind_eq_ok.mp hok
    rw [mapError_eq_ok, event_tables h.toWellKeyed, Except.ok.injEq] at hfound
    rw [required_eq_ok, ← hfound, Option.map_eq_some_iff] at hevent
    obtain ⟨e, he, rfl⟩ := hevent
    rw [Except.ok.injEq, Prod.mk.injEq, Prod.mk.injEq] at hok
    rw [← hok.2.2] at hparent
    exact hreached.edge (edge_graph.mpr ⟨e, he, hparent⟩)
  rw [RecipientState.atHead, RecipientState.atHead, hevent head (Reached.head List.mem_cons_self)]
  cases ClosureLimits.new limits.maxEvents limits.maxExportedBytes with
  | error error => rw [Except.mapError, error_bind, error_bind]
  | ok checked =>
    have hrun : (historian B L.tables context checked).run (enters none [head]) (.start ⟨[], 0⟩) =
        (historian B L'.tables context checked).run (enters none [head]) (.start ⟨[], 0⟩) :=
      Walker.run_congr (hvisit checked) (hclosed checked) rfl fun id hid ↦ by
        have hmentioned := mentioned_enters (D := Unit) none [head] []
        rw [List.append_nil, mentioned, List.append_nil] at hmentioned
        rw [hmentioned] at hid
        exact Reached.head hid
    rw [mapError_ok, ok_bind, ok_bind, hrun]

/-- A head with a known history is stored in its context. -/
theorem holds_of_atHead (h : L.WellFormed) {head : EventId} {limits : ClosureLimits}
    {known : RecipientState}
    (hok : RecipientState.atHead B L.tables context head limits = .ok known) :
    L.Holds context head := by
  obtain ⟨checked, -, hok⟩ := bind_eq_ok.mp hok
  obtain ⟨found, hfound, hok⟩ := bind_eq_ok.mp hok
  obtain ⟨event, hevent, hok⟩ := bind_eq_ok.mp hok
  obtain ⟨hcontext, -⟩ := unit_bind_eq_ok.mp hok
  rw [mapError_eq_ok, event_tables h.toWellKeyed, Except.ok.injEq] at hfound
  rw [required_eq_ok, ← hfound, Option.map_eq_some_iff] at hevent
  obtain ⟨e, he, rfl⟩ := hevent
  obtain ⟨hmem, hid⟩ := h.find_eq_some.mp he
  exact ⟨e, hmem, hid, ensure_eq_ok.mp hcontext⟩

/-- The heads of a projection are stored in its context. -/
theorem holds_of_project (h : L.WellFormed) {heads : List EventId} {limits : ProjectionLimits}
    {projection : Projection}
    (hok : project B L.tables context heads limits = .ok projection) :
    ∀ head ∈ heads, L.Holds context head := by
  obtain ⟨-, hok⟩ := unit_bind_eq_ok.mp hok
  obtain ⟨normalized, hnormalized, hok⟩ := bind_eq_ok.mp hok
  obtain ⟨⟨events, bytes⟩, hevents, -⟩ := bind_eq_ok.mp hok
  obtain ⟨-, hnormalized⟩ := unit_bind_eq_ok.mp hnormalized
  rw [Except.ok.injEq] at hnormalized
  intro head hhead
  exact (projectOn_tables h hevents).1 head (hnormalized ▸ mem_normalize.mpr hhead)

/-- Views depend on the heads alone. A projection does not see the order or the repeats of its
heads; no later operation changes a view that succeeded; and two reachable stores that hold the
heads, with the same wire for the same identifier, give the same views whatever their histories. -/
theorem views_depend_on_heads (B : Boundary) (t : Tables) (hreachable : Reachable B t)
    (context : ContextId) (heads : List EventId) (limits : ProjectionLimits)
    (bounds : ClosureLimits) :
    (∀ heads', (∀ id, id ∈ heads ↔ id ∈ heads') → heads.length ≤ MAX_PROJECTION_HEADS →
      heads'.length ≤ MAX_PROJECTION_HEADS →
        project B t context heads limits = project B t context heads' limits) ∧
    (∀ t', Run B t t' →
      (∀ projection, project B t context heads limits = .ok projection →
        project B t' context heads limits = .ok projection) ∧
      ∀ head known, RecipientState.atHead B t context head bounds = .ok known →
        RecipientState.atHead B t' context head bounds = .ok known) ∧
    ∀ t', Reachable B t' →
      (∀ e f : StoredEvent B, e.row ∈ t.events → f.row ∈ t'.events → e.id = f.id →
        e.wire = f.wire) →
      (∀ head ∈ heads, t.Holds B context head ∧ t'.Holds B context head) →
        project B t context heads limits = project B t' context heads limits ∧
        ∀ head ∈ heads, RecipientState.atHead B t context head bounds =
          RecipientState.atHead B t' context head bounds := by
  obtain ⟨L, h, rfl⟩ := exists_of_reachable hreachable
  refine ⟨fun heads' hmem hlength hlength' ↦ project_heads hmem hlength hlength' _ _, ?_, ?_⟩
  · intro t' hrun
    obtain ⟨L', rfl, hsteps⟩ := run_steps h hrun
    have h' := hsteps.wellFormed h
    have hagree : Agree L L' := fun e he f hf hid ↦
      h'.event_eq_of_id (hsteps.events_subset e he) hf hid
    have hfind {head : EventId} (hheld : L.Holds context head) (id : EventId)
        (hid : L.Ancestor head id) : L.find id = L'.find id :=
      hagree.find_eq h h' hheld (hheld.mono hsteps.events_subset) hid
    refine ⟨fun projection hok ↦ ?_, fun head known hok ↦ ?_⟩
    · have hheld := holds_of_project h hok
      rw [← project_agree h h' fun head hhead ↦ hfind (hheld head hhead)]
      exact hok
    · rw [← atHead_agree h h' (hfind (holds_of_atHead h hok))]
      exact hok
  · intro t' hreachable' hwire hheld
    obtain ⟨L', h', rfl⟩ := exists_of_reachable hreachable'
    have hagree : Agree L L' := fun e he f hf hid ↦ StoredEvent.ext_wire
      (hwire e f (mem_tables_events.mpr he) (mem_tables_events.mpr hf) hid)
    have hfind : ∀ head ∈ heads, ∀ id, L.Ancestor head id → L.find id = L'.find id := by
      intro head hhead id hid
      obtain ⟨hleft, hright⟩ := hheld head hhead
      exact hagree.find_eq h h' (holds_tables.mp hleft) (holds_tables.mp hright) hid
    exact ⟨project_agree h h' hfind limits,
      fun head hhead ↦ atHead_agree h h' (hfind head hhead) bounds⟩

section Golden

open Reference Golden

/-- A repeated head, and a store that has grown. -/
theorem views_depend_on_heads_advanced :
    project Golden.B branched.tables Golden.context [first.id] .default =
      project Golden.B branched.tables Golden.context [first.id, first.id] .default ∧
    project Golden.B branched.tables Golden.context [first.id] .default =
      project Golden.B advanced.tables Golden.context [first.id] .default ∧
    RecipientState.atHead Golden.B branched.tables Golden.context first.id .default =
      RecipientState.atHead Golden.B advanced.tables Golden.context first.id .default := by
  obtain ⟨hheads, -, hstores⟩ := views_depend_on_heads Golden.B branched.tables branched_reachable
    Golden.context [first.id] .default .default
  have hheld : ∀ head ∈ [first.id], branched.tables.Holds Golden.B Golden.context head ∧
      advanced.tables.Holds Golden.B Golden.context head := by
    intro head hhead
    rw [List.mem_singleton.mp hhead]
    exact ⟨holds_tables.mpr ⟨first, List.mem_singleton_self _, rfl, rfl⟩,
      holds_tables.mpr ⟨first, List.mem_cons_self, rfl, rfl⟩⟩
  obtain ⟨hproject, hknown⟩ := hstores advanced.tables advanced_reachable (fun e f he hf hid ↦ by
    rw [advanced_wellFormed.event_eq_of_id (List.mem_append_left _ (mem_tables_events.mp he))
      (mem_tables_events.mp hf) hid]) hheld
  exact ⟨hheads [first.id, first.id] (by simp) (by decide) (by decide), hproject,
    hknown first.id (List.mem_singleton_self _)⟩

end Golden

end ContextMesh.Delta
