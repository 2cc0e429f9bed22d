import ContextMesh.Foundation.Postorder
import ContextMesh.Ledger.Statements
import ContextMesh.Delta.Views

/-!
A branch that moves by appends is a log. The projection of an event is the projection of its
parents and then the event; so, whatever else happens to the store, the projection of the head of
such a branch is its projection at the start followed by what was appended since, in the order in
which it was appended.
-/

set_option autoImplicit false
set_option relaxedAutoImplicit false

namespace ContextMesh.Store

open Checked Ordered Contract Relation Traversal Ledger

variable {B : Boundary}

/-! ### The projection of a child -/

section Child

variable {t : Tables} {stored : EventId → Option (StoredEvent B)} {context : ContextId}
  {limits : ProjectionLimits} {e : StoredEvent B}

/-- What lies on or below a stored event. -/
theorem reached_child (he : stored e.id = some e) {id : EventId} :
    Reached (graph stored) [e.id] id ↔ Reached (graph stored) e.parents id ∨ id = e.id := by
  constructor
  · rintro ⟨head, hhead, hpath⟩
    rw [List.mem_singleton] at hhead
    subst hhead
    rcases hpath.cases_head with rfl | ⟨parent, hedge, hpath⟩
    · exact Or.inr rfl
    · obtain ⟨f, hf, hparent⟩ := edge_graph.mp hedge
      rw [he, Option.some.injEq] at hf
      subst hf
      exact Or.inl ⟨parent, hparent, hpath⟩
  · rintro (⟨parent, hparent, hpath⟩ | rfl)
    · exact ⟨e.id, List.mem_singleton_self _, hpath.head (edge_graph.mpr ⟨e, he, hparent⟩)⟩
    · exact Reached.head (List.mem_singleton_self _)

/-- Without cycles an event does not lie below its own parents. -/
theorem not_reached_self (he : stored e.id = some e)
    (hacyclic : ∀ id, ¬ TransGen (Edge (graph stored)) id id) :
    ¬ Reached (graph stored) e.parents e.id := by
  rintro ⟨parent, hparent, hpath⟩
  exact hacyclic e.id (.head' (edge_graph.mpr ⟨e, he, hparent⟩) hpath)

/-- The ancestry of the parents and then the event is the ancestry of the event. -/
theorem IsAncestry.child {es : List (StoredEvent B)} (h : IsAncestry stored e.parents es)
    (he : stored e.id = some e) (hfresh : ¬ Reached (graph stored) e.parents e.id) :
    IsAncestry stored [e.id] (es ++ [e]) where
  found := List.forall_mem_append.mpr ⟨h.found, by simpa using he⟩
  nodup := by
    rw [List.map_append, List.map_singleton]
    refine h.nodup.append (List.nodup_singleton _) (List.disjoint_singleton.mpr fun hmem ↦ ?_)
    exact hfresh ((h.mem_iff e.id).mp hmem)
  mem_iff id := by
    rw [List.map_append, List.map_singleton, List.mem_append, List.mem_singleton, h.mem_iff,
      reached_child he]
  parentsFirst before f after hsplit parent hparent := by
    rcases after.eq_nil_or_concat with rfl | ⟨front, last, rfl⟩
    · obtain ⟨rfl, hf⟩ := List.append_inj' hsplit rfl
      rw [List.cons.injEq] at hf
      rw [← hf.1] at hparent
      exact (h.mem_iff parent).mpr (Reached.head hparent)
    · rw [List.concat_eq_append, ← List.cons_append, ← List.append_assoc] at hsplit
      exact h.parentsFirst before f front (List.append_inj' hsplit rfl).1 parent hparent

/-- Whatever is visited after some charge is visited without it. -/
theorem projector_follows (h : Reads t stored) (limits : ProjectionLimits)
    (inside : EventId → Prop)
    (hinside : ∀ f, inside f.id → inContext stored context f.id = some f →
      ∀ parent ∈ f.parents, inside parent) (size : ℕ) :
    (projector B t context limits).Follows (projector B t context limits) inside
      fun usage usage' ↦ usage.events = usage'.events + 1 ∧
        usage.wireBytes = usage'.wireBytes + size := by
  rintro usage usage' id via via' charged event parents hid ⟨hevents, hbytes⟩ hvisit
  obtain ⟨f, hf, hcount, hweight, heq⟩ := (visitEvent_eq_ok h).mp hvisit
  rw [Prod.mk.injEq, Prod.mk.injEq] at heq
  obtain ⟨rfl, rfl, rfl⟩ := heq
  have hidentity := h.identity (inContext_eq_some.mp hf).1
  refine ⟨charge B usage' (id, f.event), ?_, ?_, ?_⟩
  · exact (visitEvent_eq_ok h).mpr ⟨f, hf, by omega, by omega, rfl⟩
  · simp only [charge]
    omega
  · subst hidentity
    exact hinside f hid hf

/-- The projection of an event is the projection of its parents and then the event. -/
theorem projectOn_child (h : Reads t stored)
    (hacyclic : ∀ id, ¬ TransGen (Edge (graph (inContext stored context))) id id)
    (he : inContext stored context e.id = some e) (hparents : e.parents ≠ [])
    {events' : List SignedEventV1} {bytes' : ℕ}
    (hok : projectOn B t context [e.id] limits = .ok (events', bytes')) :
    ∃ events bytes, projectOn B t context e.parents limits = .ok (events, bytes) ∧
      events' = events ++ [e.event] ∧ bytes' = bytes + e.wire.length := by
  obtain ⟨hlimits, hok⟩ := unit_bind_eq_ok.mp hok
  obtain ⟨-, hok⟩ := unit_bind_eq_ok.mp hok
  obtain ⟨progress, hrun, hok⟩ := bind_eq_ok.mp hok
  rw [Except.ok.injEq, Prod.mk.injEq] at hok
  obtain ⟨rfl, rfl⟩ := hok
  have hcount : e.parents.length ≤ MAX_BUNDLE_EVENTS := e.parents_length.trans (by decide)
  -- the visit of the event charges it, and loads its parents
  have hvisit : ∃ f, inContext stored context e.id = some f ∧ 0 + 1 ≤ limits.maxEvents ∧
      0 + wireLength B f.event ≤ limits.maxWireBytes := by
    cases hvisit : visitEvent B t context limits ⟨0, 0⟩ e.id with
    | error error =>
      rw [enters, List.map_singleton, Walker.run_refused rfl hvisit] at hrun
      cases hrun
    | ok visited =>
      obtain ⟨f, hf, hevents, hbytes, -⟩ := (visitEvent_eq_ok h).mp hvisit
      exact ⟨f, hf, hevents, hbytes⟩
  obtain ⟨f, hf, hevents, hbytes⟩ := hvisit
  rw [he, Option.some.injEq] at hf
  subst hf
  -- what lies below the parents is closed under parents, and the event is not among it
  obtain ⟨below, hbelow, horder, -, hweight⟩ := Walker.run_single
    (projector_follows h limits (Reached (graph (inContext stored context)) e.parents)
      (fun f hf hfind parent hparent ↦ hf.edge (edge_graph.mpr ⟨f, hfind, hparent⟩))
      e.wire.length)
    none ⟨0, 0⟩ (not_reached_self he hacyclic) (fun parent hparent ↦ Reached.head hparent)
    ((visitEvent_eq_ok h).mpr ⟨e, he, hevents, hbytes, rfl⟩)
    (by simp [charge, e.wireLength_eq]) hrun
  refine ⟨below.order.map Prod.snd, below.acc.wireBytes, ?_, ?_, hweight⟩
  · exact unit_bind_eq_ok.mpr ⟨hlimits, unit_bind_eq_ok.mpr ⟨ensure_eq_ok.mpr ⟨hparents, hcount⟩,
      bind_eq_ok.mpr ⟨below, hbelow, rfl⟩⟩⟩
  · rw [horder, List.map_append, List.map_singleton]

/-- The projection of an event succeeds when that of its parents does and the event still fits. -/
theorem projectOn_child_succeeds (h : Reads t stored)
    (hheld : ∀ id, Reached (graph (inContext stored context)) [e.id] id →
      ∃ f, inContext stored context id = some f)
    (hacyclic : ∀ id, ¬ TransGen (Edge (graph (inContext stored context))) id id)
    (he : inContext stored context e.id = some e) {events : List SignedEventV1} {bytes : ℕ}
    (hok : projectOn B t context e.parents limits = .ok (events, bytes))
    (hevents : events.length + 1 ≤ limits.maxEvents)
    (hbytes : bytes + e.wire.length ≤ limits.maxWireBytes) :
    ∃ out, projectOn B t context [e.id] limits = .ok out := by
  obtain ⟨hlimits, -⟩ := unit_bind_eq_ok.mp hok
  obtain ⟨es, rfl, hancestry, rfl, -, -⟩ := projectOn_sound h hok
  have hchild := hancestry.child he (not_reached_self he hacyclic)
  have hone : [e.id].length ≤ MAX_BUNDLE_EVENTS := (by decide : 1 ≤ MAX_BUNDLE_EVENTS)
  refine projectOn_complete h hlimits ⟨List.cons_ne_nil _ _, hone⟩ hheld hacyclic ?_
  intro part hnodup hpart
  obtain ⟨front, hperm, hsub⟩ := hchild.subperm hnodup hpart
  rw [List.length_map] at hevents
  constructor
  · have hlength := hperm.length_eq.symm.trans_le hsub.length_le
    rw [List.length_append, List.length_singleton] at hlength
    omega
  · have hsum := (hsub.map fun f ↦ f.wire.length).sum_le_sum fun _ _ ↦ Nat.zero_le _
    rw [(hperm.map fun f ↦ f.wire.length).sum_eq, List.map_append, List.sum_append,
      List.map_singleton, List.sum_singleton] at hsum
    omega

end Child

namespace Ledger

variable {L : Ledger B} {context : ContextId} {limits : ProjectionLimits}

/-- The lookup in a context has no cycle. -/
theorem WellFormed.acyclic_inContext (h : L.WellFormed) (id : EventId) :
    ¬ TransGen (Edge (graph (inContext L.find context))) id id := by
  intro hcycle
  refine h.acyclic id (TransGen.mono (fun child parent hedge ↦ ?_) _ _ hcycle)
  obtain ⟨e, he, hparent⟩ := edge_graph.mp hedge
  obtain ⟨hmem, hid⟩ := h.find_eq_some.mp (inContext_eq_some.mp he).1
  exact ⟨e, hmem, hid, hparent⟩

/-- The projection of a stored event succeeds exactly when that of its parents does and the event
still fits, and lists the event last. -/
theorem WellFormed.projectOn_child_iff (h : L.WellFormed) {e : StoredEvent B} (he : e ∈ L.events)
    (hparents : e.parents ≠ []) {events' : List SignedEventV1} {bytes' : ℕ} :
    projectOn B L.tables e.context [e.id] limits = .ok (events', bytes') ↔
      ∃ events bytes, projectOn B L.tables e.context e.parents limits = .ok (events, bytes) ∧
        events' = events ++ [e.event] ∧ bytes' = bytes + e.wire.length ∧
        events'.length ≤ limits.maxEvents ∧ bytes' ≤ limits.maxWireBytes := by
  have hfind : inContext L.find e.context e.id = some e :=
    inContext_eq_some.mpr ⟨h.find_eq_some.mpr ⟨he, rfl⟩, rfl⟩
  constructor
  · intro hok
    obtain ⟨events, bytes, hbelow, hevents, hbytes⟩ :=
      projectOn_child h.reads (fun id ↦ h.acyclic_inContext id) hfind hparents hok
    obtain ⟨es, hlisted, -, -, hlength, hwithin⟩ := projectOn_sound h.reads hok
    rw [hlisted, List.length_map]
    exact ⟨events, bytes, hbelow, hlisted ▸ hevents, hbytes, hlength, hwithin⟩
  · rintro ⟨events, bytes, hbelow, rfl, rfl, hlength, hwithin⟩
    rw [List.length_append, List.length_singleton] at hlength
    have hheld : ∀ id, Reached (graph (inContext L.find e.context)) [e.id] id →
        ∃ f, inContext L.find e.context id = some f := by
      intro id hid
      have hself : L.Holds e.context e.id := ⟨e, he, rfl, rfl⟩
      obtain ⟨head, hhead, hancestor⟩ :=
        (h.closed.reached_inContext (by simpa using hself)).mp hid
      rw [List.mem_singleton] at hhead
      subst hhead
      obtain ⟨f, hf, rfl, hcontext⟩ := h.holds_ancestor hself hancestor
      exact ⟨f, inContext_eq_some.mpr ⟨h.find_eq_some.mpr ⟨hf, rfl⟩, hcontext⟩⟩
    obtain ⟨⟨events', bytes'⟩, hok⟩ := projectOn_child_succeeds h.reads hheld
      (fun id ↦ h.acyclic_inContext id) hfind hbelow hlength hwithin
    obtain ⟨events'', bytes'', hbelow', rfl, rfl⟩ :=
      projectOn_child h.reads (fun id ↦ h.acyclic_inContext id) hfind hparents hok
    rw [hbelow, Except.ok.injEq, Prod.mk.injEq] at hbelow'
    rw [hok, hbelow'.1, hbelow'.2]

/-- The projection of a single head. -/
theorem project_single {t : Tables} {head : EventId} {projection : Projection} :
    project B t context [head] limits = .ok projection ↔
      ∃ events bytes, projectOn B t context [head] limits = .ok (events, bytes) ∧
        projection = ⟨context, [head], events, bytes⟩ := by
  have hone : [head].length ≤ MAX_PROJECTION_HEADS := (by decide : 1 ≤ MAX_PROJECTION_HEADS)
  have hnormal : normalize (EventId.text B) [head] = [head] :=
    normalize_eq_self (canonical_singleton _ _)
  rw [project, normalizeHeads, ensure_true ⟨List.cons_ne_nil _ _, hone⟩, ok_bind, hnormal, ok_bind]
  constructor
  · intro hok
    obtain ⟨-, hok⟩ := unit_bind_eq_ok.mp hok
    obtain ⟨⟨events, bytes⟩, hprojected, hok⟩ := bind_eq_ok.mp hok
    rw [Except.ok.injEq] at hok
    exact ⟨events, bytes, hprojected, hok.symm⟩
  · rintro ⟨events, bytes, hprojected, rfl⟩
    obtain ⟨hlimits, -⟩ := unit_bind_eq_ok.mp hprojected
    rw [hlimits, ok_bind, hprojected, ok_bind]

/-- Stores that extend one another project the heads of the smaller one alike. -/
theorem Extends.projectOn_eq {L L' : Ledger B} (hextends : L.Extends L') (h : L.WellFormed)
    (h' : L'.WellFormed) {head : EventId} (hheld : L.Holds context head)
    (limits : ProjectionLimits) :
    projectOn B L'.tables context [head] limits = projectOn B L.tables context [head] limits := by
  have hagree : Delta.Agree L L' :=
    fun e he f hf hid ↦ h'.event_eq_of_id (hextends.events e he) hf hid
  refine (projectOn_congr h.reads h'.reads fun id hid ↦ ?_).symm
  obtain ⟨member, hmember, hancestor⟩ := h.reached_iff.mp hid
  rw [List.mem_singleton] at hmember
  subst hmember
  exact hagree.find_eq h h' hheld (hheld.mono hextends.events) hancestor

/-- An append stores its event as a child of the expected head and leaves the branch there. -/
theorem append_stored (h : L.WellFormed) {identity : SigningIdentity} {branch : LocalRefName}
    {expected : EventId} {kind : String} {payload : Json} {t : Tables} {event : SignedEventV1}
    (hok : append B identity context branch expected kind payload L.tables = .ok (t, event)) :
    ∃ (L' : Ledger B) (e : StoredEvent B), t = L'.tables ∧ L'.WellFormed ∧ L.Extends L' ∧
      e ∈ L'.events ∧ event.toWire B = .ok e.wire ∧ e.context = context ∧
      e.parents = [expected] ∧ L'.localHead context branch = some e.id := by
  obtain ⟨hcontext, L', ht, hsteps, hhead⟩ := append_steps h hok
  have h' := hsteps.wellFormed h
  obtain ⟨-, hok⟩ := unit_bind_eq_ok.mp hok
  obtain ⟨created, hcreated, hok⟩ := bind_eq_ok.mp hok
  obtain ⟨⟨admitted, status⟩, hadmit, hok⟩ := bind_eq_ok.mp hok
  rw [Except.ok.injEq, Prod.mk.injEq] at hok
  obtain ⟨rfl, rfl⟩ := hok
  have hbody := createEvent_eq_ok (mapError_eq_ok.mp hcreated)
  obtain ⟨e, hrender, -, hadmits, M, applied, hswaps, hM, -⟩ := (admit_eq_ok h).mp hadmit
  obtain ⟨hid, hin, -, -, hparents⟩ := StoredEvent.columns hrender
  have hmem : e ∈ M.events := by
    cases hswaps with
    | applied current => exact mem_admitted h hadmits
    | swapped current moved => exact mem_admitted h hadmits
  rw [← mem_tables_events, ← hM, ht, mem_tables_events] at hmem
  refine ⟨L', e, ht, h', hsteps.extends, hmem, hrender, hin.symm.trans hcontext, ?_, hid ▸ hhead⟩
  rw [← hparents, hbody]

end Ledger

/-! ### Runs of a branch -/

variable (B) in
/-- A branch and the store around it: calls that leave the branch where it is, whatever they do
otherwise and however the database fails them, and appends to the head of the branch. -/
inductive Logged (context : ContextId) (branch : LocalRefName) (t : Tables) :
    List SignedEventV1 → Tables → Prop
  | start : Logged context branch t [] t
  | other {added : List SignedEventV1} {t' : Tables} (logged : Logged context branch t added t')
      (operation : Operation) (fault : Option Fault)
      (stays : localRefId (operation.execute B fault t').1 context branch =
        localRefId t' context branch) :
      Logged context branch t added (operation.execute B fault t').1
  | append {added : List SignedEventV1} {t' after : Tables}
      (logged : Logged context branch t added t') (identity : SigningIdentity)
      {expected : EventId} (current : localRefId t' context branch = .ok (some expected))
      (kind : String) (payload : Json) {event : SignedEventV1}
      (appended : (Operation.append identity context branch expected kind payload).body B t' =
        .ok (after, event)) :
      Logged context branch t (added ++ [event]) after

/-- The projection of the second head is that of the first with the events after it. -/
def Continues (t t' : Tables) (context : ContextId) (head head' : EventId)
    (stored : List SignedEventV1) : Prop :=
  ∀ limits events' bytes', projectOn B t' context [head'] limits = .ok (events', bytes') ↔
    ∃ events bytes, projectOn B t context [head] limits = .ok (events, bytes) ∧
      events' = events ++ stored ∧ bytes' = bytes + (stored.map (wireLength B)).sum ∧
      events'.length ≤ limits.maxEvents ∧ bytes' ≤ limits.maxWireBytes

namespace Ledger

variable {L : Ledger B} {context : ContextId} {branch : LocalRefName} {t' : Tables}
  {added : List SignedEventV1}

theorem WellFormed.holds_localHead (h : L.WellFormed) {head : EventId}
    (hhead : L.localHead context branch = some head) : L.Holds context head :=
  h.localTargets _ (h.localHead_eq_some.mp hhead)

theorem WellFormed.continues_refl (h : L.WellFormed) (head : EventId) :
    Continues (B := B) L.tables L.tables context head head [] := by
  intro limits events' bytes'
  constructor
  · intro hok
    obtain ⟨es, rfl, -, -, hlength, hwithin⟩ := projectOn_sound h.reads hok
    rw [List.length_map]
    exact ⟨_, bytes', hok, by simp, by simp, hlength, hwithin⟩
  · rintro ⟨events, bytes, hok, rfl, rfl, -, -⟩
    simpa using hok

/-- A child of the head prolongs what continues to the head. -/
theorem WellFormed.continues_child (h : L.WellFormed) {t : Tables} {start head : EventId}
    {stored : List SignedEventV1} {e : StoredEvent B} (he : e ∈ L.events)
    (hparents : e.parents = [head])
    (hcontinues : Continues (B := B) t L.tables e.context start head stored) :
    Continues (B := B) t L.tables e.context start e.id (stored ++ [e.event]) := by
  intro limits events' bytes'
  rw [h.projectOn_child_iff he (by simp [hparents]), hparents]
  simp only [List.map_append, List.map_singleton, List.sum_append, List.sum_singleton,
    e.wireLength_eq]
  constructor
  · rintro ⟨middle, weight, hmiddle, rfl, rfl, hlength, hwithin⟩
    obtain ⟨events, bytes, hok, rfl, rfl, -, -⟩ := (hcontinues _ _ _).mp hmiddle
    exact ⟨events, bytes, hok, List.append_assoc _ _ _, Nat.add_assoc _ _ _, hlength, hwithin⟩
  · rintro ⟨events, bytes, hok, rfl, rfl, hlength, hwithin⟩
    refine ⟨events ++ stored, bytes + (stored.map (wireLength B)).sum, ?_, ?_, ?_, hlength,
      hwithin⟩
    · refine (hcontinues _ _ _).mpr ⟨events, bytes, hok, rfl, rfl, ?_, ?_⟩
      · simp only [List.length_append, List.length_singleton] at hlength ⊢
        omega
      · omega
    · exact (List.append_assoc _ _ _).symm
    · exact (Nat.add_assoc _ _ _).symm

/-- Runs of a branch, on the ledgers. -/
theorem logged_continues (h : L.WellFormed) {head : EventId}
    (hhead : L.localHead context branch = some head)
    (hlogged : Logged B context branch L.tables added t') :
    ∃ (L' : Ledger B) (head' : EventId) (stored : List SignedEventV1), t' = L'.tables ∧
      L'.WellFormed ∧ L'.localHead context branch = some head' ∧
      stored.map (SignedEventV1.toWire B) = added.map (SignedEventV1.toWire B) ∧
      Continues (B := B) L.tables L'.tables context head head' stored := by
  induction hlogged with
  | start => exact ⟨L, head, [], rfl, h, hhead, rfl, h.continues_refl head⟩
  | other _ operation fault stays ih =>
    obtain ⟨M, head', stored, rfl, hM, hmoved, hsame, hcontinues⟩ := ih
    obtain ⟨L', hL', h', hextends⟩ := execute_extends hM operation fault
    rw [hL', localRefId_tables h'.toWellKeyed, localRefId_tables hM.toWellKeyed,
      Except.ok.injEq] at stays
    refine ⟨L', head', stored, hL', h', stays.trans hmoved, hsame, fun limits events' bytes' ↦ ?_⟩
    rw [hextends.projectOn_eq hM h' (hM.holds_localHead hmoved)]
    exact hcontinues limits events' bytes'
  | append _ identity current kind payload appended ih =>
    obtain ⟨M, head', stored, rfl, hM, hmoved, hsame, hcontinues⟩ := ih
    rw [localRefId_tables hM.toWellKeyed, hmoved, Except.ok.injEq, Option.some.injEq] at current
    subst current
    obtain ⟨L', e, hL', h', hextends, he, hrender, rfl, hparents, hend⟩ :=
      append_stored hM appended
    refine ⟨L', e.id, stored ++ [e.event], hL', h', hend, ?_,
      h'.continues_child he hparents fun limits events' bytes' ↦ ?_⟩
    · rw [List.map_append, List.map_append, hsame, List.map_singleton, List.map_singleton,
        hrender, e.authentic.renders]
    · rw [hextends.projectOn_eq hM h' (hM.holds_localHead hmoved)]
      exact hcontinues limits events' bytes'

end Ledger

/-- While a branch moves by appends, whatever else is done to the store, its projection stays what
it was, followed by the events appended since, in the order of the appends, with exactly their
bytes; it fails only where the limits forbid its length or its bytes. -/
theorem branch_log {t t' : Tables} (hreachable : Reachable B t) {context : ContextId}
    {branch : LocalRefName} {head : EventId}
    (hhead : localRefId t context branch = .ok (some head)) {added : List SignedEventV1}
    (hlogged : Logged B context branch t added t') :
    ∃ head' stored, localRefId t' context branch = .ok (some head') ∧
      stored.map (SignedEventV1.toWire B) = added.map (SignedEventV1.toWire B) ∧
      ∀ limits projection', project B t' context [head'] limits = .ok projection' ↔
        ∃ projection, project B t context [head] limits = .ok projection ∧
          projection' = ⟨context, [head'], projection.events ++ stored,
            projection.canonicalWireBytes + (stored.map (wireLength B)).sum⟩ ∧
          projection'.events.length ≤ limits.maxEvents ∧
          projection'.canonicalWireBytes ≤ limits.maxWireBytes := by
  obtain ⟨L, h, rfl⟩ := Ledger.exists_of_reachable hreachable
  rw [Ledger.localRefId_tables h.toWellKeyed, Except.ok.injEq] at hhead
  obtain ⟨L', head', stored, rfl, h', hhead', hsame, hcontinues⟩ :=
    Ledger.logged_continues h hhead hlogged
  refine ⟨head', stored, ?_, hsame, fun limits projection' ↦ ?_⟩
  · rw [Ledger.localRefId_tables h'.toWellKeyed, hhead']
  · rw [Ledger.project_single]
    constructor
    · rintro ⟨events', bytes', hok, rfl⟩
      obtain ⟨events, bytes, hbefore, rfl, rfl, hlength, hwithin⟩ := (hcontinues _ _ _).mp hok
      exact ⟨⟨context, [head], events, bytes⟩,
        Ledger.project_single.mpr ⟨events, bytes, hbefore, rfl⟩, rfl, hlength, hwithin⟩
    · rintro ⟨projection, hbefore, rfl, hlength, hwithin⟩
      rw [Ledger.project_single] at hbefore
      obtain ⟨events, bytes, hbefore, rfl⟩ := hbefore
      exact ⟨events ++ stored, bytes + (stored.map (wireLength B)).sum,
        (hcontinues _ _ _).mpr ⟨events, bytes, hbefore, rfl, rfl, hlength, hwithin⟩, rfl⟩

section Golden

open Reference Golden

/-- An append whose commit is lost leaves the branch alone; the next one moves it. -/
theorem branch_log_branched : ∃ head' stored,
    localRefId advanced.tables Golden.context main = .ok (some head') ∧
      stored.map (SignedEventV1.toWire Golden.B) =
        [second.event].map (SignedEventV1.toWire Golden.B) ∧
      ∀ limits projection',
        project Golden.B advanced.tables Golden.context [head'] limits = .ok projection' ↔
          ∃ projection, project Golden.B branched.tables Golden.context [first.id] limits =
              .ok projection ∧
            projection' = ⟨Golden.context, [head'], projection.events ++ stored,
              projection.canonicalWireBytes + (stored.map (wireLength Golden.B)).sum⟩ ∧
            projection'.events.length ≤ limits.maxEvents ∧
            projection'.canonicalWireBytes ≤ limits.maxWireBytes := by
  have hhead : localRefId branched.tables Golden.context main = .ok (some first.id) := rfl
  have hlost : Logged Golden.B Golden.context main branched.tables [] branched.tables :=
    Logged.start.other (.append identity second.context main first.id second.kind
      second.event.body.payload) (some .lost) rfl
  exact branch_log branched_reachable hhead (hlost.append identity hhead second.kind
    second.event.body.payload append_branched)

end Golden

end ContextMesh.Store
