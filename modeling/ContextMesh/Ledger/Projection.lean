import ContextMesh.Ledger.Graph
import Mathlib.Algebra.Order.BigOperators.Group.List

/-!
The projection as a function of the ancestry. A projection that succeeds lists the ancestry of its
heads, every event once and after its parents; it succeeds when the ancestry is stored in the
context and stays within the limits; and it is the same on any two stores that give the ancestry
the same events.
-/

set_option autoImplicit false
set_option relaxedAutoImplicit false

namespace ContextMesh.Store

open Checked Ordered Contract Relation Traversal Ledger

variable {B : Boundary}

/-- The tables read every event as the lookup finds it. -/
structure Reads (t : Tables) (stored : EventId → Option (StoredEvent B)) : Prop where
  load : ∀ id, loadVerifiedEvent B t id =
    required ((stored id).map StoredEvent.event) (.parentMissing id)
  identity : ∀ {id e}, stored id = some e → e.id = id

theorem Ledger.WellKeyed.reads {L : Ledger B} (h : L.WellKeyed) : Reads L.tables L.find where
  load := loadVerifiedEvent_tables h
  identity hfind := (h.find_eq_some.mp hfind).2

/-- A lookup restricted to the events of a context. -/
def inContext (stored : EventId → Option (StoredEvent B)) (context : ContextId) (id : EventId) :
    Option (StoredEvent B) := (stored id).filter fun e ↦ e.context = context

theorem inContext_eq_some {stored : EventId → Option (StoredEvent B)} {context : ContextId}
    {id : EventId} {e : StoredEvent B} :
    inContext stored context id = some e ↔ stored id = some e ∧ e.context = context := by
  rw [inContext, Option.filter_eq_some_iff, decide_eq_true_eq]

variable (B) in
/-- The number of canonical bytes of an event. -/
def wireLength (event : SignedEventV1) : ℕ := canonicalLength B (event.toJson B)

theorem StoredEvent.wireLength_eq (e : StoredEvent B) : wireLength B e.event = e.wire.length :=
  (canonicalize_length (SignedEventV1.toWire_eq_ok.mp e.authentic.renders).2).symm

variable (B) in
/-- What a visited event adds to the usage. -/
def charge (usage : Usage) (x : EventId × SignedEventV1) : Usage :=
  ⟨usage.events + 1, usage.wireBytes + wireLength B x.2⟩

theorem foldl_charge (entered : List (EventId × SignedEventV1)) (usage : Usage) :
    entered.foldl (charge B) usage = ⟨usage.events + entered.length,
      usage.wireBytes + (entered.map fun x ↦ wireLength B x.2).sum⟩ := by
  induction entered generalizing usage with
  | nil => rfl
  | cons x rest ih =>
    rw [List.foldl_cons, ih, List.length_cons, List.map_cons, List.sum_cons, charge]
    simp only [Usage.mk.injEq]
    omega

section Walk

variable {t : Tables} {stored : EventId → Option (StoredEvent B)} {context : ContextId}
  {limits : ProjectionLimits} {heads : List EventId}

theorem visitEvent_eq_ok (h : Reads t stored) {usage : Usage} {id : EventId}
    {visited : Usage × SignedEventV1 × List EventId} :
    visitEvent B t context limits usage id = .ok visited ↔
      ∃ e, inContext stored context id = some e ∧ usage.events + 1 ≤ limits.maxEvents ∧
        usage.wireBytes + wireLength B e.event ≤ limits.maxWireBytes ∧
        visited = (charge B usage (id, e.event), e.event, e.parents) := by
  rw [visitEvent, h.load]
  simp only [inContext_eq_some]
  cases hfind : stored id with
  | none => simp
  | some e =>
    rw [Option.map_some, required_some, ok_bind, unit_bind_eq_ok, ensure_eq_ok]
    rw [e.authentic.renders, mapError_ok, ok_bind, unit_bind_eq_ok, ensure_eq_ok, Except.ok.injEq]
    constructor
    · rintro ⟨hcontext, ⟨hevents, hbytes⟩, rfl⟩
      exact ⟨e, ⟨rfl, hcontext⟩, hevents, by rwa [e.wireLength_eq], by
        rw [charge, e.wireLength_eq]⟩
    · rintro ⟨f, ⟨hf, hcontext⟩, hevents, hbytes, rfl⟩
      obtain rfl := Option.some.inj hf
      rw [e.wireLength_eq] at hbytes
      exact ⟨hcontext, ⟨hevents, hbytes⟩, by rw [charge, e.wireLength_eq]⟩

theorem projector_loads (h : Reads t stored) :
    (projector B t context limits).Loads (graph (inContext stored context)) (charge B) := by
  intro usage id via usage' event parents hvisit
  obtain ⟨e, he, -, -, heq⟩ := (visitEvent_eq_ok h).mp hvisit
  obtain ⟨rfl, rfl, rfl⟩ : usage' = _ ∧ event = _ ∧ parents = _ := by simpa using heq
  exact ⟨by rw [graph, he, Option.map_some], rfl⟩

/-- A list of stored events that is the ancestry of the heads, every event once and after its
parents. -/
structure IsAncestry (stored : EventId → Option (StoredEvent B)) (heads : List EventId)
    (es : List (StoredEvent B)) : Prop where
  found : ∀ e ∈ es, stored e.id = some e
  nodup : (es.map StoredEvent.id).Nodup
  mem_iff : ∀ id, id ∈ es.map StoredEvent.id ↔ Reached (graph stored) heads id
  parentsFirst : ∀ before e after, es = before ++ e :: after →
    ∀ parent ∈ e.parents, parent ∈ before.map StoredEvent.id

/-- Nodes of the graph carry the stored events. -/
theorem exists_events {order : List (EventId × SignedEventV1)}
    (hidentity : ∀ {id e}, stored id = some e → e.id = id)
    (hnode : ∀ x ∈ order, ∃ parents, graph stored x.1 = some (x.2, parents)) :
    ∃ es : List (StoredEvent B), order = es.map (fun e ↦ (e.id, e.event)) ∧
      ∀ e ∈ es, stored e.id = some e := by
  induction order with
  | nil => exact ⟨[], rfl, by simp⟩
  | cons x rest ih =>
    obtain ⟨⟨parents, hx⟩, hrest⟩ := List.forall_mem_cons.mp hnode
    obtain ⟨e, he, heq⟩ := Option.map_eq_some_iff.mp hx
    obtain ⟨es, rfl, hes⟩ := ih hrest
    have hid := hidentity he
    refine ⟨e :: es, ?_, List.forall_mem_cons.mpr ⟨hid ▸ he, hes⟩⟩
    rw [List.map_cons]
    exact congrArg (· :: _) (Prod.ext hid.symm (Prod.mk.inj heq).1.symm)

theorem isAncestry_of_order {es : List (StoredEvent B)}
    (hfound : ∀ e ∈ es, stored e.id = some e)
    (hnodup : ((es.map fun e ↦ (e.id, e.event)).map Prod.fst).Nodup)
    (hmem : ∀ id, id ∈ (es.map fun e ↦ (e.id, e.event)).map Prod.fst ↔
      Reached (graph stored) heads id)
    (hfirst : SuccessorsFirst (graph stored) (es.map fun e ↦ (e.id, e.event))) :
    IsAncestry stored heads es where
  found := hfound
  nodup := by rwa [List.map_map] at hnodup
  mem_iff id := by
    have := hmem id
    rwa [List.map_map] at this
  parentsFirst before e after hsplit parent hparent := by
    obtain ⟨vs, hnode, hbefore⟩ := hfirst (before.map fun e ↦ (e.id, e.event)) (e.id, e.event)
      (after.map fun e ↦ (e.id, e.event)) (by rw [hsplit, List.map_append, List.map_cons])
    rw [graph, hfound e (by rw [hsplit]; simp), Option.map_some, Option.some.injEq,
      Prod.mk.injEq] at hnode
    have hmem := hbefore parent (hnode.2 ▸ hparent)
    rwa [List.map_map] at hmem

/-- What a successful projection has listed. -/
theorem projectOn_sound (h : Reads t stored) {events : List SignedEventV1} {bytes : ℕ}
    (hok : projectOn B t context heads limits = .ok (events, bytes)) :
    ∃ es : List (StoredEvent B), events = es.map StoredEvent.event ∧
      IsAncestry (inContext stored context) heads es ∧
      bytes = (es.map fun e ↦ e.wire.length).sum ∧
      es.length ≤ limits.maxEvents ∧ bytes ≤ limits.maxWireBytes := by
  obtain ⟨-, hok⟩ := unit_bind_eq_ok.mp hok
  obtain ⟨-, hok⟩ := unit_bind_eq_ok.mp hok
  obtain ⟨progress, hrun, hok⟩ := bind_eq_ok.mp hok
  rw [Except.ok.injEq, Prod.mk.injEq] at hok
  obtain ⟨rfl, rfl⟩ := hok
  obtain ⟨hnodup, hmem, hfirst, entered, hperm, hacc⟩ := Walker.run_sound (projector_loads h) hrun
  obtain ⟨es, horder, hfound⟩ := exists_events
    (fun hfind ↦ h.identity (inContext_eq_some.mp hfind).1) fun x hx ↦ by
      obtain ⟨before, after, hsplit⟩ := List.append_of_mem hx
      obtain ⟨parents, hnode, -⟩ := hfirst before x after hsplit
      exact ⟨parents, hnode⟩
  rw [horder] at hnodup hmem hfirst hperm
  have hwithin := Walker.run_acc (w := projector B t context limits)
    (motive := fun usage ↦ usage.events ≤ limits.maxEvents ∧ usage.wireBytes ≤ limits.maxWireBytes)
    (fun usage id via usage' event parents hvisit _ ↦ by
      obtain ⟨e, -, hevents, hbytes, heq⟩ := (visitEvent_eq_ok h).mp hvisit
      rw [(Prod.mk.inj heq).1]
      exact ⟨hevents, hbytes⟩) ⟨Nat.zero_le _, Nat.zero_le _⟩ hrun
  have hbytes : (entered.map fun x ↦ wireLength B x.2).sum =
      (es.map fun e ↦ e.wire.length).sum := by
    rw [(hperm.map fun x ↦ wireLength B x.2).sum_eq, List.map_map]
    exact congrArg List.sum (List.map_congr_left fun e _ ↦ e.wireLength_eq)
  have hlength : entered.length = es.length := by rw [hperm.length_eq, List.length_map]
  rw [hacc, foldl_charge, Nat.zero_add, Nat.zero_add, hbytes, hlength] at hwithin
  refine ⟨es, by rw [horder, List.map_map]; rfl, isAncestry_of_order hfound hnodup hmem hfirst,
    ?_, hwithin.1, ?_⟩
  · rw [hacc, foldl_charge, Nat.zero_add, Nat.zero_add, hbytes]
  · rw [hacc, foldl_charge, Nat.zero_add, Nat.zero_add, hbytes]
    exact hwithin.2

/-- The ancestry of the heads stays within the limits. -/
def Fits (stored : EventId → Option (StoredEvent B)) (heads : List EventId)
    (limits : ProjectionLimits) : Prop :=
  ∀ es : List (StoredEvent B), (es.map StoredEvent.id).Nodup →
    (∀ e ∈ es, stored e.id = some e ∧ Reached (graph stored) heads e.id) →
      es.length ≤ limits.maxEvents ∧ (es.map fun e ↦ e.wire.length).sum ≤ limits.maxWireBytes

/-- Events of an ancestry without repeats are some of those the ancestry lists. -/
theorem IsAncestry.subperm {es part : List (StoredEvent B)} (h : IsAncestry stored heads es)
    (hnodup : (part.map StoredEvent.id).Nodup)
    (hpart : ∀ e ∈ part, stored e.id = some e ∧ Reached (graph stored) heads e.id) :
    part.Subperm es := by
  refine List.subperm_of_subset (List.Nodup.of_map _ hnodup) fun e he ↦ ?_
  obtain ⟨hfound, hreach⟩ := hpart e he
  obtain ⟨f, hf, hid⟩ := List.mem_map.mp ((h.mem_iff e.id).mpr hreach)
  have hsame := h.found f hf
  rw [hid, hfound, Option.some.injEq] at hsame
  exact hsame ▸ hf

/-- A completed projection stayed within its limits. -/
theorem projectOn_fits (h : Reads t stored) {out : List SignedEventV1 × ℕ}
    (hok : projectOn B t context heads limits = .ok out) :
    Fits (inContext stored context) heads limits := by
  obtain ⟨events, bytes⟩ := out
  obtain ⟨es, -, hancestry, hsum, hlength, hbytes⟩ := projectOn_sound h hok
  intro part hnodup hpart
  obtain ⟨front, hperm, hsub⟩ := hancestry.subperm hnodup hpart
  refine ⟨hperm.length_eq.symm.trans_le (hsub.length_le.trans hlength), ?_⟩
  rw [← (hperm.map fun e ↦ e.wire.length).sum_eq]
  exact ((hsub.map _).sum_le_sum fun _ _ ↦ Nat.zero_le _).trans (hsum ▸ hbytes)

/-- A projection succeeds when the ancestry of its heads is stored in the context, has no cycle and
fits the limits. -/
theorem projectOn_complete (h : Reads t stored) (hlimits : validateProjectionLimits limits = .ok ())
    (hheads : heads ≠ [] ∧ heads.length ≤ MAX_BUNDLE_EVENTS)
    (hheld : ∀ id, Reached (graph (inContext stored context)) heads id →
      ∃ e, inContext stored context id = some e)
    (hacyclic : ∀ id, ¬ TransGen (Edge (graph (inContext stored context))) id id)
    (hfits : Fits (inContext stored context) heads limits) :
    ∃ out, projectOn B t context heads limits = .ok out := by
  have hidentity {id : EventId} {e : StoredEvent B} (he : inContext stored context id = some e) :
      e.id = id := h.identity (inContext_eq_some.mp he).1
  have hvisit : ∀ (entered : List (EventId × SignedEventV1)) id via,
      (entered.map Prod.fst).Nodup →
      (∀ x ∈ entered, Reached (graph (inContext stored context)) heads x.1 ∧
        ∃ parents, graph (inContext stored context) x.1 = some (x.2, parents)) →
      id ∉ entered.map Prod.fst → Reached (graph (inContext stored context)) heads id →
      ∀ error, (projector B t context limits).visit (entered.foldl (charge B) ⟨0, 0⟩) id via ≠
        .error error := by
    intro entered id via hnodup hentered hfresh hreached error hrefused
    obtain ⟨e, he⟩ := hheld id hreached
    obtain ⟨es, rfl, hfound⟩ := exists_events hidentity fun x hx ↦ (hentered x hx).2
    rw [List.map_map] at hnodup hfresh
    have hwithin := hfits (es ++ [e]) (by
      rw [List.map_append, List.map_singleton, hidentity he]
      exact hnodup.append (List.nodup_singleton _) (List.disjoint_singleton.mpr hfresh))
      fun f hf ↦ by
        rcases List.mem_append.mp hf with hf | hf
        · exact ⟨hfound f hf, (hentered _ (List.mem_map_of_mem hf)).1⟩
        · rw [List.mem_singleton] at hf
          subst hf
          rw [hidentity he]
          exact ⟨he, hreached⟩
    rw [List.length_append, List.length_singleton, List.map_append, List.sum_append,
      List.map_singleton, List.sum_singleton] at hwithin
    have hok : visitEvent B t context limits
        ((es.map fun e ↦ (e.id, e.event)).foldl (charge B) ⟨0, 0⟩) id = .ok _ :=
      (visitEvent_eq_ok h).mpr
      ⟨e, he, by
        rw [foldl_charge, List.length_map]
        simpa using hwithin.1, by
        rw [foldl_charge, List.map_map, e.wireLength_eq]
        simpa [Function.comp_def, StoredEvent.wireLength_eq] using hwithin.2, rfl⟩
    cases hok.symm.trans hrefused
  obtain ⟨progress, hrun⟩ :=
    Walker.run_complete (projector_loads h) (fun id _ ↦ hacyclic id) hvisit
  exact ⟨_, unit_bind_eq_ok.mpr ⟨hlimits, unit_bind_eq_ok.mpr ⟨ensure_eq_ok.mpr hheads,
    bind_eq_ok.mpr ⟨progress, hrun, rfl⟩⟩⟩⟩

/-- Two stores that agree on the ancestry of the heads project it alike, failures included. -/
theorem projectOn_congr {t' : Tables} {stored' : EventId → Option (StoredEvent B)}
    (h : Reads t stored) (h' : Reads t' stored')
    (hagree : ∀ id, Reached (graph stored) heads id → stored id = stored' id) :
    projectOn B t context heads limits = projectOn B t' context heads limits := by
  have hvisit : ∀ usage id (via : Option EventId), Reached (graph stored) heads id →
      (projector B t context limits).visit usage id via =
        (projector B t' context limits).visit usage id via := by
    intro usage id via hreached
    change visitEvent B t context limits usage id = visitEvent B t' context limits usage id
    rw [visitEvent, visitEvent, h.load, h'.load, hagree id hreached]
  have hclosed : ∀ usage id (via : Option EventId) usage' event parents,
      Reached (graph stored) heads id →
        (projector B t context limits).visit usage id via = .ok (usage', event, parents) →
          ∀ parent ∈ parents, Reached (graph stored) heads parent := by
    intro usage id via usage' event parents hreached hok parent hparent
    obtain ⟨e, he, -, -, heq⟩ := (visitEvent_eq_ok h).mp hok
    obtain ⟨-, -, rfl⟩ : usage' = _ ∧ event = _ ∧ parents = _ := by simpa using heq
    exact hreached.edge (edge_graph.mpr ⟨e, (inContext_eq_some.mp he).1, hparent⟩)
  rw [projectOn, projectOn, Walker.run_congr hvisit hclosed rfl fun id hid ↦ ?_]
  have hmentioned := mentioned_enters (D := SignedEventV1) none heads []
  rw [List.append_nil, mentioned, List.append_nil] at hmentioned
  rw [hmentioned] at hid
  exact Reached.head hid

end Walk

namespace Ledger

variable {L L' : Ledger B} {context : ContextId} {heads : List EventId} {limits : ProjectionLimits}

theorem WellKeyed.reached_iff (h : L.WellKeyed) {id : EventId} :
    Reached (graph L.find) heads id ↔ ∃ head ∈ heads, L.Ancestor head id := by
  rw [Reached, h.edge_eq]
  rfl

/-- Along the ancestry of held heads every event is in the context. -/
theorem WellKeyed.inContext_find (h : L.WellKeyed) {id : EventId} (hid : L.Holds context id) :
    inContext L.find context id = L.find id := by
  obtain ⟨e, he, heid, hcontext⟩ := hid
  rw [h.find_eq_some.mpr ⟨he, heid⟩]
  exact inContext_eq_some.mpr ⟨h.find_eq_some.mpr ⟨he, heid⟩, hcontext⟩

theorem Closed.reached_inContext (h : L.Closed)
    (hheads : ∀ head ∈ heads, L.Holds context head) {id : EventId} :
    Reached (graph (inContext L.find context)) heads id ↔ ∃ head ∈ heads, L.Ancestor head id := by
  rw [← h.reached_iff]
  constructor
  · rintro ⟨head, hhead, hpath⟩
    refine ⟨head, hhead, ReflTransGen.mono (fun child parent hedge ↦ ?_) _ _ hpath⟩
    obtain ⟨e, he, hparent⟩ := edge_graph.mp hedge
    exact edge_graph.mpr ⟨e, (inContext_eq_some.mp he).1, hparent⟩
  · rintro ⟨head, hhead, hpath⟩
    refine ⟨head, hhead, ?_⟩
    induction hpath with
    | refl => exact .refl
    | @tail child parent hprefix hedge ih =>
      have hchild : L.Holds context child :=
        h.holds_ancestor (hheads head hhead) (by rwa [h.edge_eq] at hprefix)
      obtain ⟨e, he, hparent⟩ := edge_graph.mp hedge
      exact ih.tail (edge_graph.mpr ⟨e, by rw [h.inContext_find hchild, he], hparent⟩)

/-- A projection of held heads succeeds when their ancestry has no cycle and fits the limits. -/
theorem Closed.projectOn_succeeds {t : Tables} (h : L.Closed) (hreads : Reads t L.find)
    (hacyclic : ∀ id, ¬ TransGen L.Parent id id)
    (hlimits : validateProjectionLimits limits = .ok ())
    (hcount : heads ≠ [] ∧ heads.length ≤ MAX_BUNDLE_EVENTS)
    (hheads : ∀ head ∈ heads, L.Holds context head)
    (hfits : Fits (inContext L.find context) heads limits) :
    ∃ out, projectOn B t context heads limits = .ok out := by
  refine projectOn_complete hreads hlimits hcount (fun id hid ↦ ?_)
    (fun id hcycle ↦ hacyclic id ?_) hfits
  · rw [h.reached_inContext hheads] at hid
    obtain ⟨head, hhead, hancestor⟩ := hid
    obtain ⟨e, he, rfl, hcontext⟩ := h.holds_ancestor (hheads head hhead) hancestor
    exact ⟨e, inContext_eq_some.mpr ⟨h.find_eq_some.mpr ⟨he, rfl⟩, hcontext⟩⟩
  · refine TransGen.mono (fun child parent hedge ↦ ?_) _ _ hcycle
    obtain ⟨e, he, hparent⟩ := edge_graph.mp hedge
    obtain ⟨hmem, hid⟩ := h.find_eq_some.mp (inContext_eq_some.mp he).1
    exact ⟨e, hmem, hid, hparent⟩

/-- A store of few events fits the default limits, however large the events are. -/
theorem fits_of_few (h : L.WellKeyed) (hfew : L.events.length ≤ 32) :
    Fits (inContext L.find context) heads .default := by
  intro es hnodup hes
  have hsub : ∀ e ∈ es, e ∈ L.events := fun e he ↦
    (h.find_eq_some.mp (inContext_eq_some.mp (hes e he).1).1).1
  have hlength : es.length ≤ 32 :=
    (List.subperm_of_subset (List.Nodup.of_map _ hnodup) hsub).length_le.trans hfew
  have hsum : (es.map fun e ↦ e.wire.length).sum ≤ es.length * MAX_RAW_WIRE_BYTES := by
    clear hnodup hes hsub hlength
    induction es with
    | nil => exact Nat.zero_le _
    | cons e rest ih =>
      rw [List.map_cons, List.sum_cons, List.length_cons, Nat.succ_mul, Nat.add_comm]
      exact Nat.add_le_add ih (SignedEventV1.toWire_length e.authentic.renders)
  refine ⟨hlength.trans (by decide), hsum.trans ((Nat.mul_le_mul_right _ hlength).trans ?_)⟩
  decide

/-- A store of few events projects every head it holds. -/
theorem project_head (h : L.WellFormed) {head : EventId} (hheld : L.Holds context head)
    (hfew : L.events.length ≤ 7) :
    ∃ projection, project B L.tables context [head] .default = .ok projection := by
  have hone : [head].length ≤ MAX_BUNDLE_EVENTS := (by decide : 1 ≤ MAX_BUNDLE_EVENTS)
  have hlimits : validateProjectionLimits .default = .ok () := rfl
  obtain ⟨out, hout⟩ := h.closed.projectOn_succeeds h.reads h.acyclic hlimits
    ⟨List.cons_ne_nil _ _, hone⟩ (fun id hid ↦ List.mem_singleton.mp hid ▸ hheld)
    (fits_of_few h.toWellKeyed (hfew.trans (by decide)))
  have hheads : [head].length ≤ MAX_PROJECTION_HEADS := (by decide : 1 ≤ MAX_PROJECTION_HEADS)
  have hnormal : normalize (EventId.text B) [head] = [head] :=
    normalize_eq_self (canonical_singleton _ _)
  refine ⟨⟨context, [head], out.1, out.2⟩, ?_⟩
  rw [project, hlimits, ok_bind, normalizeHeads, ensure_true ⟨List.cons_ne_nil _ _, hheads⟩,
    ok_bind, hnormal, ok_bind, hout, ok_bind]

/-- A successful projection of a well-formed ledger lists the ancestry of its heads. -/
theorem projectOn_tables (h : L.WellFormed) {events : List SignedEventV1} {bytes : ℕ}
    (hok : projectOn B L.tables context heads limits = .ok (events, bytes)) :
    (∀ head ∈ heads, L.Holds context head) ∧
      ∃ es : List (StoredEvent B), events = es.map StoredEvent.event ∧ (∀ e ∈ es, e ∈ L.events) ∧
        (es.map StoredEvent.id).Nodup ∧
        (∀ id, id ∈ es.map StoredEvent.id ↔ ∃ head ∈ heads, L.Ancestor head id) ∧
        (∀ before e after, es = before ++ e :: after →
          ∀ parent ∈ e.parents, parent ∈ before.map StoredEvent.id) ∧
        bytes = (es.map fun e ↦ e.wire.length).sum := by
  obtain ⟨es, hevents, hancestry, hbytes, -⟩ := projectOn_sound h.reads hok
  have hheads : ∀ head ∈ heads, L.Holds context head := by
    intro head hhead
    obtain ⟨e, he, rfl⟩ := List.mem_map.mp ((hancestry.mem_iff head).mpr (Reached.head hhead))
    obtain ⟨hfind, hcontext⟩ := inContext_eq_some.mp (hancestry.found e he)
    exact ⟨e, (h.find_eq_some.mp hfind).1, rfl, hcontext⟩
  refine ⟨hheads, es, hevents, fun e he ↦ ?_, hancestry.nodup, fun id ↦ ?_, hancestry.parentsFirst,
    hbytes⟩
  · exact (h.find_eq_some.mp (inContext_eq_some.mp (hancestry.found e he)).1).1
  · rw [hancestry.mem_iff, h.closed.reached_inContext hheads]

/-- The projection of one head lists its ancestry. -/
theorem mem_project_head (h : L.WellFormed) {head : EventId} {projection : Projection}
    (hok : project B L.tables context [head] limits = .ok projection) (id : EventId) :
    id ∈ projection.events.map SignedEventV1.eventId ↔ L.Ancestor head id := by
  obtain ⟨-, hok⟩ := unit_bind_eq_ok.mp hok
  obtain ⟨heads, hheads, hok⟩ := bind_eq_ok.mp hok
  obtain ⟨⟨events, bytes⟩, hprojected, hok⟩ := bind_eq_ok.mp hok
  obtain ⟨-, hheads⟩ := unit_bind_eq_ok.mp hheads
  rw [normalize_eq_self (canonical_singleton _ _), Except.ok.injEq] at hheads
  rw [Except.ok.injEq] at hok
  subst hheads hok
  obtain ⟨-, es, rfl, -, -, hancestry, -⟩ := projectOn_tables h hprojected
  rw [List.map_map]
  exact (hancestry id).trans (by simp)

end Ledger

end ContextMesh.Store
