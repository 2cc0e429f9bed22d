import ContextMesh.Store.Errors
import ContextMesh.Ledger.Decoding
import ContextMesh.Ledger.Projection
import ContextMesh.Reference.Golden

/-!
The projection of tables of any content. Nothing is assumed of the rows: edges may lead in circles,
to missing events and into other contexts. Ancestry is what the edges table says, and
`projectOn_exact` says what the projection does over it: when it succeeds, what it lists, and that
it reports a cycle only where there is one.
-/

set_option autoImplicit false
set_option relaxedAutoImplicit false

namespace ContextMesh.Store

open Checked Ordered Contract Relation Traversal

variable {B : Boundary} {t : Tables} {context : ContextId} {heads : List EventId}
  {limits : ProjectionLimits}

/-! ### The graph of the rows -/

/-- A row of the edges table leads from the child to the parent. -/
def Tables.HasEdge (t : Tables) (child parent : EventId) : Prop :=
  ∃ row ∈ t.parentEdges, row.childId = cell child.bytes ∧ row.parentId = cell parent.bytes

/-- The event is one of the heads or lies above one of them. -/
def Tables.IsAncestor (t : Tables) (heads : List EventId) (id : EventId) : Prop :=
  ∃ head ∈ heads, ReflTransGen t.HasEdge head id

/-- The number of bytes of a stored wire. -/
def Tables.storedBytes (t : Tables) (id : EventId) : ℕ :=
  match eventWire t id with
  | .ok (some wire) => wire.length
  | _ => 0

variable (B) in
/-- The event loads as a verified stored event of the context. -/
def LoadsInContext (t : Tables) (context : ContextId) (id : EventId) (event : SignedEventV1) :
    Prop := loadVerifiedEvent B t id = .ok event ∧ event.body.context = context

variable (B) in
/-- The ancestors of the heads load as verified events of the context, there is no cycle among them,
and they stay within the limits. -/
structure Projectable (t : Tables) (context : ContextId) (heads : List EventId)
    (limits : ProjectionLimits) : Prop where
  loads : ∀ id, t.IsAncestor heads id → ∃ event, LoadsInContext B t context id event
  acyclic : ∀ id, t.IsAncestor heads id → ¬ TransGen t.HasEdge id id
  fits : ∀ ids : List EventId, ids.Nodup → (∀ id ∈ ids, t.IsAncestor heads id) →
    ids.length ≤ limits.maxEvents ∧ (ids.map t.storedBytes).sum ≤ limits.maxWireBytes

variable (B) in
/-- The events are the ancestors of the heads, each once and after its parents, with the sum of
their wires. -/
structure IsProjection (t : Tables) (context : ContextId) (heads : List EventId)
    (events : List SignedEventV1) (bytes : ℕ) : Prop where
  loaded : ∀ event ∈ events, LoadsInContext B t context event.eventId event
  nodup : (events.map SignedEventV1.eventId).Nodup
  mem : ∀ id, id ∈ events.map SignedEventV1.eventId ↔ t.IsAncestor heads id
  parentsFirst : ∀ before event after, events = before ++ event :: after →
    ∀ parent, t.HasEdge event.eventId parent → parent ∈ before.map SignedEventV1.eventId
  bytes_eq : bytes = (events.map fun event ↦ t.storedBytes event.eventId).sum

/-! ### Loaded events -/

/-- What is rechecked of a loaded event: its wire and its edges. -/
theorem loadVerifiedEvent_eq_ok {id : EventId} {event : SignedEventV1}
    (hok : loadVerifiedEvent B t id = .ok event) :
    event.eventId = id ∧ (∃ wire, eventWire t id = .ok (some wire) ∧ event.toWire B = .ok wire) ∧
      edgeRows t id = .ok event.body.parents := by
  obtain ⟨found, hfound, hrest⟩ := bind_eq_ok.mp hok
  obtain ⟨wire, hwire, hrest⟩ := bind_eq_ok.mp hrest
  obtain ⟨parsed, -, hrest⟩ := bind_eq_ok.mp hrest
  obtain ⟨hid, hrest⟩ := unit_bind_eq_ok.mp hrest
  obtain ⟨hvalid, hrest⟩ := unit_bind_eq_ok.mp hrest
  obtain rfl := Except.ok.inj hrest
  obtain rfl := required_eq_ok.mp hwire
  obtain rfl := ensure_eq_ok.mp hid
  refine ⟨rfl, ?_⟩
  unfold validateStoredEvent at hvalid
  unfold eventWire at hfound
  cases hrows : t.events.filter fun row ↦ row.eventId = cell parsed.eventId.bytes with
  | nil =>
    rw [hrows] at hvalid
    cases hvalid
  | cons row rest =>
    rw [hrows] at hvalid hfound
    dsimp only at hvalid hfound
    obtain ⟨storedContext, -, hvalid⟩ := bind_eq_ok.mp hvalid
    obtain ⟨storedAuthor, -, hvalid⟩ := bind_eq_ok.mp hvalid
    obtain ⟨storedKind, -, hvalid⟩ := bind_eq_ok.mp hvalid
    obtain ⟨storedWire, hstored, hvalid⟩ := bind_eq_ok.mp hvalid
    obtain ⟨-, hvalid⟩ := unit_bind_eq_ok.mp hvalid
    obtain ⟨rendered, hrendered, hvalid⟩ := bind_eq_ok.mp hvalid
    obtain ⟨hsame, hvalid⟩ := unit_bind_eq_ok.mp hvalid
    obtain ⟨parents, hparents, hvalid⟩ := bind_eq_ok.mp hvalid
    obtain rfl := ensure_eq_ok.mp hvalid
    obtain rfl := ensure_eq_ok.mp hsame
    refine ⟨⟨storedWire, ?_, mapError_eq_ok.mp hrendered⟩, hparents⟩
    obtain ⟨foundWire, hwire, hfound⟩ := bind_eq_ok.mp hfound
    obtain ⟨hrest, -⟩ := unit_bind_eq_ok.mp hfound
    rw [eventWire, hrows]
    dsimp only
    rw [hstored, ok_bind, hrest, ok_bind]

/-- The edges of a loaded event lead to its parents. -/
theorem hasEdge_loaded {id : EventId} {event : SignedEventV1}
    (hok : loadVerifiedEvent B t id = .ok event) (parent : EventId) :
    t.HasEdge id parent ↔ parent ∈ event.body.parents := by
  obtain ⟨-, -, hedges⟩ := loadVerifiedEvent_eq_ok hok
  rw [mem_mapEach hedges]
  simp only [mem_sort, List.mem_filter, decide_eq_true_eq, idValue_eq_ok]
  exact exists_congr fun row ↦ (and_assoc).symm

theorem storedBytes_loaded {id : EventId} {event : SignedEventV1}
    (hok : loadVerifiedEvent B t id = .ok event) : t.storedBytes id = wireLength B event := by
  obtain ⟨-, ⟨wire, hfound, hrendered⟩, -⟩ := loadVerifiedEvent_eq_ok hok
  rw [Tables.storedBytes, hfound]
  exact canonicalize_length (SignedEventV1.toWire_eq_ok.mp hrendered).2

/-! ### The walk -/

variable (B) in
/-- The graph of the loaded events of the context. -/
def loadedNode (t : Tables) (context : ContextId) (id : EventId) :
    Option (SignedEventV1 × List EventId) :=
  match loadVerifiedEvent B t id with
  | .ok event => if event.body.context = context then some (event, event.body.parents) else none
  | .error _ => none

theorem loadedNode_eq_some {id : EventId} {event : SignedEventV1} {parents : List EventId} :
    loadedNode B t context id = some (event, parents) ↔
      LoadsInContext B t context id event ∧ parents = event.body.parents := by
  unfold loadedNode LoadsInContext
  cases hload : loadVerifiedEvent B t id with
  | error error => simp
  | ok found =>
    dsimp only
    by_cases hcontext : found.body.context = context
    · rw [if_pos hcontext, Option.some.injEq, Prod.mk.injEq]
      constructor
      · rintro ⟨rfl, rfl⟩
        exact ⟨⟨rfl, hcontext⟩, rfl⟩
      · rintro ⟨⟨hsame, -⟩, rfl⟩
        obtain rfl := Except.ok.inj hsame
        exact ⟨rfl, rfl⟩
    · rw [if_neg hcontext]
      constructor
      · exact fun h ↦ nomatch h
      · rintro ⟨⟨hsame, hother⟩, -⟩
        obtain rfl := Except.ok.inj hsame
        exact absurd hother hcontext

theorem edge_loadedNode {child parent : EventId} :
    Edge (loadedNode B t context) child parent ↔
      (∃ event, LoadsInContext B t context child event) ∧ t.HasEdge child parent := by
  constructor
  · rintro ⟨event, parents, hnode, hparent⟩
    obtain ⟨hloads, rfl⟩ := loadedNode_eq_some.mp hnode
    exact ⟨⟨event, hloads⟩, (hasEdge_loaded hloads.1 parent).mpr hparent⟩
  · rintro ⟨⟨event, hloads⟩, hedge⟩
    exact ⟨event, event.body.parents, loadedNode_eq_some.mpr ⟨hloads, rfl⟩,
      (hasEdge_loaded hloads.1 parent).mp hedge⟩

/-- What the walk reaches lies above the heads. -/
theorem Tables.IsAncestor.of_reached {id : EventId}
    (hid : Reached (loadedNode B t context) heads id) : t.IsAncestor heads id := by
  obtain ⟨head, hhead, hpath⟩ := hid
  exact ⟨head, hhead, ReflTransGen.mono (fun _ _ hedge ↦ (edge_loadedNode.mp hedge).2) _ _ hpath⟩

/-- Where everything that is reached loads, all ancestors are reached. -/
theorem Tables.IsAncestor.reached {id : EventId} (hid : t.IsAncestor heads id)
    (hloads : ∀ id, Reached (loadedNode B t context) heads id →
      ∃ event, LoadsInContext B t context id event) :
    Reached (loadedNode B t context) heads id := by
  obtain ⟨head, hhead, hpath⟩ := hid
  induction hpath with
  | refl => exact Reached.head hhead
  | tail _ hedge ih => exact ih.edge (edge_loadedNode.mpr ⟨hloads _ ih, hedge⟩)

theorem visitEvent_loaded {usage : Usage} {id : EventId}
    {visited : Usage × SignedEventV1 × List EventId} :
    visitEvent B t context limits usage id = .ok visited ↔
      ∃ event, LoadsInContext B t context id event ∧ usage.events + 1 ≤ limits.maxEvents ∧
        usage.wireBytes + t.storedBytes id ≤ limits.maxWireBytes ∧
        visited = (charge B usage (id, event), event, event.body.parents) := by
  unfold visitEvent LoadsInContext
  cases hload : loadVerifiedEvent B t id with
  | error error => simp
  | ok event =>
    obtain ⟨-, ⟨wire, -, hrendered⟩, -⟩ := loadVerifiedEvent_eq_ok hload
    have hlength : wire.length = wireLength B event :=
      canonicalize_length (SignedEventV1.toWire_eq_ok.mp hrendered).2
    rw [ok_bind, unit_bind_eq_ok, ensure_eq_ok, hrendered, mapError_ok, ok_bind, unit_bind_eq_ok,
      ensure_eq_ok, Except.ok.injEq, hlength, storedBytes_loaded hload]
    constructor
    · rintro ⟨hcontext, ⟨hevents, hbytes⟩, rfl⟩
      exact ⟨event, ⟨rfl, hcontext⟩, hevents, hbytes, rfl⟩
    · rintro ⟨other, ⟨hsame, hcontext⟩, hevents, hbytes, rfl⟩
      obtain rfl := Except.ok.inj hsame
      exact ⟨hcontext, ⟨hevents, hbytes⟩, rfl⟩

theorem projector_loadedNode :
    (projector B t context limits).Loads (loadedNode B t context) (charge B) := by
  intro usage id via usage' event parents hvisit
  obtain ⟨other, hloads, -, -, heq⟩ := visitEvent_loaded.mp hvisit
  obtain ⟨rfl, rfl, rfl⟩ : usage' = _ ∧ event = _ ∧ parents = _ := by simpa using heq
  exact ⟨loadedNode_eq_some.mpr ⟨hloads, rfl⟩, rfl⟩

/-- The wires that were charged are those of the stored events. -/
theorem sum_wireLength {entered : List (EventId × SignedEventV1)}
    (hloaded : ∀ x ∈ entered, LoadsInContext B t context x.1 x.2) :
    (entered.map fun x ↦ wireLength B x.2).sum =
      ((entered.map Prod.fst).map t.storedBytes).sum := by
  rw [List.map_map]
  exact congrArg List.sum (List.map_congr_left fun x hx ↦
    (storedBytes_loaded (hloaded x hx).1).symm)

/-! ### Exactness -/

theorem Tables.IsAncestor.edge {child parent : EventId} (hchild : t.IsAncestor heads child)
    (hedge : t.HasEdge child parent) : t.IsAncestor heads parent := by
  obtain ⟨head, hhead, hpath⟩ := hchild
  exact ⟨head, hhead, hpath.tail hedge⟩

/-- What a projection that succeeds has listed. -/
theorem projectOn_listed {events : List SignedEventV1} {bytes : ℕ}
    (hok : projectOn B t context heads limits = .ok (events, bytes)) :
    IsProjection B t context heads events bytes ∧ Projectable B t context heads limits := by
  obtain ⟨-, hok⟩ := unit_bind_eq_ok.mp hok
  obtain ⟨-, hok⟩ := unit_bind_eq_ok.mp hok
  obtain ⟨progress, hrun, hok⟩ := bind_eq_ok.mp hok
  rw [Except.ok.injEq, Prod.mk.injEq] at hok
  obtain ⟨rfl, rfl⟩ := hok
  obtain ⟨hnodup, hmem, hfirst, entered, hperm, hacc⟩ :=
    Walker.run_sound projector_loadedNode hrun
  have hloaded : ∀ x ∈ progress.order, LoadsInContext B t context x.1 x.2 := by
    intro x hx
    obtain ⟨before, after, hsplit⟩ := List.append_of_mem hx
    obtain ⟨parents, hnode, -⟩ := hfirst before x after hsplit
    exact (loadedNode_eq_some.mp hnode).1
  have hid : ∀ x ∈ progress.order, x.2.eventId = x.1 :=
    fun x hx ↦ (loadVerifiedEvent_eq_ok (hloaded x hx).1).1
  have hids : (progress.order.map Prod.snd).map SignedEventV1.eventId =
      progress.order.map Prod.fst := by
    rw [List.map_map]
    exact List.map_congr_left hid
  have hloads : ∀ id, Reached (loadedNode B t context) heads id →
      ∃ event, LoadsInContext B t context id event := by
    intro id hreached
    obtain ⟨x, hx, rfl⟩ := List.mem_map.mp ((hmem id).mpr hreached)
    exact ⟨x.2, hloaded x hx⟩
  have hancestor : ∀ id, id ∈ progress.order.map Prod.fst ↔ t.IsAncestor heads id :=
    fun id ↦ (hmem id).trans ⟨.of_reached, fun hid ↦ hid.reached hloads⟩
  have hsum : progress.acc.wireBytes = ((progress.order.map Prod.fst).map t.storedBytes).sum := by
    rw [hacc, foldl_charge, (hperm.map fun x ↦ wireLength B x.2).sum_eq, sum_wireLength hloaded]
    exact Nat.zero_add _
  have hcount : progress.acc.events = (progress.order.map Prod.fst).length := by
    rw [hacc, foldl_charge, Nat.zero_add, hperm.length_eq, List.length_map]
  have hwithin := Walker.run_acc (w := projector B t context limits)
    (motive := fun usage ↦ usage.events ≤ limits.maxEvents ∧ usage.wireBytes ≤ limits.maxWireBytes)
    (fun usage id via usage' event parents hvisit _ ↦ by
      obtain ⟨other, hother, hevents, hbytes, heq⟩ := visitEvent_loaded.mp hvisit
      rw [storedBytes_loaded hother.1] at hbytes
      rw [(Prod.mk.inj heq).1]
      exact ⟨hevents, hbytes⟩) ⟨Nat.zero_le _, Nat.zero_le _⟩ hrun
  rw [hsum, hcount] at hwithin
  refine ⟨⟨fun event hevent ↦ ?_, ?_, fun id ↦ ?_, fun before event after hsplit parent hedge ↦ ?_,
    ?_⟩, ⟨fun id hid ↦ hloads id (hid.reached hloads), fun id hid hcycle ↦ ?_,
    fun ids hfresh hinside ↦ ?_⟩⟩
  · obtain ⟨x, hx, rfl⟩ := List.mem_map.mp hevent
    exact (hid x hx).symm ▸ hloaded x hx
  · rwa [hids]
  · rw [hids, hancestor]
  · obtain ⟨front, rest, horder, rfl, hrest⟩ := List.map_eq_append_iff.mp hsplit
    obtain ⟨x, back, rfl, rfl, rfl⟩ := List.map_eq_cons_iff.mp hrest
    have hlisted : x ∈ progress.order := horder ▸ List.mem_append_right _ List.mem_cons_self
    obtain ⟨parents, hnode, hbefore⟩ := hfirst front x back horder
    rw [hid x hlisted, hasEdge_loaded (hloaded x hlisted).1,
      ← (loadedNode_eq_some.mp hnode).2] at hedge
    rw [List.map_map]
    refine (List.map_congr_left (f := Prod.fst) fun y hy ↦ ?_) ▸ hbefore parent hedge
    exact (hid y (horder ▸ List.mem_append_left _ hy)).symm
  · rw [hsum, ← hids, List.map_map, List.map_map, List.map_map]
    rfl
  · -- along a cycle the position in the order would decrease
    have hdescends : ∀ other, TransGen t.HasEdge id other → t.IsAncestor heads other ∧
        (progress.order.map Prod.fst).idxOf other < (progress.order.map Prod.fst).idxOf id := by
      intro other hpath
      induction hpath with
      | single hedge =>
        exact ⟨hid.edge hedge, hfirst.idxOf_lt ((hancestor _).mpr hid)
          (edge_loadedNode.mpr ⟨hloads _ (hid.reached hloads), hedge⟩)⟩
      | tail _ hedge ih =>
        exact ⟨ih.1.edge hedge, (hfirst.idxOf_lt ((hancestor _).mpr ih.1)
          (edge_loadedNode.mpr ⟨hloads _ (ih.1.reached hloads), hedge⟩)).trans ih.2⟩
    exact lt_irrefl _ (hdescends id hcycle).2
  · have hsub : ids.Subperm (progress.order.map Prod.fst) :=
      List.subperm_of_subset hfresh fun id hid ↦ (hancestor id).mpr (hinside id hid)
    obtain ⟨part, hpart, hfront⟩ := hsub
    refine ⟨hpart.length_eq.symm.trans_le (hfront.length_le.trans hwithin.1), ?_⟩
    rw [← (hpart.map t.storedBytes).sum_eq]
    exact ((hfront.map _).sum_le_sum fun _ _ ↦ Nat.zero_le _).trans hwithin.2

/-- Over projectable heads the projection succeeds. -/
theorem projectOn_of_projectable (hlimits : validateProjectionLimits limits = .ok ())
    (hheads : heads ≠ [] ∧ heads.length ≤ MAX_BUNDLE_EVENTS)
    (h : Projectable B t context heads limits) :
    ∃ out, projectOn B t context heads limits = .ok out := by
  have hrun : ∃ p, (projector B t context limits).run (enters none heads) (.start ⟨0, 0⟩) =
      .ok p := by
    refine Walker.run_complete projector_loadedNode (fun id hid hcycle ↦ ?_)
      fun entered id via hnodup hentered hfresh hid error hrefused ↦ ?_
    · exact h.acyclic id (.of_reached hid)
        (TransGen.mono (fun _ _ hedge ↦ (edge_loadedNode.mp hedge).2) _ _ hcycle)
    · -- the event loads, and with what was entered before it stays within the limits
      obtain ⟨event, hevent⟩ := h.loads id (.of_reached hid)
      have hloaded : ∀ x ∈ entered, LoadsInContext B t context x.1 x.2 := by
        intro x hx
        obtain ⟨-, parents, hnode⟩ := hentered x hx
        exact (loadedNode_eq_some.mp hnode).1
      have hfits := h.fits (entered.map Prod.fst ++ [id])
        (hnodup.append (List.nodup_singleton _) (List.disjoint_singleton.mpr hfresh))
        fun other hother ↦ by
          rcases List.mem_append.mp hother with hother | hother
          · obtain ⟨x, hx, rfl⟩ := List.mem_map.mp hother
            exact .of_reached (hentered x hx).1
          · exact List.mem_singleton.mp hother ▸ .of_reached hid
      rw [List.length_append, List.length_map, List.length_singleton, List.map_append,
        List.sum_append, List.map_singleton, List.sum_singleton, ← sum_wireLength hloaded] at hfits
      have hok : visitEvent B t context limits (entered.foldl (charge B) ⟨0, 0⟩) id = .ok _ :=
        visitEvent_loaded.mpr ⟨event, hevent, by
          rw [foldl_charge, Nat.zero_add]
          exact hfits.1, by
          rw [foldl_charge]
          dsimp only
          rw [Nat.zero_add]
          exact hfits.2, rfl⟩
      cases hok.symm.trans hrefused
  obtain ⟨progress, hrun⟩ := hrun
  exact ⟨_, unit_bind_eq_ok.mpr ⟨hlimits, unit_bind_eq_ok.mpr ⟨ensure_eq_ok.mpr hheads,
    bind_eq_ok.mpr ⟨progress, hrun, rfl⟩⟩⟩⟩

/-- A projection that stops at a cycle has found one above its heads. -/
theorem projectOn_cycle (hlimits : validateProjectionLimits limits = .ok ())
    (hheads : heads ≠ [] ∧ heads.length ≤ MAX_BUNDLE_EVENTS)
    (hfails : projectOn B t context heads limits = .error .projectionCycle) :
    ∃ id, t.IsAncestor heads id ∧ TransGen t.HasEdge id id := by
  rw [projectOn, hlimits, ok_bind, ensure_true hheads, ok_bind] at hfails
  cases hrun : (projector B t context limits).run (enters none heads) (.start ⟨0, 0⟩) with
  | ok progress =>
    rw [hrun] at hfails
    cases hfails
  | error error =>
    rw [hrun, error_bind, Except.error.injEq] at hfails
    subst hfails
    rcases Walker.run_error projector_loadedNode (Invariant.start _ _ _ none _) hrun with
      ⟨id, hid, hcycle⟩ | ⟨entered, id, via, -, -, -, -, hrefused⟩
    · exact ⟨id, .of_reached hid,
        TransGen.mono (fun _ _ hedge ↦ (edge_loadedNode.mp hedge).2) _ _ hcycle⟩
    · exact absurd hrefused (visitEvent_ne_cycle _ _ _ id)

/-- The projection of tables of any content. It succeeds exactly when the ancestors of the heads
load as verified events of the context, have no cycle and stay within the limits; it then lists each
of them once, after its parents, with the sum of their wires; and it reports a cycle only where one
lies above the heads. -/
theorem projectOn_exact (B : Boundary) (t : Tables) (context : ContextId) (heads : List EventId)
    (hheads : heads ≠ [] ∧ heads.length ≤ MAX_BUNDLE_EVENTS) (limits : ProjectionLimits)
    (hlimits : validateProjectionLimits limits = .ok ()) :
    ((∃ out, projectOn B t context heads limits = .ok out) ↔
      Projectable B t context heads limits) ∧
    (∀ events bytes, projectOn B t context heads limits = .ok (events, bytes) →
      IsProjection B t context heads events bytes) ∧
    (projectOn B t context heads limits = .error .projectionCycle →
      ∃ id, t.IsAncestor heads id ∧ TransGen t.HasEdge id id) := by
  refine ⟨⟨?_, projectOn_of_projectable hlimits hheads⟩,
    fun events bytes hok ↦ (projectOn_listed hok).1, projectOn_cycle hlimits hheads⟩
  rintro ⟨⟨events, bytes⟩, hok⟩
  exact (projectOn_listed hok).2

section Golden

open Reference Golden

/-- The projection of the request over the store that holds it and its genesis. -/
theorem projectOn_exact_advanced : ∃ events bytes,
    projectOn Golden.B advanced.tables Golden.context [second.id] .default = .ok (events, bytes) ∧
      IsProjection Golden.B advanced.tables Golden.context [second.id] events bytes := by
  have hheads : [second.id] ≠ [] ∧ [second.id].length ≤ MAX_BUNDLE_EVENTS :=
    ⟨List.cons_ne_nil _ _, (by decide : 1 ≤ MAX_BUNDLE_EVENTS)⟩
  have hheld : ∀ head ∈ [second.id], advanced.Holds Golden.context head := fun head hhead ↦
    List.mem_singleton.mp hhead ▸
      ⟨second, List.mem_append_right _ (List.mem_singleton_self _), rfl, rfl⟩
  have hfew : advanced.events.length ≤ 32 := by decide
  obtain ⟨⟨events, bytes⟩, hok⟩ := advanced_wellFormed.closed.projectOn_succeeds
    advanced_wellFormed.reads advanced_wellFormed.acyclic rfl hheads hheld
    (Ledger.fits_of_few advanced_wellFormed.toWellKeyed hfew)
  exact ⟨events, bytes, hok, (projectOn_exact Golden.B advanced.tables Golden.context [second.id]
    hheads .default rfl).2.1 events bytes hok⟩

end Golden

end ContextMesh.Store
