import ContextMesh.Delta.Closure
import ContextMesh.Ledger.Transfer

/-!
What a closed selection holds. The walk over the store gathers the ancestry of the selected events;
the check of the gathered nodes finds nothing; coverage then adds the critical candidates that are
not ancestors, without their own parents and without regard to the limits.
-/

set_option autoImplicit false
set_option relaxedAutoImplicit false

namespace ContextMesh.Delta

open Checked Ordered Keyed Contract Relation Traversal Store Ledger

variable {B : Boundary}

section Survey

variable {parents : EventId → Option (List EventId)} {maxEvents : ℕ}

/-- The parents of an event that are nodes. -/
def knownParents (parents : EventId → Option (List EventId)) (id : EventId) : List EventId :=
  ((parents id).getD []).filter fun parent ↦ (parents parent).isSome

/-- The survey as a walk that stops at a cycle and at the bound. -/
def surveyor (parents : EventId → Option (List EventId)) (maxEvents : ℕ) :
    Walker EventId (List EventId) Unit Unit where
  visit closed id _ :=
    if closed.length ≥ maxEvents then .error ()
    else .ok (closed ++ [id], (), knownParents parents id)
  fuel closed := maxEvents - closed.length
  fuel_lt := by
    intro closed id _ closed' u known h
    split_ifs at h with hfull
    rw [Except.ok.injEq, Prod.mk.injEq] at h
    rw [← h.1, List.length_append, List.length_singleton]
    omega
  cycle _ := ()

/-- The graph of the known parents. -/
def knownGraph (parents : EventId → Option (List EventId)) (id : EventId) :
    Option (Unit × List EventId) := some ((), knownParents parents id)

theorem surveyor_loads :
    (surveyor parents maxEvents).Loads (knownGraph parents) fun closed x ↦ closed ++ [x.1] := by
  intro closed id _ closed' u known h
  unfold surveyor at h
  dsimp only at h
  split_ifs at h
  rw [Except.ok.injEq, Prod.mk.injEq, Prod.mk.injEq] at h
  exact ⟨by rw [knownGraph, h.2.2], h.1.symm⟩

theorem foldl_closed (entered : List (EventId × Unit)) (base : List EventId) :
    entered.foldl (fun closed x ↦ closed ++ [x.1]) base = base ++ entered.map Prod.fst := by
  induction entered generalizing base with
  | nil => rw [List.foldl_nil, List.map_nil, List.append_nil]
  | cons x rest ih =>
    rw [List.foldl_cons, ih, List.map_cons, List.append_assoc, List.singleton_append]

/-- Where no parent is missing, a walk that completes is what the survey does. -/
theorem survey_of_run {base : List EventId} {heads : List EventId}
    (hknown : ∀ id ps, parents id = some ps → ∀ parent ∈ ps, (parents parent).isSome = true)
    {stack : List (Frame EventId Unit)} {p p' : Progress EventId (List EventId) Unit}
    (h : Invariant (knownGraph parents) (fun closed x ↦ closed ++ [x.1]) base heads stack p)
    (hrun : (surveyor parents maxEvents).run stack p = .ok p') {s : Survey}
    (hcolor : s.color = p.color) (hclosed : s.closed = p.acc) :
    survey parents maxEvents stack s =
      { s with color := p'.color, closed := p'.acc } := by
  induction stack, p using Walker.run.induct (surveyor parents maxEvents) generalizing s with
  | case1 p =>
    rw [Walker.run, Except.ok.injEq] at hrun
    subst hrun
    rw [survey, ← hcolor, ← hclosed]
  | case2 id u rest p hgrey ih =>
    rw [Walker.run, if_pos hgrey] at hrun
    rw [survey]
    exact ih h.close hrun (congrArg (Function.update · id .black) hcolor) hclosed
  | case3 id u rest p hgrey ih =>
    exact absurd ((h.grey_iff id).mpr (by simp [opened])) hgrey
  | case4 id via rest p hblack ih =>
    rw [Walker.run, hblack] at hrun
    rw [survey, hcolor, hblack]
    exact ih (h.skip hblack) hrun hcolor hclosed
  | case5 id via rest p hgrey =>
    rw [Walker.run, hgrey] at hrun
    cases hrun
  | case6 id via rest p hwhite e hvisit =>
    rw [Walker.run_refused hwhite hvisit] at hrun
    cases hrun
  | case7 id via rest p hwhite closed u known hvisit hlt ih =>
    rw [Walker.run_visit hwhite hvisit] at hrun
    obtain ⟨hnode, rfl⟩ := surveyor_loads _ _ _ _ _ _ hvisit
    obtain ⟨-, rfl⟩ := Prod.mk.inj (Option.some.inj hnode)
    have hroom : ¬ s.closed.length ≥ maxEvents := by
      intro hfull
      rw [hclosed] at hfull
      change (if p.acc.length ≥ maxEvents then _ else _) = _ at hvisit
      rw [if_pos hfull] at hvisit
      cases hvisit
    have hnone : ((parents id).getD []).filter (fun parent ↦ !(parents parent).isSome) = [] := by
      refine List.filter_eq_nil_iff.mpr fun parent hparent ↦ ?_
      cases hfound : parents id with
      | none =>
        rw [hfound] at hparent
        exact absurd hparent List.not_mem_nil
      | some ps =>
        rw [hfound] at hparent
        rw [hknown id ps hfound parent hparent]
        decide
    rw [survey, hcolor, hwhite]
    dsimp only
    rw [dif_neg hroom, List.partition_eq_filter_filter]
    dsimp only
    rw [show (((parents id).getD []).filter (not ∘ fun parent ↦ (parents parent).isSome)) = [] from
      hnone, List.reverse_nil, List.map_nil, List.append_nil]
    exact ih (h.open hwhite hnode) hrun rfl (congrArg (· ++ [id]) hclosed)

end Survey

/-! ### Explicit nodes -/

section Nodes

variable {nodes : List EventNode}

theorem parentsOf_eq_some (hnodup : (nodes.map EventNode.event).Nodup) {id : EventId}
    {parents : List EventId} : parentsOf B nodes id = some parents ↔
      ∃ node ∈ nodes, node.event = id ∧ normalize (EventId.text B) node.parents = parents := by
  have hreverse : (nodes.reverse.map EventNode.event).Nodup := by
    rw [List.map_reverse]
    exact List.nodup_reverse.mpr hnodup
  rw [parentsOf, Option.map_eq_some_iff]
  constructor
  · rintro ⟨node, hfind, hparents⟩
    obtain ⟨hmem, hid⟩ := (find_key_eq_some hreverse).mp hfind
    exact ⟨node, List.mem_reverse.mp hmem, hid, hparents⟩
  · rintro ⟨node, hmem, hid, hparents⟩
    exact ⟨node, (find_key_eq_some hreverse).mpr ⟨List.mem_reverse.mpr hmem, hid⟩, hparents⟩

theorem parentsOf_isSome (hnodup : (nodes.map EventNode.event).Nodup) {id : EventId} :
    (parentsOf B nodes id).isSome = true ↔ id ∈ nodes.map EventNode.event := by
  rw [Option.isSome_iff_exists, List.mem_map]
  constructor
  · rintro ⟨parents, hparents⟩
    obtain ⟨node, hmem, hid, -⟩ := (parentsOf_eq_some hnodup).mp hparents
    exact ⟨node, hmem, hid⟩
  · rintro ⟨node, hmem, hid⟩
    exact ⟨_, (parentsOf_eq_some hnodup).mpr ⟨node, hmem, hid, rfl⟩⟩

/-- The closure of nodes that hold their own parents, without a cycle and within the bound, is all
of them. -/
theorem closeOver_eq (hnodup : (nodes.map EventNode.event).Nodup)
    (hparents : ∀ node ∈ nodes, ∀ parent ∈ node.parents, parent ∈ nodes.map EventNode.event)
    (hacyclic : ∀ id, ¬ TransGen (fun child parent ↦
      ∃ node ∈ nodes, node.event = child ∧ parent ∈ node.parents) id id)
    {limits : ClosureLimits} (hcount : nodes.length ≤ limits.maxEvents) :
    closeOver B nodes limits =
      ⟨normalize (EventId.text B) (nodes.map EventNode.event), [], false, false⟩ := by
  have hknown : ∀ id ps, parentsOf B nodes id = some ps → ∀ parent ∈ ps,
      (parentsOf B nodes parent).isSome = true := by
    intro id ps hps parent hparent
    obtain ⟨node, hmem, -, rfl⟩ := (parentsOf_eq_some hnodup).mp hps
    exact (parentsOf_isSome hnodup).mpr (hparents node hmem parent (mem_normalize.mp hparent))
  have hedge : ∀ {child parent}, Edge (knownGraph (parentsOf B nodes)) child parent →
      ∃ node ∈ nodes, node.event = child ∧ parent ∈ node.parents := by
    rintro child parent ⟨u, ps, hnode, hparent⟩
    obtain ⟨-, rfl⟩ := Prod.mk.inj (Option.some.inj hnode)
    have hparent := List.mem_of_mem_filter hparent
    cases hfound : parentsOf B nodes child with
    | none =>
      rw [hfound] at hparent
      exact absurd hparent List.not_mem_nil
    | some ps =>
      obtain ⟨node, hmem, hid, rfl⟩ := (parentsOf_eq_some hnodup).mp hfound
      rw [hfound] at hparent
      exact ⟨node, hmem, hid, mem_normalize.mp hparent⟩
  have hreached : ∀ {id}, Reached (knownGraph (parentsOf B nodes))
      (normalize (EventId.text B) (nodes.map EventNode.event)) id ↔
        id ∈ nodes.map EventNode.event := by
    intro id
    constructor
    · rintro ⟨head, hhead, hpath⟩
      induction hpath with
      | refl => exact mem_normalize.mp hhead
      | tail _ hlast _ =>
        obtain ⟨node, hmem, -, hparent⟩ := hedge hlast
        exact hparents node hmem _ hparent
    · exact fun hid ↦ Reached.head (mem_normalize.mpr hid)
  have hrun : ∃ p, (surveyor (parentsOf B nodes) limits.maxEvents).run
      (enters none (normalize (EventId.text B) (nodes.map EventNode.event))) (.start []) =
        .ok p := by
    refine Walker.run_complete surveyor_loads (fun id _ hcycle ↦ ?_)
      fun entered id via hfresh hentered hnew hid error hrefused ↦ ?_
    · exact hacyclic id (TransGen.mono (fun _ _ ↦ hedge) _ _ hcycle)
    · -- A visit meets an event that is not closed yet, so the bound is not reached.
      have hroom : entered.length < limits.maxEvents := by
        have hsub : (id :: entered.map Prod.fst).Subperm (nodes.map EventNode.event) := by
          refine List.subperm_of_subset (List.nodup_cons.mpr ⟨hnew, hfresh⟩) fun other hother ↦ ?_
          rcases List.mem_cons.mp hother with rfl | hother
          · exact hreached.mp hid
          · obtain ⟨x, hx, rfl⟩ := List.mem_map.mp hother
            exact hreached.mp (hentered x hx).1
        have hlength := hsub.length_le
        rw [List.length_cons, List.length_map, List.length_map] at hlength
        omega
      rw [foldl_closed] at hrefused
      change (if (([] : List EventId) ++ entered.map Prod.fst).length ≥ limits.maxEvents then _
        else _) = _ at hrefused
      rw [List.nil_append, List.length_map, if_neg (Nat.not_le.mpr hroom)] at hrefused
      cases hrefused
  obtain ⟨p, hrun⟩ := hrun
  have hsurvey := survey_of_run hknown (Invariant.start _ _ [] none _) hrun
    (s := ⟨fun _ ↦ .white, [], [], false, false⟩) rfl rfl
  obtain ⟨-, hmem, -, entered, hperm, hacc⟩ := Walker.run_sound surveyor_loads hrun
  have hclosed : normalize (EventId.text B) p.acc =
      normalize (EventId.text B) (nodes.map EventNode.event) := by
    refine normalize_congr EventId.text_injective fun id ↦ ?_
    rw [hacc, foldl_closed, List.nil_append, (hperm.map Prod.fst).mem_iff, hmem, hreached]
  rw [closeOver, hsurvey, hclosed]
  rfl

end Nodes

/-! ### Loaded nodes -/

/-- The canonical payload bytes of a stored event. -/
def payloadBytes (e : StoredEvent B) : ℕ := canonicalLength B e.event.body.payload

theorem payload_ok (e : StoredEvent B) : ∃ bytes,
    canonicalPayloadBytes B e.event.body.payload = .ok bytes ∧ bytes.length = payloadBytes e := by
  obtain ⟨-, -, -, -, hvalid, hlength, -⟩ := EventBodyV1.validate_eq_ok.mp e.valid
  obtain ⟨bytes, hbytes⟩ := canonicalize_total (B := B) e.event.body.payload
  have hsize := canonicalize_length hbytes
  refine ⟨bytes, ?_, hsize⟩
  rw [canonicalPayloadBytes, hvalid, ok_bind, hbytes, ok_bind, ensure_true (hsize ▸ hlength),
    ok_bind]

/-- The node of a stored event. -/
def nodeOf (e : StoredEvent B) : EventNode := ⟨e.id, e.parents⟩

variable (B) in
/-- What a loaded event adds. -/
def gather (loaded : Loaded) (x : EventId × SignedEventV1) : Loaded :=
  ⟨loaded.nodes ++ [⟨x.1, x.2.body.parents⟩],
    loaded.totalBytes + canonicalLength B x.2.body.payload⟩

theorem foldl_gather (es : List (StoredEvent B)) (loaded : Loaded) :
    (es.map fun e ↦ (e.id, e.event)).foldl (gather B) loaded =
      ⟨loaded.nodes ++ es.map nodeOf, loaded.totalBytes + (es.map payloadBytes).sum⟩ := by
  induction es generalizing loaded with
  | nil => simp
  | cons e rest ih =>
    rw [List.map_cons, List.foldl_cons, ih, gather, List.map_cons, List.map_cons, List.sum_cons,
      List.append_assoc, List.singleton_append, Nat.add_assoc]
    rfl

section Load

variable {L : Ledger B} {context : ContextId} {limits : ClosureLimits}

theorem visitNode_eq_ok (h : L.WellKeyed) {loaded : Loaded} {id : EventId}
    {child : Option EventId} {visited : Loaded × SignedEventV1 × List EventId} :
    visitNode B L.tables context limits loaded id child = .ok visited ↔
      ∃ e, inContext L.find context id = some e ∧ loaded.nodes.length + 1 ≤ limits.maxEvents ∧
        loaded.totalBytes + payloadBytes e ≤ limits.maxExportedBytes ∧
        visited = (gather B loaded (id, e.event), e.event, e.parents) := by
  rw [visitNode, unit_bind_eq_ok, ensure_eq_ok, event_tables h, mapError_ok, ok_bind]
  simp only [inContext_eq_some]
  cases hfind : L.find id with
  | none => simp
  | some e =>
    obtain ⟨bytes, hbytes, hlength⟩ := payload_ok e
    rw [Option.map_some, required_some, ok_bind, unit_bind_eq_ok, ensure_eq_ok, hbytes, mapError_ok,
      ok_bind, unit_bind_eq_ok, ensure_eq_ok, Except.ok.injEq, hlength]
    constructor
    · rintro ⟨hroom, hcontext, hfits, rfl⟩
      exact ⟨e, ⟨rfl, hcontext⟩, by omega, hfits, rfl⟩
    · rintro ⟨f, ⟨hf, hcontext⟩, hroom, hfits, rfl⟩
      obtain rfl := Option.some.inj hf
      exact ⟨by omega, hcontext, hfits, rfl⟩

theorem loader_loads (h : L.WellKeyed) :
    (loader B L.tables context limits).Loads (graph (inContext L.find context)) (gather B) := by
  intro loaded id child loaded' event parents hvisit
  obtain ⟨e, he, -, -, heq⟩ := (visitNode_eq_ok h).mp hvisit
  obtain ⟨rfl, rfl, rfl⟩ : loaded' = _ ∧ event = _ ∧ parents = _ := by simpa using heq
  exact ⟨by rw [graph, he, Option.map_some], rfl⟩

theorem payloadBytes_le (e : StoredEvent B) : payloadBytes e ≤ MAX_CANONICAL_PAYLOAD_BYTES := by
  obtain ⟨-, -, -, -, -, hbound, -⟩ := EventBodyV1.validate_eq_ok.mp e.valid
  exact hbound

variable (B) in
/-- The stored events with the property stay within the limits, in number and in payload bytes. -/
def WithinLimits (t : Tables) (limits : ClosureLimits) (inside : EventId → Prop) : Prop :=
  ∀ es : List (StoredEvent B), (es.map StoredEvent.id).Nodup →
    (∀ e ∈ es, e.row ∈ t.events ∧ inside e.id) →
      es.length ≤ limits.maxEvents ∧ (es.map payloadBytes).sum ≤ limits.maxExportedBytes

/-- Stored events are within the limits when a list that has them all is. -/
theorem WithinLimits.of_covered {inside : EventId → Prop} {all : List (StoredEvent B)}
    (hcover : ∀ e ∈ L.events, inside e.id → e ∈ all) (hlength : all.length ≤ limits.maxEvents)
    (hbytes : (all.map payloadBytes).sum ≤ limits.maxExportedBytes) :
    WithinLimits B L.tables limits inside := by
  intro part hpart hinside
  obtain ⟨front, hperm, hfront⟩ : part.Subperm all :=
    List.subperm_of_subset (List.Nodup.of_map _ hpart) fun e he ↦
      hcover e (mem_tables_events.mp (hinside e he).1) (hinside e he).2
  refine ⟨hperm.length_eq.symm.trans_le (hfront.length_le.trans hlength), ?_⟩
  rw [← (hperm.map payloadBytes).sum_eq]
  exact ((hfront.map _).sum_le_sum fun _ _ ↦ Nat.zero_le _).trans hbytes

/-- A list of all stored events with a property decides whether they stay within the limits. -/
theorem withinLimits_iff (h : L.WellKeyed) {inside : EventId → Prop} {es : List (StoredEvent B)}
    (hstored : ∀ e ∈ es, e ∈ L.events) (hnodup : (es.map StoredEvent.id).Nodup)
    (hmem : ∀ id, id ∈ es.map StoredEvent.id ↔ inside id) :
    WithinLimits B L.tables limits inside ↔
      es.length ≤ limits.maxEvents ∧ (es.map payloadBytes).sum ≤ limits.maxExportedBytes := by
  constructor
  · intro hwithin
    exact hwithin es hnodup fun e he ↦
      ⟨mem_tables_events.mpr (hstored e he), (hmem e.id).mp (List.mem_map_of_mem he)⟩
  · rintro ⟨hlength, hbytes⟩
    refine .of_covered (fun e he hinside ↦ ?_) hlength hbytes
    obtain ⟨f, hf, hid⟩ := List.mem_map.mp ((hmem e.id).mpr hinside)
    exact h.event_eq_of_id (hstored f hf) he hid ▸ hf

variable {selected : List EventId}

/-- What a completed load has gathered: the ancestry of the selection, within the limits. -/
theorem loadClosureNodes_eq_ok (h : L.WellFormed) {nodes : List EventNode}
    (hok : loadClosureNodes B L.tables context selected limits = .ok nodes) :
    ∃ es : List (StoredEvent B), nodes = es.map nodeOf ∧
      (∀ e ∈ es, e ∈ L.events ∧ e.context = context) ∧ (es.map StoredEvent.id).Nodup ∧
      (∀ id, id ∈ es.map StoredEvent.id ↔ L.Below selected id) ∧
      es.length ≤ limits.maxEvents ∧ (es.map payloadBytes).sum ≤ limits.maxExportedBytes := by
  obtain ⟨progress, hrun, hok⟩ := bind_eq_ok.mp hok
  rw [Except.ok.injEq] at hok
  obtain ⟨hnodup, hmem, hfirst, entered, hperm, hacc⟩ :=
    Walker.run_sound (loader_loads h.toWellKeyed) hrun
  have hidentity {id : EventId} {e : StoredEvent B}
      (he : inContext L.find context id = some e) :
      e ∈ L.events ∧ e.id = id ∧ e.context = context :=
    have hfind := h.find_eq_some.mp (inContext_eq_some.mp he).1
    ⟨hfind.1, hfind.2, (inContext_eq_some.mp he).2⟩
  obtain ⟨es, rfl, hfound⟩ := exists_events (fun he ↦ (hidentity he).2.1) fun x hx ↦ by
    obtain ⟨before, after, hsplit⟩ := List.append_of_mem (hperm.mem_iff.mp hx)
    obtain ⟨parents, hnode, -⟩ := hfirst before x after hsplit
    exact ⟨parents, hnode⟩
  have hids : (es.map fun e ↦ (e.id, e.event)).map Prod.fst = es.map StoredEvent.id := by
    rw [List.map_map]
    rfl
  have hreached : ∀ id, id ∈ es.map StoredEvent.id ↔
      Reached (graph (inContext L.find context)) selected id := fun id ↦ by
    rw [← hids, (hperm.map Prod.fst).mem_iff, hmem]
  have hheads : ∀ head ∈ selected, L.Holds context head := by
    intro head hhead
    obtain ⟨e, he, rfl⟩ := List.mem_map.mp ((hreached head).mpr (Reached.head hhead))
    obtain ⟨hstored, -, hcontext⟩ := hidentity (hfound e he)
    exact ⟨e, hstored, rfl, hcontext⟩
  have hwithin := Walker.run_acc (w := loader B L.tables context limits)
    (motive := fun loaded ↦ loaded.nodes.length ≤ limits.maxEvents ∧
      loaded.totalBytes ≤ limits.maxExportedBytes)
    (fun loaded id child loaded' event parents hvisit _ ↦ by
      obtain ⟨e, -, hroom, hbytes, heq⟩ := (visitNode_eq_ok h.toWellKeyed).mp hvisit
      rw [(Prod.mk.inj heq).1]
      refine ⟨?_, hbytes⟩
      rwa [gather, List.length_append, List.length_singleton]) ⟨Nat.zero_le _, Nat.zero_le _⟩ hrun
  rw [hacc, foldl_gather, List.nil_append, List.length_map, Nat.zero_add] at hwithin
  refine ⟨es, ?_, fun e he ↦ ?_, ?_, fun id ↦ ?_, hwithin⟩
  · rw [← hok, hacc, foldl_gather, List.nil_append]
  · obtain ⟨hstored, -, hcontext⟩ := hidentity (hfound e he)
    exact ⟨hstored, hcontext⟩
  · rw [← hids]
    exact ((hperm.map Prod.fst).nodup_iff).mpr hnodup
  · rw [hreached, h.closed.reached_inContext hheads]
    rfl

/-- Over held heads a load fails only at its limits. -/
theorem loadClosureNodes_error (h : L.WellFormed)
    (hheads : ∀ head ∈ selected, L.Holds context head) {error : ClosureError}
    (hfails : loadClosureNodes B L.tables context selected limits = .error error) :
    error = .limitExceeded := by
  unfold loadClosureNodes at hfails
  cases hrun : (loader B L.tables context limits).run (enters none selected) (.start ⟨[], 0⟩) with
  | ok progress =>
    rw [hrun, ok_bind] at hfails
    cases hfails
  | error refused =>
    rw [hrun, error_bind, Except.error.injEq] at hfails
    subst hfails
    have hheld {id : EventId}
        (hid : Reached (graph (inContext L.find context)) selected id) : L.Holds context id := by
      obtain ⟨head, hhead, hancestor⟩ := (h.closed.reached_inContext hheads).mp hid
      exact h.holds_ancestor (hheads head hhead) hancestor
    rcases Walker.run_error (loader_loads h.toWellKeyed) (Invariant.start _ _ _ none _) hrun with
      ⟨id, -, hcycle⟩ | ⟨entered, id, via, -, -, -, hid, hvisit⟩
    · refine absurd (TransGen.mono (fun child parent hedge ↦ ?_) _ _ hcycle) (h.acyclic id)
      obtain ⟨e, he, hparent⟩ := edge_graph.mp hedge
      obtain ⟨hmem, hid⟩ := h.find_eq_some.mp (inContext_eq_some.mp he).1
      exact ⟨e, hmem, hid, hparent⟩
    · -- The event is stored in the context, so only a bound can refuse it.
      obtain ⟨e, he, hid, hcontext⟩ := hheld hid
      obtain ⟨bytes, hbytes, -⟩ := payload_ok e
      generalize entered.foldl (gather B) ⟨[], 0⟩ = loaded at hvisit
      change visitNode B L.tables context limits loaded id via = _ at hvisit
      rw [visitNode, event_tables h.toWellKeyed, h.find_eq_some.mpr ⟨he, hid⟩, Option.map_some,
        mapError_ok, ok_bind, required_some, ok_bind, ensure_true hcontext, ok_bind, hbytes,
        mapError_ok, ok_bind] at hvisit
      by_cases hroom : ¬ loaded.nodes.length ≥ limits.maxEvents
      · rw [ensure_true hroom, ok_bind] at hvisit
        dsimp only at hvisit
        by_cases hfits : loaded.totalBytes + bytes.length ≤ limits.maxExportedBytes
        · rw [ensure_true hfits, ok_bind] at hvisit
          cases hvisit
        · rw [ensure_false hfits, error_bind] at hvisit
          exact (Except.error.inj hvisit).symm
      · rw [ensure_false hroom, error_bind] at hvisit
        exact (Except.error.inj hvisit).symm

/-- The check of loaded nodes finds nothing: they are closed as they stand. -/
theorem closeCheck_eq_ok (h : L.WellFormed) {es : List (StoredEvent B)}
    (hstored : ∀ e ∈ es, e ∈ L.events ∧ e.context = context)
    (hnodup : (es.map StoredEvent.id).Nodup)
    (hmem : ∀ id, id ∈ es.map StoredEvent.id ↔ L.Below selected id)
    (hcount : es.length ≤ limits.maxEvents) : closeCheck B (es.map nodeOf) limits =
      .ok ⟨normalize (EventId.text B) (es.map StoredEvent.id), [], false, false⟩ := by
  have hevents : (es.map nodeOf).map EventNode.event = es.map StoredEvent.id := by
    rw [List.map_map]
    rfl
  have hclosed : closeOver B (es.map nodeOf) limits =
      ⟨normalize (EventId.text B) ((es.map nodeOf).map EventNode.event), [], false, false⟩ := by
    refine closeOver_eq (by rwa [hevents]) (fun node hnode parent hparent ↦ ?_)
      (fun id hcycle ↦ h.acyclic id ?_) (by rwa [List.length_map])
    · obtain ⟨e, he, rfl⟩ := List.mem_map.mp hnode
      obtain ⟨head, hhead, hbelow⟩ := (hmem e.id).mp (List.mem_map_of_mem he)
      rw [hevents, hmem]
      exact ⟨head, hhead, hbelow.trans (.of_parent ⟨e, (hstored e he).1, rfl, hparent⟩)⟩
    · refine TransGen.mono (fun child parent hedge ↦ ?_) _ _ hcycle
      obtain ⟨node, hnode, rfl, hparent⟩ := hedge
      obtain ⟨e, he, rfl⟩ := List.mem_map.mp hnode
      exact ⟨e, (hstored e he).1, rfl, hparent⟩
  rw [hevents] at hclosed
  rw [closeCheck, hclosed]
  rfl

/-! ### Coverage -/

variable {policy : CriticalPolicy}

variable (B) in
/-- The event has a row in the context, with a critical kind. -/
def Critical (t : Tables) (context : ContextId) (policy : CriticalPolicy) (id : EventId) : Prop :=
  ∃ e : StoredEvent B, e.row ∈ t.events ∧ e.id = id ∧ e.context = context ∧
    policy.isCritical e.kind = true

/-- The event is stored in the context, with a critical kind. -/
def IsCritical (L : Ledger B) (context : ContextId) (policy : CriticalPolicy) (id : EventId) :
    Prop :=
  ∃ e ∈ L.events, e.id = id ∧ e.context = context ∧ policy.isCritical e.kind = true

theorem critical_tables {id : EventId} :
    IsCritical L context policy id ↔ Critical B L.tables context policy id :=
  exists_congr fun _ ↦ and_congr_left fun _ ↦ mem_tables_events.symm

/-- What coverage does with one candidate: it passes a candidate that the search finds, and of the
others it adds those of a critical kind. -/
theorem coverCandidate_eq_ok (h : L.WellKeyed) {coverage next : Coverage} {id : EventId}
    (hok : coverCandidate B L.tables context policy coverage id = .ok next) :
    (binarySearch (EventId.text B) coverage.closed (id.text B) = true ∧ next = coverage) ∨
    (binarySearch (EventId.text B) coverage.closed (id.text B) = false ∧
      IsCritical L context policy id ∧
      next = ⟨coverage.closed ++ [id], coverage.addedCritical ++ [id]⟩) ∨
    (¬ IsCritical L context policy id ∧ next = coverage) := by
  unfold coverCandidate at hok
  by_cases hfound : binarySearch (EventId.text B) coverage.closed (id.text B) = true
  · rw [if_pos hfound, Except.ok.injEq] at hok
    exact Or.inl ⟨hfound, hok.symm⟩
  · rw [if_neg hfound, event_tables h, mapError_ok, ok_bind] at hok
    obtain ⟨event, hevent, hok⟩ := bind_eq_ok.mp hok
    obtain ⟨hcontext, hok⟩ := unit_bind_eq_ok.mp hok
    rw [ensure_eq_ok] at hcontext
    obtain ⟨e, hfind, rfl⟩ := Option.map_eq_some_iff.mp (required_eq_ok.mp hevent)
    obtain ⟨hmem, hid⟩ := h.find_eq_some.mp hfind
    by_cases hkind : policy.isCritical e.kind = true
    · rw [if_pos hkind, Except.ok.injEq] at hok
      exact Or.inr (Or.inl ⟨Bool.eq_false_of_not_eq_true hfound, ⟨e, hmem, hid, hcontext, hkind⟩,
        hok.symm⟩)
    · rw [if_neg hkind, Except.ok.injEq] at hok
      refine Or.inr (Or.inr ⟨?_, hok.symm⟩)
      rintro ⟨f, hf, hfid, -, hcritical⟩
      obtain rfl := h.event_eq_of_id hmem hf (hid.trans hfid.symm)
      exact absurd hcritical hkind

/-- Coverage adds critical candidates, and all of them that were not closed before. -/
theorem coverCandidates_eq_ok (h : L.WellKeyed) {candidates : List EventId}
    {coverage coverage' : Coverage}
    (hok : foldEach (coverCandidate B L.tables context policy) coverage candidates =
      .ok coverage') :
    ∃ added : List EventId, coverage'.closed = coverage.closed ++ added ∧
      coverage'.addedCritical = coverage.addedCritical ++ added ∧
      (∀ id ∈ added, id ∈ candidates ∧ IsCritical L context policy id) ∧
      ∀ id ∈ candidates, IsCritical L context policy id → id ∈ coverage'.closed := by
  induction candidates generalizing coverage with
  | nil =>
    rw [foldEach, Except.ok.injEq] at hok
    subst hok
    exact ⟨[], by rw [List.append_nil], by rw [List.append_nil], by simp, by simp⟩
  | cons id rest ih =>
    rw [foldEach, bind_eq_ok] at hok
    obtain ⟨next, hnext, hok⟩ := hok
    obtain ⟨added, hclosed, hadded, hcritical, hcovered⟩ := ih hok
    have hkept : ∀ other ∈ next.closed, other ∈ coverage'.closed := by
      intro other hother
      rw [hclosed]
      exact List.mem_append_left _ hother
    have hrest : ∀ other ∈ added, other ∈ id :: rest ∧ IsCritical L context policy other :=
      fun other hother ↦ ⟨List.mem_cons_of_mem _ (hcritical other hother).1,
        (hcritical other hother).2⟩
    rcases coverCandidate_eq_ok h hnext with ⟨hfound, rfl⟩ | ⟨-, hkind, rfl⟩ | ⟨hkind, rfl⟩
    · refine ⟨added, hclosed, hadded, hrest, List.forall_mem_cons.mpr ⟨fun _ ↦ ?_, hcovered⟩⟩
      obtain ⟨other, hother, htext⟩ := exists_of_binarySearch hfound
      exact hkept id (EventId.text_injective htext ▸ hother)
    · refine ⟨id :: added, ?_, ?_, List.forall_mem_cons.mpr ⟨⟨List.mem_cons_self, hkind⟩, hrest⟩,
        List.forall_mem_cons.mpr ⟨fun _ ↦ hkept id ?_, hcovered⟩⟩
      · rw [hclosed, List.append_assoc, List.singleton_append]
      · rw [hadded, List.append_assoc, List.singleton_append]
      · exact List.mem_append_right _ (List.mem_singleton_self _)
    · exact ⟨added, hclosed, hadded, hrest,
        List.forall_mem_cons.mpr ⟨fun hcritical ↦ absurd hcritical hkind, hcovered⟩⟩

/-- The reference of a stored event. -/
def referenceOf (e : StoredEvent B) : SourceReference :=
  ⟨e.id, e.context, e.kind, e.author, payloadBytes e⟩

/-- The export of identifiers lists the references of their events and sums their payloads. -/
theorem exportReferences_eq_ok (h : L.WellKeyed) {ids : List EventId}
    {exported : List SourceReference × ℕ} {out : List SourceReference × ℕ}
    (hok : foldEach (exportReference B L.tables) exported ids = .ok out) :
    ∃ es : List (StoredEvent B), es.map StoredEvent.id = ids ∧ (∀ e ∈ es, e ∈ L.events) ∧
      out = (exported.1 ++ es.map referenceOf, exported.2 + (es.map payloadBytes).sum) := by
  induction ids generalizing exported with
  | nil =>
    rw [foldEach, Except.ok.injEq] at hok
    exact ⟨[], rfl, by simp, by simp [← hok]⟩
  | cons id rest ih =>
    rw [foldEach, bind_eq_ok] at hok
    obtain ⟨next, hnext, hok⟩ := hok
    unfold exportReference at hnext
    rw [event_tables h, mapError_ok, ok_bind] at hnext
    obtain ⟨event, hevent, hnext⟩ := bind_eq_ok.mp hnext
    obtain ⟨e, hfind, rfl⟩ := Option.map_eq_some_iff.mp (required_eq_ok.mp hevent)
    obtain ⟨hmem, rfl⟩ := h.find_eq_some.mp hfind
    obtain ⟨bytes, hbytes, hlength⟩ := payload_ok e
    rw [SourceEvent.fromSigned, hbytes, ok_bind, mapError_ok, ok_bind, Except.ok.injEq, hlength]
      at hnext
    obtain ⟨es, hids, hstored, rfl⟩ := ih hok
    refine ⟨e :: es, congrArg (e.id :: ·) hids, List.forall_mem_cons.mpr ⟨hmem, hstored⟩, ?_⟩
    rw [← hnext, List.append_assoc, List.map_cons, List.map_cons, List.sum_cons, Nat.add_assoc]
    rfl

/-- What a closed selection holds: the ancestry of the selection and the critical candidates. -/
theorem closeSelection_eq_ok (h : L.WellFormed) {candidates : List EventId} {c : ClosedSelection}
    (hok : closeSelection B L.tables context selected candidates policy limits = .ok c) :
    ∃ es : List (StoredEvent B), c.references = es.map referenceOf ∧
      c.totalBytes = (es.map payloadBytes).sum ∧ (∀ e ∈ es, e ∈ L.events) ∧
      (es.map StoredEvent.id).Nodup ∧
      (∀ id, id ∈ es.map StoredEvent.id ↔
        L.Below selected id ∨ id ∈ candidates ∧ IsCritical L context policy id) ∧
      (∀ id ∈ es.map StoredEvent.id, L.Below selected id ∨ id ∈ c.addedCritical) ∧
      ∀ id ∈ c.addedCritical, id ∈ candidates ∧ IsCritical L context policy id := by
  obtain ⟨checked, hchecked, hok⟩ := bind_eq_ok.mp hok
  obtain ⟨-, hok⟩ := unit_bind_eq_ok.mp hok
  obtain ⟨nodes, hnodes, hok⟩ := bind_eq_ok.mp hok
  obtain ⟨report, hreport, hok⟩ := bind_eq_ok.mp hok
  obtain ⟨coverage, hcoverage, hok⟩ := bind_eq_ok.mp hok
  obtain ⟨⟨references, totalBytes⟩, hexport, hok⟩ := bind_eq_ok.mp hok
  rw [Except.ok.injEq] at hok
  subst hok
  obtain ⟨closed, rfl, hstored, hnodup, hmem, hcount, -⟩ := loadClosureNodes_eq_ok h hnodes
  rw [closeCheck_eq_ok h hstored hnodup hmem hcount, Except.ok.injEq] at hreport
  subst hreport
  obtain ⟨added, hclosed, hadded, hcritical, hcovered⟩ :=
    coverCandidates_eq_ok h.toWellKeyed hcoverage
  obtain ⟨es, hids, hheld, hout⟩ := exportReferences_eq_ok h.toWellKeyed hexport
  rw [List.nil_append, Nat.zero_add, Prod.mk.injEq] at hout
  rw [List.nil_append] at hadded
  have hlisted : ∀ id, id ∈ es.map StoredEvent.id ↔ L.Below selected id ∨ id ∈ added := fun id ↦ by
    rw [hids, mem_normalize, hclosed, List.mem_append, mem_normalize, hmem,
      Below.congr fun id ↦ mem_normalize]
  refine ⟨es, hout.1, hout.2, hheld, ?_, fun id ↦ ⟨fun hid ↦ ?_, ?_⟩, fun id hid ↦ ?_,
    fun id hid ↦ ?_⟩
  · rw [hids]
    exact (normalize_canonical EventId.text_injective _).nodup
  · refine ((hlisted id).mp hid).imp_right fun hid ↦ ?_
    exact ⟨mem_normalize.mp (hcritical id hid).1, (hcritical id hid).2⟩
  · rintro (hid | ⟨hid, hkind⟩)
    · exact (hlisted id).mpr (Or.inl hid)
    · rw [hids, mem_normalize]
      exact hcovered id (mem_normalize.mpr hid) hkind
  · refine ((hlisted id).mp hid).imp_right fun hid ↦ ?_
    rw [hadded]
    exact mem_normalize.mpr hid
  · rw [hadded] at hid
    have hid := mem_normalize.mp hid
    exact ⟨mem_normalize.mp (hcritical id hid).1, (hcritical id hid).2⟩

/-- A critical candidate is added to an empty selection, alone. -/
theorem closeSelection_nil (h : L.WellFormed) {e : StoredEvent B} (he : e ∈ L.events)
    (hkind : policy.isCritical e.kind = true)
    (hlimits : ClosureLimits.new limits.maxEvents limits.maxExportedBytes = .ok limits) :
    closeSelection B L.tables e.context [] [e.id] policy limits =
      .ok ⟨e.context, [referenceOf e], [], [e.id], payloadBytes e, limits⟩ := by
  have hevent : event B L.tables e.id = .ok (some e.event) := by
    rw [event_tables h.toWellKeyed, h.find_eq_some.mpr ⟨he, rfl⟩, Option.map_some]
  have hone : normalize (EventId.text B) [e.id] = [e.id] :=
    normalize_eq_self (canonical_singleton _ _)
  have hnodes : loadClosureNodes B L.tables e.context [] limits = .ok [] := by
    rw [loadClosureNodes, show enters none ([] : List EventId) = [] from rfl, Walker.run]
    rfl
  have hnothing : ∀ id, id ∈ ([] : List (StoredEvent B)).map StoredEvent.id ↔ L.Below [] id :=
    fun id ↦ by simp [Below]
  have hnone : ∀ f ∈ ([] : List (StoredEvent B)), f ∈ L.events ∧ f.context = e.context := by simp
  have hreport : closeCheck B [] limits = .ok ⟨[], [], false, false⟩ :=
    closeCheck_eq_ok h hnone List.nodup_nil hnothing (Nat.zero_le _)
  have hcover : coverCandidate B L.tables e.context policy ⟨[], []⟩ e.id =
      .ok ⟨[e.id], [e.id]⟩ := by
    rw [coverCandidate, if_neg (by simp [binarySearch]), hevent, mapError_ok, ok_bind,
      required_some, ok_bind, ensure_true rfl, ok_bind, if_pos hkind, List.nil_append]
  have hexport : exportReference B L.tables ([], 0) e.id =
      .ok ([referenceOf e], payloadBytes e) := by
    obtain ⟨bytes, hbytes, hlength⟩ := payload_ok e
    rw [exportReference, hevent, mapError_ok, ok_bind, required_some, ok_bind,
      SourceEvent.fromSigned, hbytes, ok_bind, mapError_ok, ok_bind, hlength, Nat.zero_add]
    rfl
  have hfew : [e.id].length ≤ MAX_CLOSURE_CANDIDATES := (by decide : 1 ≤ MAX_CLOSURE_CANDIDATES)
  rw [closeSelection, hlimits, ok_bind, hone,
    show normalize (EventId.text B) ([] : List EventId) = [] from rfl]
  dsimp only
  rw [ensure_true hfew, ok_bind, hnodes, ok_bind, hreport, ok_bind, foldEach, hcover,
    ok_bind, foldEach, ok_bind]
  dsimp only
  rw [hone, foldEach, hexport, ok_bind, foldEach, ok_bind]

end Load

/-- The parents in a closed selection. Its references are the ancestry of the selected events and
the events added for critical coverage, which are critical candidates. A reference that was not
added has all its parents among the references; an added one may lack some. The references are
closed under parents exactly when every critical candidate has its parents among the ancestors of
the selection and the critical candidates. -/
theorem closeSelection_parents (B : Boundary) (t : Tables) (hreachable : Reachable B t)
    (context : ContextId) (selected candidates : List EventId) (policy : CriticalPolicy)
    (limits : ClosureLimits) (c : ClosedSelection)
    (hok : closeSelection B t context selected candidates policy limits = .ok c) :
    (∀ ref ∈ c.references, ref.event ∉ c.addedCritical → ∀ parent, t.Parent B ref.event parent →
      parent ∈ c.references.map SourceReference.event) ∧
    (∀ id, id ∈ c.references.map SourceReference.event ↔
      (∃ head ∈ selected, ReflTransGen (t.Parent B) head id) ∨ id ∈ c.addedCritical) ∧
    (∀ id ∈ c.addedCritical, id ∈ candidates ∧ Critical B t context policy id) ∧
    ((∀ ref ∈ c.references, ∀ parent, t.Parent B ref.event parent →
        parent ∈ c.references.map SourceReference.event) ↔
      ∀ id ∈ candidates, Critical B t context policy id → ∀ parent, t.Parent B id parent →
        (∃ head ∈ selected, ReflTransGen (t.Parent B) head parent) ∨
          parent ∈ candidates ∧ Critical B t context policy parent) := by
  obtain ⟨L, h, rfl⟩ := exists_of_reachable hreachable
  simp only [← below_tables, ← critical_tables]
  rw [parent_tables]
  obtain ⟨es, href, -, -, -, hmem, hadded, hcritical⟩ := closeSelection_eq_ok h hok
  have hids : c.references.map SourceReference.event = es.map StoredEvent.id := by
    rw [href, List.map_map]
    rfl
  have hrefs (P : EventId → Prop) :
      (∀ ref ∈ c.references, P ref.event) ↔ ∀ id ∈ es.map StoredEvent.id, P id := by
    rw [← hids, List.forall_mem_map]
  have hclosure := hrefs fun id ↦ ∀ parent, L.Parent id parent → parent ∈ es.map StoredEvent.id
  have hbelow {id parent : EventId} (hid : L.Below selected id) (hparent : L.Parent id parent) :
      L.Below selected parent := by
    obtain ⟨head, hhead, hancestor⟩ := hid
    exact ⟨head, hhead, hancestor.trans (.of_parent hparent)⟩
  rw [hids]
  refine ⟨(hrefs fun id ↦ id ∉ c.addedCritical → ∀ parent, L.Parent id parent →
    parent ∈ es.map StoredEvent.id).mpr fun id hid hnot parent hparent ↦ ?_,
    fun id ↦ ⟨hadded id, ?_⟩, hcritical,
    fun hclosed id hid hkind parent hparent ↦ ?_,
    fun hclosed ↦ hclosure.mpr fun id hid parent hparent ↦ ?_⟩
  · exact (hmem parent).mpr (Or.inl (hbelow ((hadded id hid).resolve_right hnot) hparent))
  · rintro (hid | hid)
    · exact (hmem id).mpr (Or.inl hid)
    · exact (hmem id).mpr (Or.inr (hcritical id hid))
  · exact (hmem parent).mp
      (hclosure.mp hclosed id ((hmem id).mpr (Or.inr ⟨hid, hkind⟩)) parent hparent)
  · rcases (hmem id).mp hid with hid | ⟨hid, hkind⟩
    · exact (hmem parent).mpr (Or.inl (hbelow hid hparent))
    · exact (hmem parent).mpr (hclosed id hid hkind parent hparent)

section Golden

open Reference Golden

/-- Requests are critical. -/
def requestPolicy : CriticalPolicy where
  kinds := ["agent.request"]
  canonical := canonical_singleton _ _
  bounded := by decide
  named := by decide

/-- The request is covered alone. -/
theorem closeSelection_advanced (limits : ClosureLimits)
    (hlimits : ClosureLimits.new limits.maxEvents limits.maxExportedBytes = .ok limits) :
    closeSelection Golden.B advanced.tables Golden.context [] [second.id] requestPolicy limits =
      .ok ⟨Golden.context, [referenceOf second], [], [second.id], payloadBytes second, limits⟩ :=
  closeSelection_nil advanced_wellFormed second_stored rfl hlimits

/-- The genesis is a parent of a reference and no reference itself. -/
theorem closeSelection_dangling : Reachable Golden.B advanced.tables ∧ ∃ c,
    closeSelection Golden.B advanced.tables Golden.context [] [second.id] requestPolicy .default =
      .ok c ∧
    ∃ ref ∈ c.references, ∃ parent, advanced.tables.Parent Golden.B ref.event parent ∧
      parent ∉ c.references.map SourceReference.event := by
  have hok := closeSelection_advanced .default rfl
  refine ⟨advanced_reachable, _, hok, referenceOf second, List.mem_singleton_self _, first.id, ?_,
    fun hmem ↦ first_ne_second (List.mem_singleton.mp hmem)⟩
  rw [parent_tables]
  exact ⟨second, second_stored, rfl, second_parents ▸ List.mem_singleton_self _⟩

end Golden

/-- The bounds of a closed selection. What a call returns stays within its limits exactly when the
ancestry of the selection and the critical candidates do together; an ancestry beyond the limits is
refused. -/
theorem closeSelection_within_iff (B : Boundary) (t : Tables) (hreachable : Reachable B t)
    (context : ContextId) (selected candidates : List EventId) (policy : CriticalPolicy)
    (limits : ClosureLimits)
    (hlimits : ClosureLimits.new limits.maxEvents limits.maxExportedBytes = .ok limits) :
    (∀ c, closeSelection B t context selected candidates policy limits = .ok c →
      (c.references.length ≤ limits.maxEvents ∧ c.totalBytes ≤ limits.maxExportedBytes ↔
        WithinLimits B t limits fun id ↦
          (∃ head ∈ selected, ReflTransGen (t.Parent B) head id) ∨
            id ∈ candidates ∧ Critical B t context policy id)) ∧
    ((∀ head ∈ selected, t.Holds B context head) →
      (¬ WithinLimits B t limits fun id ↦
        ∃ head ∈ selected, ReflTransGen (t.Parent B) head id) →
      closeSelection B t context selected candidates policy limits = .error .limitExceeded) := by
  obtain ⟨L, h, rfl⟩ := exists_of_reachable hreachable
  simp only [← below_tables, ← critical_tables, holds_tables]
  refine ⟨fun c hok ↦ ?_, fun hheld hbeyond ↦ ?_⟩
  · obtain ⟨es, href, hbytes, hstored, hnodup, hmem, -⟩ := closeSelection_eq_ok h hok
    rw [withinLimits_iff h.toWellKeyed hstored hnodup hmem, href, List.length_map, hbytes]
  · rw [closeSelection, hlimits, ok_bind]
    dsimp only
    by_cases hcount : (normalize (EventId.text B) candidates).length ≤ MAX_CLOSURE_CANDIDATES
    · rw [ensure_true hcount, ok_bind]
      have hnormal : ∀ id, id ∈ normalize (EventId.text B) selected ↔ id ∈ selected :=
        fun id ↦ mem_normalize
      cases hload : loadClosureNodes B L.tables context (normalize (EventId.text B) selected)
          limits with
      | error error =>
        rw [error_bind, loadClosureNodes_error h (fun head hhead ↦
          hheld head ((hnormal head).mp hhead)) hload]
      | ok nodes =>
        obtain ⟨es, -, hstored, hnodup, hmem, hwithin⟩ := loadClosureNodes_eq_ok h hload
        refine absurd ((withinLimits_iff h.toWellKeyed (fun e he ↦ (hstored e he).1) hnodup
          fun id ↦ ?_).mpr hwithin) hbeyond
        rw [hmem, Below.congr hnormal]
    · rw [ensure_false hcount, error_bind]

section Golden

open Reference Golden

/-- A request covered alone is within the default limits. -/
theorem closeSelection_within_iff_advanced : ∃ c, closeSelection Golden.B advanced.tables
    Golden.context [] [second.id] requestPolicy .default = .ok c ∧
      c.references.length ≤ MAX_CLOSURE_EVENTS ∧ c.totalBytes ≤ MAX_CLOSURE_BYTES := by
  have hok := closeSelection_advanced .default rfl
  refine ⟨_, hok, ((closeSelection_within_iff Golden.B advanced.tables advanced_reachable
    Golden.context [] [second.id] requestPolicy .default rfl).1 _ hok).mpr ?_⟩
  have honly : ∀ e ∈ [second], e ∈ advanced.events := fun e he ↦
    List.mem_singleton.mp he ▸ second_stored
  refine (withinLimits_iff advanced_wellFormed.toWellKeyed honly (List.nodup_singleton _)
    fun id ↦ ?_).mpr ⟨(by decide : 1 ≤ MAX_CLOSURE_EVENTS), ?_⟩
  · constructor
    · intro hid
      exact Or.inr ⟨hid, critical_tables.mp
        ⟨second, second_stored, (List.mem_singleton.mp hid).symm, rfl, rfl⟩⟩
    · rintro (⟨head, hhead, -⟩ | ⟨hid, -⟩)
      · exact absurd hhead List.not_mem_nil
      · exact hid
  · obtain ⟨-, -, -, -, -, hpayload, -⟩ := EventBodyV1.validate_eq_ok.mp second.valid
    rw [List.map_singleton, List.sum_singleton]
    exact hpayload.trans (by decide)

/-- A request covered alone, with a payload beyond a limit of one byte. -/
theorem closeSelection_exceeds : Reachable Golden.B advanced.tables ∧
    ∃ limits c, ClosureLimits.new 1 1 = .ok limits ∧
      closeSelection Golden.B advanced.tables Golden.context [] [second.id] requestPolicy limits =
        .ok c ∧ limits.maxExportedBytes < c.totalBytes := by
  refine ⟨advanced_reachable, ⟨1, 1⟩, _, rfl, closeSelection_advanced ⟨1, 1⟩ rfl, ?_⟩
  show 1 < canonicalLength Golden.B (.obj [("fixture", .str "oa03-bundle-v1")])
  rw [canonicalLength_obj (List.pairwise_singleton _ _)]
  omega

end Golden

end ContextMesh.Delta
