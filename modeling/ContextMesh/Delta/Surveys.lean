import ContextMesh.Delta.Coverage
import ContextMesh.Foundation.Exploration
import ContextMesh.Reference.Probe

/-!
The closure of explicit nodes on any graph. The survey is an exploration of the known parents that
is cut short before it enters one node more than the limit. What it reports is therefore what the
exploration has met by then: all of it when there is room for every node, and otherwise whatever
comes before the cut.
-/

set_option autoImplicit false
set_option relaxedAutoImplicit false

namespace ContextMesh.Delta

open Checked Ordered Contract Relation Traversal

variable {B : Boundary}

/-! ### The survey explores -/

/-- The edges of an event to parents that are no nodes, in the order the survey notes them. -/
def danglingOf (parents : EventId → Option (List EventId)) (id : EventId) : List DanglingEdge :=
  (((parents id).getD []).filter fun parent ↦ !(parents parent).isSome).reverse.map
    (DanglingEdge.mk id)

section Survey

variable {parents : EventId → Option (List EventId)} {maxEvents : ℕ} {heads : List EventId}
  {stack rest : List (Frame EventId Unit)} {s : Survey} {id : EventId} {via : Option EventId}

theorem survey_skip (hblack : s.color id = .black) :
    survey parents maxEvents (.enter id via :: rest) s = survey parents maxEvents rest s := by
  rw [survey, hblack]

theorem survey_note (hgrey : s.color id = .grey) :
    survey parents maxEvents (.enter id via :: rest) s =
      survey parents maxEvents rest { s with cycle := true } := by
  rw [survey, hgrey]

/-- One step of the survey on an untouched event, while there is room. -/
theorem survey_enter (hwhite : s.color id = .white) (hroom : ¬ s.closed.length ≥ maxEvents) :
    survey parents maxEvents (.enter id via :: rest) s =
      survey parents maxEvents (enters (some id) (knownParents parents id) ++ .exit id () :: rest)
        ⟨Function.update s.color id .grey, s.closed ++ [id], s.dangling ++ danglingOf parents id,
          s.cycle, s.exceeded⟩ := by
  rw [survey, hwhite]
  dsimp only
  rw [dif_neg hroom, List.partition_eq_filter_filter]
  rfl

theorem survey_full (hwhite : s.color id = .white) (hfull : s.closed.length ≥ maxEvents) :
    survey parents maxEvents (.enter id via :: rest) s = { s with exceeded := true } := by
  rw [survey, hwhite]
  dsimp only
  rw [dif_pos hfull]

/-- What a survey gives back when it has come this far: the edges that dangle from the entered
events, and a state of the exploration in which it ended or was cut. -/
structure Cut (parents : EventId → Option (List EventId)) (maxEvents : ℕ) (heads : List EventId)
    (s : Survey) : Prop where
  dangling : s.dangling = s.closed.flatMap (danglingOf parents)
  ended : s.exceeded = false → s.closed.length ≤ maxEvents ∧
    Explores (knownParents parents) heads [] s.color s.closed s.cycle
  cut : s.exceeded = true → s.closed.length = maxEvents ∧ ∃ id via rest, s.color id = .white ∧
    Explores (knownParents parents) heads (.enter id via :: rest) s.color s.closed s.cycle

/-- A survey follows the exploration until it ends or is cut. -/
theorem survey_cut (h : Explores (knownParents parents) heads stack s.color s.closed s.cycle)
    (hdangling : s.dangling = s.closed.flatMap (danglingOf parents))
    (hexceeded : s.exceeded = false) (hroom : s.closed.length ≤ maxEvents) :
    Cut parents maxEvents heads (survey parents maxEvents stack s) := by
  induction stack, s using survey.induct parents maxEvents with
  | case1 s =>
    rw [survey]
    refine ⟨hdangling, fun _ ↦ ⟨hroom, h⟩, fun hcut ↦ ?_⟩
    rw [hexceeded] at hcut
    exact absurd hcut Bool.false_ne_true
  | case2 id datum rest s ih =>
    rw [survey]
    exact ih h.close hdangling hexceeded hroom
  | case3 id via rest s hblack ih =>
    rw [survey_skip hblack]
    exact ih (h.skip hblack) hdangling hexceeded hroom
  | case4 id via rest s hgrey ih =>
    rw [survey_note hgrey]
    exact ih (h.note hgrey) hdangling hexceeded hroom
  | case5 id via rest s hwhite hfull =>
    rw [survey_full hwhite hfull]
    exact ⟨hdangling, fun hended ↦ absurd hended.symm Bool.false_ne_true,
      fun _ ↦ ⟨le_antisymm hroom hfull, id, via, rest, hwhite, h⟩⟩
  | case6 id via rest s hwhite hnotfull referenced known missing hpartition ih =>
    rw [List.partition_eq_filter_filter, Prod.mk.injEq] at hpartition
    obtain ⟨rfl, rfl⟩ := hpartition
    rw [survey_enter hwhite hnotfull]
    refine ih (h.enter hwhite) ?_ hexceeded ?_
    · rw [List.flatMap_append, ← hdangling, List.flatMap_singleton]
      rfl
    · rw [List.length_append, List.length_singleton]
      omega

/-- A survey reaches every state of the exploration that is within the limit. -/
theorem survey_reaches {color : EventId → Color} {entered : List EventId} {noted : Bool}
    (h : Explores (knownParents parents) heads stack color entered noted)
    (hroom : entered.length ≤ maxEvents) : ∃ dangling,
      survey parents maxEvents (enters none heads) ⟨fun _ ↦ .white, [], [], false, false⟩ =
        survey parents maxEvents stack ⟨color, entered, dangling, noted, false⟩ := by
  induction h with
  | start => exact ⟨[], rfl⟩
  | close _ ih =>
    obtain ⟨dangling, hsurvey⟩ := ih hroom
    exact ⟨dangling, by rw [hsurvey, survey]⟩
  | skip _ hblack ih =>
    obtain ⟨dangling, hsurvey⟩ := ih hroom
    exact ⟨dangling, hsurvey.trans (survey_skip hblack)⟩
  | note _ hgrey ih =>
    obtain ⟨dangling, hsurvey⟩ := ih hroom
    exact ⟨dangling, hsurvey.trans (survey_note hgrey)⟩
  | enter _ hwhite ih =>
    rw [List.length_append, List.length_singleton] at hroom
    obtain ⟨dangling, hsurvey⟩ := ih (Nat.le_of_succ_le hroom)
    exact ⟨_, hsurvey.trans (survey_enter hwhite (Nat.not_le_of_lt hroom))⟩

/-- A noted cycle stays noted. -/
theorem survey_cycle (h : s.cycle = true) : (survey parents maxEvents stack s).cycle = true := by
  induction stack, s using survey.induct parents maxEvents with
  | case1 s =>
    rw [survey]
    exact h
  | case2 id datum rest s ih =>
    rw [survey]
    exact ih h
  | case3 id via rest s hblack ih =>
    rw [survey_skip hblack]
    exact ih h
  | case4 id via rest s hgrey ih =>
    rw [survey_note hgrey]
    exact ih rfl
  | case5 id via rest s hwhite hfull =>
    rw [survey_full hwhite hfull]
    exact h
  | case6 id via rest s hwhite hnotfull referenced known missing hpartition ih =>
    rw [List.partition_eq_filter_filter, Prod.mk.injEq] at hpartition
    obtain ⟨rfl, rfl⟩ := hpartition
    rw [survey_enter hwhite hnotfull]
    exact ih h

/-- A survey from its start reports a cycle exactly when the exploration notes one within the
limit. -/
theorem survey_cycle_iff :
    (survey parents maxEvents (enters none heads) ⟨fun _ ↦ .white, [], [], false, false⟩).cycle =
      true ↔ NotesWithin (knownParents parents) heads maxEvents := by
  constructor
  · intro hcycle
    have hcut : Cut parents maxEvents heads (survey parents maxEvents (enters none heads)
        ⟨fun _ ↦ .white, [], [], false, false⟩) :=
      survey_cut .start rfl rfl (Nat.zero_le _)
    generalize survey parents maxEvents (enters none heads)
      ⟨fun _ ↦ .white, [], [], false, false⟩ = s at hcycle hcut
    cases hexceeded : s.exceeded with
    | false =>
      obtain ⟨hroom, hexplores⟩ := hcut.ended hexceeded
      exact ⟨_, _, _, hcycle ▸ hexplores, hroom⟩
    | true =>
      obtain ⟨hfull, id, via, rest, -, hexplores⟩ := hcut.cut hexceeded
      exact ⟨_, _, _, hcycle ▸ hexplores, hfull.le⟩
  · rintro ⟨stack, color, entered, hexplores, hroom⟩
    obtain ⟨dangling, hsurvey⟩ := survey_reaches hexplores hroom
    rw [hsurvey]
    exact survey_cycle rfl

/-- With room for the first of two heads only, the second is never entered. -/
theorem survey_second {first second : EventId} (hparents : knownParents parents first = [])
    (hne : second ≠ first) : ∃ s,
      survey parents 1 (enters none [first, second]) ⟨fun _ ↦ .white, [], [], false, false⟩ = s ∧
      s.cycle = false ∧ s.exceeded = true := by
  let start : Survey := ⟨fun _ ↦ .white, [], [], false, false⟩
  have hroom : ¬ start.closed.length ≥ 1 := Nat.not_succ_le_zero 0
  have henter : survey parents 1 (enters none [first, second]) start = _ :=
    survey_enter rfl hroom
  let entered : Survey := ⟨Function.update (Function.update start.color first .grey) first .black,
    [first], start.dangling ++ danglingOf parents first, false, false⟩
  have hwhite : entered.color second = .white :=
    (Function.update_of_ne hne _ _).trans (Function.update_of_ne hne _ _)
  refine ⟨{ entered with exceeded := true }, ?_, rfl, rfl⟩
  rw [henter, hparents, enters, List.map_nil, List.nil_append, survey]
  exact survey_full hwhite le_rfl

end Survey

/-! ### Nodes with distinct identifiers -/

/-- A node names the parent. -/
def ParentEdge (nodes : List EventNode) (child parent : EventId) : Prop :=
  ∃ node ∈ nodes, node.event = child ∧ parent ∈ node.parents

/-- The parent graph over the nodes has a directed cycle. -/
def Cyclic (nodes : List EventNode) : Prop := ∃ id, TransGen (ParentEdge nodes) id id

/-- Some node names a parent that is no node. -/
def Dangles (nodes : List EventNode) (edge : DanglingEdge) : Prop :=
  ParentEdge nodes edge.child edge.parent ∧ edge.parent ∉ nodes.map EventNode.event

variable (B) in
/-- The identifiers at which the walk starts. -/
def startsOf (nodes : List EventNode) : List EventId :=
  normalize (EventId.text B) (nodes.map EventNode.event)

section Nodes

variable {nodes : List EventNode}

theorem mem_parentsOf (hnodup : (nodes.map EventNode.event).Nodup) {child parent : EventId} :
    parent ∈ (parentsOf B nodes child).getD [] ↔ ParentEdge nodes child parent := by
  constructor
  · intro hparent
    cases hfound : parentsOf B nodes child with
    | none =>
      rw [hfound] at hparent
      exact absurd hparent List.not_mem_nil
    | some parents =>
      obtain ⟨node, hmem, hid, rfl⟩ := (parentsOf_eq_some hnodup).mp hfound
      rw [hfound] at hparent
      exact ⟨node, hmem, hid, mem_normalize.mp hparent⟩
  · rintro ⟨node, hmem, hid, hparent⟩
    rw [(parentsOf_eq_some hnodup).mpr ⟨node, hmem, hid, rfl⟩]
    exact mem_normalize.mpr hparent

theorem edge_knownParents (hnodup : (nodes.map EventNode.event).Nodup) {child parent : EventId} :
    Edge (graphOf (knownParents (parentsOf B nodes))) child parent ↔
      ParentEdge nodes child parent ∧ parent ∈ nodes.map EventNode.event := by
  rw [edge_graphOf, knownParents, List.mem_filter, mem_parentsOf hnodup, parentsOf_isSome hnodup]

theorem reached_startsOf (hnodup : (nodes.map EventNode.event).Nodup) {id : EventId} :
    Reached (graphOf (knownParents (parentsOf B nodes))) (startsOf B nodes) id ↔
      id ∈ nodes.map EventNode.event := by
  constructor
  · rintro ⟨head, hhead, hpath⟩
    induction hpath with
    | refl => exact mem_normalize.mp hhead
    | tail _ hlast _ => exact ((edge_knownParents hnodup).mp hlast).2
  · exact fun hid ↦ Reached.head (mem_normalize.mpr hid)

/-- Every event of a cycle is a node, so cycles run through known parents only. -/
theorem cyclic_iff (hnodup : (nodes.map EventNode.event).Nodup) : Cyclic nodes ↔
    ∃ id, Reached (graphOf (knownParents (parentsOf B nodes))) (startsOf B nodes) id ∧
      TransGen (Edge (graphOf (knownParents (parentsOf B nodes)))) id id := by
  have hnode {child parent : EventId} (hedge : ParentEdge nodes child parent) :
      child ∈ nodes.map EventNode.event := by
    obtain ⟨node, hmem, rfl, -⟩ := hedge
    exact List.mem_map_of_mem hmem
  constructor
  · rintro ⟨id, hcycle⟩
    have hid : id ∈ nodes.map EventNode.event := by
      obtain ⟨next, hedge, -⟩ := TransGen.head'_iff.mp hcycle
      exact hnode hedge
    have hpath : ∀ last, TransGen (ParentEdge nodes) id last →
        last ∈ nodes.map EventNode.event →
        TransGen (Edge (graphOf (knownParents (parentsOf B nodes)))) id last := by
      intro last hlast
      induction hlast with
      | single hedge =>
        exact fun hmem ↦ .single ((edge_knownParents hnodup).mpr ⟨hedge, hmem⟩)
      | tail _ hedge ih =>
        exact fun hmem ↦ (ih (hnode hedge)).tail ((edge_knownParents hnodup).mpr ⟨hedge, hmem⟩)
    exact ⟨id, (reached_startsOf hnodup).mpr hid, hpath id hcycle hid⟩
  · rintro ⟨id, -, hcycle⟩
    exact ⟨id, TransGen.mono (fun _ _ hedge ↦ ((edge_knownParents hnodup).mp hedge).1) _ _ hcycle⟩

theorem mem_danglingOf (hnodup : (nodes.map EventNode.event).Nodup) {edge : DanglingEdge}
    {id : EventId} : edge ∈ danglingOf (parentsOf B nodes) id ↔
      edge.child = id ∧ Dangles nodes edge := by
  rw [danglingOf, List.mem_map]
  constructor
  · rintro ⟨parent, hparent, rfl⟩
    rw [List.mem_reverse, List.mem_filter, mem_parentsOf hnodup, Bool.not_eq_true',
      Bool.eq_false_iff, ne_eq, parentsOf_isSome hnodup] at hparent
    exact ⟨rfl, hparent⟩
  · rintro ⟨rfl, hdangles⟩
    refine ⟨edge.parent, ?_, rfl⟩
    rw [List.mem_reverse, List.mem_filter, mem_parentsOf hnodup, Bool.not_eq_true',
      Bool.eq_false_iff, ne_eq, parentsOf_isSome hnodup]
    exact hdangles

/-- The survey of the nodes from its start. -/
theorem closeOver_cut (nodes : List EventNode) (limits : ClosureLimits) : ∃ s : Survey,
    Cut (parentsOf B nodes) limits.maxEvents (startsOf B nodes) s ∧
    (s.cycle = true ↔
      NotesWithin (knownParents (parentsOf B nodes)) (startsOf B nodes) limits.maxEvents) ∧
    closeOver B nodes limits = ⟨normalize (EventId.text B) s.closed,
      normalize (fun edge ↦ toLex (edge.child.text B, edge.parent.text B)) s.dangling, s.cycle,
      s.exceeded⟩ :=
  ⟨_, survey_cut .start rfl rfl (Nat.zero_le _), survey_cycle_iff, rfl⟩

/-- The walk is cut exactly when there are more nodes than the limit. -/
theorem Cut.exceeded_iff (hnodup : (nodes.map EventNode.event).Nodup) {maxEvents : ℕ} {s : Survey}
    (h : Cut (parentsOf B nodes) maxEvents (startsOf B nodes) s) :
    s.exceeded = true ↔ maxEvents < nodes.length := by
  have hsize : (nodes.map EventNode.event).length = nodes.length := List.length_map _
  cases hexceeded : s.exceeded with
  | false =>
    obtain ⟨hroom, hexplores⟩ := h.ended hexceeded
    obtain ⟨hentered, hmem⟩ := hexplores.reached
    have hperm : s.closed.Perm (nodes.map EventNode.event) :=
      (List.perm_ext_iff_of_nodup hentered hnodup).mpr fun id ↦
        (hmem id).trans (reached_startsOf hnodup)
    have hlength := hperm.length_eq
    exact iff_of_false Bool.false_ne_true (by omega)
  | true =>
    obtain ⟨hfull, id, via, rest, hwhite, hexplores⟩ := h.cut hexceeded
    have hstate := hexplores.explored
    have hinside : ∀ other ∈ id :: s.closed, other ∈ nodes.map EventNode.event := by
      intro other hother
      rw [← reached_startsOf (B := B) hnodup]
      refine hstate.reached other ?_
      rcases List.mem_cons.mp hother with rfl | hother
      · exact List.mem_append_right _ List.mem_cons_self
      · exact List.mem_append_left _ hother
    have hfresh : (id :: s.closed).Nodup :=
      List.nodup_cons.mpr ⟨(hstate.white_iff id).mp hwhite, hstate.nodup⟩
    have hlength := (List.subperm_of_subset hfresh hinside).length_le
    rw [List.length_cons] at hlength
    exact iff_of_true rfl (by omega)

/-! ### The report -/

variable (B) in
/-- The order of dangling edges: by the texts of the child and of the parent. -/
def edgeKey (edge : DanglingEdge) : String ×ₗ String :=
  toLex (edge.child.text B, edge.parent.text B)

theorem edgeKey_injective : Function.Injective (edgeKey B) := by
  rintro ⟨child, parent⟩ ⟨child', parent'⟩ h
  obtain ⟨hchild, hparent⟩ := Prod.mk.inj (toLex.injective h)
  obtain rfl : child = child' := EventId.text_injective hchild
  obtain rfl : parent = parent' := EventId.text_injective hparent
  rfl

/-- The same nodes in any order, each with its parents in any order and number. -/
def Rearranged (first second : List EventNode) : Prop :=
  ∃ middle : List EventNode, middle.Perm first ∧ List.Forall₂ (fun a b ↦ a.event = b.event ∧
    ∀ parent, parent ∈ a.parents ↔ parent ∈ b.parents) middle second

theorem Rearranged.events {first second : List EventNode} (h : Rearranged first second) :
    (first.map EventNode.event).Perm (second.map EventNode.event) := by
  obtain ⟨middle, hperm, hsame⟩ := h
  have hevents : middle.map EventNode.event = second.map EventNode.event := by
    rw [← List.forall₂_eq_eq_eq, List.forall₂_map_left_iff, List.forall₂_map_right_iff]
    exact hsame.imp fun _ _ hab ↦ hab.1
  exact hevents ▸ (hperm.map EventNode.event).symm

theorem Rearranged.parentsOf_eq {first second : List EventNode} (h : Rearranged first second)
    (hnodup : (first.map EventNode.event).Nodup) : parentsOf B second = parentsOf B first := by
  have hnodup' : (second.map EventNode.event).Nodup := h.events.nodup_iff.mp hnodup
  obtain ⟨middle, hperm, hsame⟩ := h
  have hnormal {a b : EventNode} (hab : ∀ parent, parent ∈ a.parents ↔ parent ∈ b.parents) :
      normalize (EventId.text B) a.parents = normalize (EventId.text B) b.parents :=
    normalize_congr EventId.text_injective hab
  funext id
  refine Option.ext fun parents ↦ ?_
  rw [parentsOf_eq_some hnodup, parentsOf_eq_some hnodup']
  constructor
  · rintro ⟨b, hb, rfl, rfl⟩
    obtain ⟨a, ha, hevent, hab⟩ := exists_of_forall₂ hsame b hb
    exact ⟨a, hperm.mem_iff.mp ha, hevent, hnormal hab⟩
  · rintro ⟨a, ha, rfl, rfl⟩
    obtain ⟨b, hb, hevent, hab⟩ := exists_of_forall₂ hsame.flip a (hperm.mem_iff.mpr ha)
    exact ⟨b, hb, hevent.symm, (hnormal hab).symm⟩

/-- A walk that was not cut has entered every node. -/
theorem Cut.mem_closed (hnodup : (nodes.map EventNode.event).Nodup) {maxEvents : ℕ} {s : Survey}
    (h : Cut (parentsOf B nodes) maxEvents (startsOf B nodes) s) (hexceeded : s.exceeded = false)
    (id : EventId) : id ∈ s.closed ↔ id ∈ nodes.map EventNode.event :=
  ((h.ended hexceeded).2.reached.2 id).trans (reached_startsOf hnodup)

theorem Cut.mem_dangling (hnodup : (nodes.map EventNode.event).Nodup) {maxEvents : ℕ} {s : Survey}
    (h : Cut (parentsOf B nodes) maxEvents (startsOf B nodes) s) (hexceeded : s.exceeded = false)
    (edge : DanglingEdge) : edge ∈ s.dangling ↔ Dangles nodes edge := by
  rw [h.dangling, List.mem_flatMap]
  constructor
  · rintro ⟨id, -, hedge⟩
    exact ((mem_danglingOf hnodup).mp hedge).2
  · intro hdangles
    obtain ⟨node, hmem, hid, -⟩ := hdangles.1
    refine ⟨edge.child, (h.mem_closed hnodup hexceeded _).mpr ?_,
      (mem_danglingOf hnodup).mpr ⟨rfl, hdangles⟩⟩
    exact hid ▸ List.mem_map_of_mem hmem

/-- The closure reports the listed events in order, every dangling edge once and a cycle when there
is one; it exceeds its limit when more events are listed, and the order of the list does not
matter. -/
theorem closeOver_exact (hnodup : (nodes.map EventNode.event).Nodup) (limits : ClosureLimits) :
    ((closeOver B nodes limits).exceeded = true ↔ limits.maxEvents < nodes.length) ∧
    ((closeOver B nodes limits).exceeded = false →
      (closeOver B nodes limits).closed = sort (EventId.text B) (nodes.map EventNode.event) ∧
      Canonical (edgeKey B) (closeOver B nodes limits).dangling ∧
      (∀ edge, edge ∈ (closeOver B nodes limits).dangling ↔ Dangles nodes edge) ∧
      ((closeOver B nodes limits).cycle = true ↔ Cyclic nodes)) ∧
    ∀ other, Rearranged nodes other → closeOver B other limits = closeOver B nodes limits := by
  refine ⟨?_, fun hexceeded ↦ ?_, fun other hother ↦ ?_⟩
  · obtain ⟨s, hcut, -, hreport⟩ := closeOver_cut (B := B) nodes limits
    rw [hreport]
    exact hcut.exceeded_iff hnodup
  · obtain ⟨s, hcut, -, hreport⟩ := closeOver_cut (B := B) nodes limits
    rw [hreport] at hexceeded ⊢
    have hkeys : (nodes.map EventNode.event).Pairwise fun a b ↦ a.text B ≠ b.text B :=
      hnodup.imp fun hne heq ↦ hne (EventId.text_injective heq)
    refine ⟨?_, normalize_canonical edgeKey_injective _, fun edge ↦ ?_, ?_⟩
    · rw [normalize_congr EventId.text_injective (hcut.mem_closed hnodup hexceeded),
        Ordered.normalize, dedup_eq_self (sort_canonical hkeys)]
    · change edge ∈ normalize (edgeKey B) s.dangling ↔ _
      rw [mem_normalize]
      exact hcut.mem_dangling hnodup hexceeded edge
    · rw [cyclic_iff (B := B) hnodup]
      exact (hcut.ended hexceeded).2.noted_iff
  · have hstarts : normalize (EventId.text B) (other.map EventNode.event) =
        normalize (EventId.text B) (nodes.map EventNode.event) :=
      normalize_congr EventId.text_injective fun id ↦ hother.events.mem_iff.symm
    unfold closeOver
    dsimp only
    rw [hother.parentsOf_eq hnodup, hstarts]

/-- A node of one repeated byte, with such parents. -/
def byteNode (byte : UInt8) (parents : List UInt8) : EventNode where
  event := ⟨Reference.Probe.filled byte⟩
  parents := parents.map fun parent ↦ ⟨Reference.Probe.filled parent⟩

theorem closeOver_exact_pair :
    (closeOver Reference.silent [byteNode 0 [2], byteNode 1 [1]] .default).exceeded = false ∧
    closeOver Reference.silent [byteNode 1 [1, 1], byteNode 0 [2]] .default =
      closeOver Reference.silent [byteNode 0 [2], byteNode 1 [1]] .default := by
  have hnodup : ([byteNode 0 [2], byteNode 1 [1]].map EventNode.event).Nodup := by decide
  obtain ⟨hexceeded, -, hrearranged⟩ :=
    closeOver_exact (B := Reference.silent) hnodup .default
  constructor
  · refine Bool.eq_false_iff.mpr fun h ↦ ?_
    have hover : MAX_CLOSURE_EVENTS < 2 := hexceeded.mp h
    exact absurd hover (by decide)
  · apply hrearranged
    refine ⟨[byteNode 1 [1], byteNode 0 [2]], List.Perm.swap _ _ _, ?_⟩
    exact .cons ⟨rfl, fun parent ↦ by simp [byteNode]⟩ (.cons ⟨rfl, fun _ ↦ Iff.rfl⟩ .nil)

end Nodes

/-! ### The check -/

section Check

variable {nodes : List EventNode} {limits : ClosureLimits}

/-- What the check answers: a cycle before an exceeded bound before a dangling parent. -/
def Precedence (nodes : List EventNode) (limits : ClosureLimits)
    (result : Except ClosureError ClosureReport) : Prop :=
  (Cyclic nodes → result = .error .cycle) ∧
  (¬ Cyclic nodes → limits.maxEvents < nodes.length → result = .error .limitExceeded) ∧
  (¬ Cyclic nodes → ¬ limits.maxEvents < nodes.length → (∃ edge, Dangles nodes edge) →
    ∃ edge, Dangles nodes edge ∧ result = .error (.danglingParent edge.child edge.parent)) ∧
  ((∃ report, result = .ok report) ↔
    ¬ Cyclic nodes ∧ ¬ limits.maxEvents < nodes.length ∧ ¬ ∃ edge, Dangles nodes edge)

/-- What is noted is there. -/
theorem cyclic_of_notes (hnodup : (nodes.map EventNode.event).Nodup) {count : ℕ}
    (h : NotesWithin (knownParents (parentsOf B nodes)) (startsOf B nodes) count) :
    Cyclic nodes := by
  obtain ⟨stack, color, entered, hexplores, -⟩ := h
  exact (cyclic_iff hnodup).mpr (hexplores.explored.cyclic rfl)

theorem closeCheck_cycle (h : (closeOver B nodes limits).cycle = true) :
    closeCheck B nodes limits = .error .cycle := by
  unfold closeCheck
  dsimp only
  rw [ensure_false (ne_false_of_eq_true h)]
  rfl

theorem closeCheck_exceeded (hcycle : (closeOver B nodes limits).cycle = false)
    (h : (closeOver B nodes limits).exceeded = true) :
    closeCheck B nodes limits = .error .limitExceeded := by
  unfold closeCheck
  dsimp only
  rw [ensure_true hcycle, ensure_false (ne_false_of_eq_true h)]
  rfl

theorem closeCheck_within (hcycle : (closeOver B nodes limits).cycle = false)
    (h : (closeOver B nodes limits).exceeded = false) :
    closeCheck B nodes limits = match (closeOver B nodes limits).dangling with
      | [] => .ok (closeOver B nodes limits)
      | edge :: _ => .error (.danglingParent edge.child edge.parent) := by
  unfold closeCheck
  dsimp only
  rw [ensure_true hcycle, ensure_true h]
  rfl

/-- The walk sees a cycle of a list over the limit only when it meets one before it is cut. -/
theorem closeCheck_precedence_iff (hnodup : (nodes.map EventNode.event).Nodup)
    (limits : ClosureLimits) : Precedence nodes limits (closeCheck B nodes limits) ↔
      (Cyclic nodes → limits.maxEvents < nodes.length →
        NotesWithin (knownParents (parentsOf B nodes)) (startsOf B nodes) limits.maxEvents) := by
  obtain ⟨s, hcut, hnotes, hreport⟩ := closeOver_cut (B := B) nodes limits
  have hover := hcut.exceeded_iff hnodup
  have hscycle : (closeOver B nodes limits).cycle = s.cycle := by rw [hreport]
  have hsexceeded : (closeOver B nodes limits).exceeded = s.exceeded := by rw [hreport]
  cases hcycle : s.cycle with
  | true =>
    rw [closeCheck_cycle (hscycle.trans hcycle)]
    have hcyclic := cyclic_of_notes hnodup (hnotes.mp hcycle)
    refine iff_of_true ⟨fun _ ↦ rfl, absurd hcyclic, absurd hcyclic, ?_⟩
      fun _ _ ↦ hnotes.mp hcycle
    refine iff_of_false ?_ fun h ↦ h.1 hcyclic
    rintro ⟨report, hok⟩
    exact nomatch hok
  | false =>
    have hunnoted := mt hnotes.mpr (ne_true_of_eq_false hcycle)
    rw [hcycle] at hscycle
    cases hexceeded : s.exceeded with
    | true =>
      -- Over the limit and nothing noted: the answer is right when there is no cycle at all.
      rw [closeCheck_exceeded hscycle (hsexceeded.trans hexceeded)]
      have hlimit := hover.mp hexceeded
      constructor
      · intro h hcyclic
        exact nomatch h.1 hcyclic
      · intro h
        have hacyclic : ¬ Cyclic nodes := fun hcyclic ↦ hunnoted (h hcyclic hlimit)
        refine ⟨fun hcyclic ↦ absurd hcyclic hacyclic, fun _ _ ↦ rfl,
          fun _ hroom ↦ absurd hlimit hroom, ?_⟩
        refine iff_of_false ?_ fun h ↦ h.2.1 hlimit
        rintro ⟨report, hok⟩
        exact nomatch hok
    | false =>
      rw [closeCheck_within hscycle (hsexceeded.trans hexceeded)]
      have hroom := mt hover.mpr (ne_true_of_eq_false hexceeded)
      obtain ⟨-, hexplores⟩ := hcut.ended hexceeded
      have hacyclic : ¬ Cyclic nodes := fun hcyclic ↦
        ne_true_of_eq_false hcycle (hexplores.noted_iff.mpr ((cyclic_iff hnodup).mp hcyclic))
      have hmem : ∀ edge, edge ∈ (closeOver B nodes limits).dangling ↔ Dangles nodes edge := by
        intro edge
        rw [hreport, mem_normalize]
        exact hcut.mem_dangling hnodup hexceeded edge
      refine iff_of_true ⟨fun hcyclic ↦ absurd hcyclic hacyclic,
        fun _ hlimit ↦ absurd hlimit hroom, ?_, ?_⟩ fun _ hlimit ↦ absurd hlimit hroom
      · rintro - - ⟨edge, hedge⟩
        cases hdangling : (closeOver B nodes limits).dangling with
        | nil => exact absurd ((hmem edge).mpr hedge) (hdangling ▸ List.not_mem_nil)
        | cons first rest =>
          exact ⟨first, (hmem first).mp (hdangling ▸ List.mem_cons_self), rfl⟩
      · cases hdangling : (closeOver B nodes limits).dangling with
        | nil =>
          refine iff_of_true ⟨_, rfl⟩ ⟨hacyclic, hroom, ?_⟩
          rintro ⟨edge, hedge⟩
          exact List.not_mem_nil (hdangling ▸ (hmem edge).mpr hedge)
        | cons first rest =>
          have hfirst := (hmem first).mp (hdangling ▸ List.mem_cons_self)
          refine iff_of_false ?_ fun h ↦ h.2.2 ⟨first, hfirst⟩
          rintro ⟨report, hok⟩
          exact nomatch hok

theorem closeCheck_precedence_within :
    Precedence [byteNode 0 [2], byteNode 1 [1]] .default
      (closeCheck Reference.silent [byteNode 0 [2], byteNode 1 [1]] .default) := by
  refine (closeCheck_precedence_iff (by decide) .default).mpr fun _ hlimit ↦ ?_
  exact absurd (show MAX_CLOSURE_EVENTS < 2 from hlimit) (by decide)

/-- The second event is its own parent, and the limit leaves room for the first one only. -/
theorem closeCheck_misses_cycle : Cyclic [byteNode 0 [], byteNode 1 [1]] ∧
    closeCheck Reference.silent [byteNode 0 [], byteNode 1 [1]] ⟨1, 1⟩ = .error .limitExceeded ∧
    ¬ Precedence [byteNode 0 [], byteNode 1 [1]] ⟨1, 1⟩
      (closeCheck Reference.silent [byteNode 0 [], byteNode 1 [1]] ⟨1, 1⟩) := by
  have hstarts : startsOf Reference.silent [byteNode 0 [], byteNode 1 [1]] =
      [(byteNode 0 []).event, (byteNode 1 [1]).event] := by decide +kernel
  have hparents : knownParents (parentsOf Reference.silent [byteNode 0 [], byteNode 1 [1]])
      (byteNode 0 []).event = [] := by decide +kernel
  have hcyclic : Cyclic [byteNode 0 [], byteNode 1 [1]] :=
    ⟨_, .single ⟨byteNode 1 [1], List.mem_cons_of_mem _ List.mem_cons_self, rfl,
      List.mem_cons_self⟩⟩
  have hreport : (closeOver Reference.silent [byteNode 0 [], byteNode 1 [1]] ⟨1, 1⟩).cycle =
      false ∧
      (closeOver Reference.silent [byteNode 0 [], byteNode 1 [1]] ⟨1, 1⟩).exceeded = true := by
    obtain ⟨s, hsurvey, hcycle, hexceeded⟩ := survey_second hparents
      (show (byteNode 1 [1]).event ≠ (byteNode 0 []).event by decide)
    rw [← hstarts] at hsurvey
    exact ⟨(congrArg Survey.cycle hsurvey).trans hcycle,
      (congrArg Survey.exceeded hsurvey).trans hexceeded⟩
  have hresult := closeCheck_exceeded hreport.1 hreport.2
  refine ⟨hcyclic, hresult, fun h ↦ ?_⟩
  exact nomatch hresult.symm.trans (h.1 hcyclic)

end Check

end ContextMesh.Delta
