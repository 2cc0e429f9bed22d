import ContextMesh.Ledger.Changes

/-!
The graph of a ledger. Its nodes are the stored events with their parents as successors; on a
well-formed ledger it has no cycle, the ancestry of an event stays in its context, and no change of
the ledger alters the ancestry of a stored event.
-/

set_option autoImplicit false
set_option relaxedAutoImplicit false

namespace ContextMesh.Store

open Contract Relation Traversal

variable {B : Boundary}

namespace Ledger

variable {L L' : Ledger B}

/-- The graph of the events a lookup finds: an event with its parents as successors. -/
def graph (stored : EventId → Option (StoredEvent B)) (id : EventId) :
    Option (SignedEventV1 × List EventId) :=
  (stored id).map fun e ↦ (e.event, e.parents)

theorem edge_graph {stored : EventId → Option (StoredEvent B)} {child parent : EventId} :
    Edge (graph stored) child parent ↔ ∃ e, stored child = some e ∧ parent ∈ e.parents := by
  constructor
  · rintro ⟨event, parents, hnode, hparent⟩
    obtain ⟨e, he, heq⟩ := Option.map_eq_some_iff.mp hnode
    obtain ⟨rfl, rfl⟩ := Prod.mk.inj heq
    exact ⟨e, he, hparent⟩
  · rintro ⟨e, he, hparent⟩
    exact ⟨e.event, e.parents, by rw [graph, he, Option.map_some], hparent⟩

theorem WellKeyed.edge_eq (h : L.WellKeyed) : Edge (graph L.find) = L.Parent := by
  funext child parent
  rw [eq_iff_iff, edge_graph]
  constructor
  · rintro ⟨e, he, hparent⟩
    obtain ⟨hmem, hid⟩ := h.find_eq_some.mp he
    exact ⟨e, hmem, hid, hparent⟩
  · rintro ⟨e, hmem, hid, hparent⟩
    exact ⟨e, h.find_eq_some.mpr ⟨hmem, hid⟩, hparent⟩

/-- The events stand in the ledger parents first. -/
theorem WellFormed.successorsFirst (h : L.WellFormed) :
    SuccessorsFirst (graph L.find) (L.events.map fun e ↦ (e.id, e.event)) := by
  intro before x after hsplit
  obtain ⟨front, rest, hevents, rfl, hrest⟩ := List.map_eq_append_iff.mp hsplit
  obtain ⟨e, back, rfl, rfl, -⟩ := List.map_eq_cons_iff.mp hrest
  have hfind : L.find e.id = some e := h.find_eq_some.mpr ⟨by rw [hevents]; simp, rfl⟩
  refine ⟨e.parents, by rw [graph, hfind, Option.map_some], fun parent hparent ↦ ?_⟩
  obtain ⟨f, hf, rfl, -⟩ := h.parentsFirst front e back hevents parent hparent
  rw [List.map_map]
  exact List.mem_map_of_mem (f := Prod.fst ∘ fun e : StoredEvent B ↦ (e.id, e.event)) hf

theorem WellFormed.acyclic (h : L.WellFormed) (id : EventId) : ¬ TransGen L.Parent id id := by
  rw [← h.edge_eq]
  refine h.successorsFirst.acyclic (fun child parent hedge ↦ ?_) id
  obtain ⟨e, hfind, -⟩ := edge_graph.mp hedge
  obtain ⟨hmem, rfl⟩ := h.find_eq_some.mp hfind
  rw [List.map_map]
  exact List.mem_map_of_mem (f := Prod.fst ∘ fun e : StoredEvent B ↦ (e.id, e.event)) hmem

/-! ### Ancestry -/

theorem Ancestor.refl {id : EventId} : L.Ancestor id id := ReflTransGen.refl

theorem Ancestor.trans {a b c : EventId} (hab : L.Ancestor a b) (hbc : L.Ancestor b c) :
    L.Ancestor a c := ReflTransGen.trans hab hbc

theorem Ancestor.of_parent {child parent : EventId} (h : L.Parent child parent) :
    L.Ancestor child parent := .single h

/-- The event is in the ancestry of the heads. -/
def Below (L : Ledger B) (heads : List EventId) (id : EventId) : Prop :=
  ∃ head ∈ heads, L.Ancestor head id

/-- Heads with the same members have the same ancestry. -/
theorem Below.congr {heads heads' : List EventId} (h : ∀ id, id ∈ heads ↔ id ∈ heads')
    {id : EventId} : L.Below heads id ↔ L.Below heads' id := by
  unfold Below
  simp only [h]

/-- A parent of a stored event is stored in its context. -/
theorem WellFormed.holds_parent (h : L.WellFormed) {e : StoredEvent B} (he : e ∈ L.events)
    {parent : EventId} (hparent : parent ∈ e.parents) : L.Holds e.context parent := by
  obtain ⟨before, after, hsplit⟩ := List.append_of_mem he
  obtain ⟨f, hf, hid, hcontext⟩ := h.parentsFirst before e after hsplit parent hparent
  exact ⟨f, by rw [hsplit]; exact List.mem_append_left _ hf, hid, hcontext⟩

/-- A keyed ledger that stores every parent of an event in the context of the event, whatever the
order of the events. -/
structure Closed (L : Ledger B) : Prop extends L.WellKeyed where
  parents : ∀ e ∈ L.events, ∀ parent ∈ e.parents, L.Holds e.context parent

theorem WellFormed.closed (h : L.WellFormed) : L.Closed where
  toWellKeyed := h.toWellKeyed
  parents _ he _ hparent := h.holds_parent he hparent

theorem Closed.holds_ancestor (h : L.Closed) {context : ContextId} {id ancestor : EventId}
    (hid : L.Holds context id) (hancestor : L.Ancestor id ancestor) :
    L.Holds context ancestor := by
  induction hancestor with
  | refl => exact hid
  | tail _ hparent ih =>
    obtain ⟨e, he, heid, hmem⟩ := hparent
    obtain ⟨f, hf, hfid, rfl⟩ := ih
    obtain rfl := h.event_eq_of_id he hf (heid.trans hfid.symm)
    exact h.parents e he _ hmem

/-- The ancestry of a stored event is stored in its context. -/
theorem WellFormed.holds_ancestor (h : L.WellFormed) {context : ContextId} {id ancestor : EventId}
    (hid : L.Holds context id) (hancestor : L.Ancestor id ancestor) :
    L.Holds context ancestor := h.closed.holds_ancestor hid hancestor

/-! ### Growth -/

theorem Parent.mono (hsub : ∀ e ∈ L.events, e ∈ L'.events) {child parent : EventId}
    (h : L.Parent child parent) : L'.Parent child parent := by
  obtain ⟨e, he, hid, hparent⟩ := h
  exact ⟨e, hsub e he, hid, hparent⟩

theorem Ancestor.mono (hsub : ∀ e ∈ L.events, e ∈ L'.events) {id ancestor : EventId}
    (h : L.Ancestor id ancestor) : L'.Ancestor id ancestor :=
  ReflTransGen.mono (fun _ _ hparent ↦ Parent.mono hsub hparent) _ _ h

theorem Holds.mono (hsub : ∀ e ∈ L.events, e ∈ L'.events) {context : ContextId} {id : EventId}
    (h : L.Holds context id) : L'.Holds context id := by
  obtain ⟨e, he, hid, hcontext⟩ := h
  exact ⟨e, hsub e he, hid, hcontext⟩

/-- A ledger that agrees with another on the wires of shared events, and holds an event, holds its
ancestry. -/
theorem WellFormed.ancestor_of_agree (h : L.WellFormed)
    (hagree : ∀ e ∈ L.events, ∀ f ∈ L'.events, e.id = f.id → e.wire = f.wire)
    {context : ContextId} {id ancestor : EventId} (hid : L.Holds context id)
    (hancestor : L'.Ancestor id ancestor) : L.Ancestor id ancestor := by
  induction hancestor with
  | refl => exact .refl
  | tail hpath hparent ih =>
    obtain ⟨f, hf, hfid, hmem⟩ := hparent
    obtain ⟨e, he, heid, -⟩ := h.holds_ancestor hid ih
    have heq : e = f := StoredEvent.ext_wire (hagree e he f hf (heid.trans hfid.symm))
    exact ih.tail ⟨e, he, heid, heq ▸ hmem⟩

/-- A ledger that grew gives a stored event no new ancestors. -/
theorem WellFormed.ancestor_iff (h : L.WellFormed) (h' : L'.WellFormed)
    (hsub : ∀ e ∈ L.events, e ∈ L'.events) {context : ContextId} {id ancestor : EventId}
    (hid : L.Holds context id) : L'.Ancestor id ancestor ↔ L.Ancestor id ancestor := by
  refine ⟨h.ancestor_of_agree (fun e he f hf heq ↦ ?_) hid, Ancestor.mono hsub⟩
  rw [h'.event_eq_of_id (hsub e he) hf heq]

end Ledger

/-- Changes only append events. -/
theorem Step.events_prefix {L L' : Ledger B} {change : Change} (h : Step L change L') :
    L.events <+: L'.events := by
  cases h with
  | record admits fresh => exact List.prefix_append _ _
  | _ => exact List.prefix_refl _

theorem Steps.events_prefix {L L' : Ledger B} {kind : Change → Prop} (h : Steps kind L L') :
    L.events <+: L'.events := by
  induction h with
  | refl => exact List.prefix_refl _
  | tail _ hstep ih =>
    obtain ⟨change, -, hstep⟩ := hstep
    exact ih.trans hstep.events_prefix

theorem Steps.events_subset {L L' : Ledger B} {kind : Change → Prop} (h : Steps kind L L') :
    ∀ e ∈ L.events, e ∈ L'.events := fun _ he ↦ h.events_prefix.subset he

namespace Ledger

/-- Whatever is stored, allowed or provisioned stays so. -/
structure Extends (L L' : Ledger B) : Prop where
  events : ∀ e ∈ L.events, e ∈ L'.events
  authors : ∀ entry ∈ L.authors, entry ∈ L'.authors
  registrations : ∀ r ∈ L.registrations, ∃ s ∈ L'.registrations,
    s.context = r.context ∧ s.expected = r.expected

theorem Extends.refl (L : Ledger B) : L.Extends L :=
  ⟨fun _ he ↦ he, fun _ hentry ↦ hentry, fun r hr ↦ ⟨r, hr, rfl, rfl⟩⟩

theorem Extends.trans {L L' L'' : Ledger B} (h : L.Extends L') (h' : L'.Extends L'') :
    L.Extends L'' where
  events e he := h'.events e (h.events e he)
  authors entry hentry := h'.authors entry (h.authors entry hentry)
  registrations r hr := by
    obtain ⟨s, hs, hcontext, hexpected⟩ := h.registrations r hr
    obtain ⟨u, hu, hcontext', hexpected'⟩ := h'.registrations s hs
    exact ⟨u, hu, hcontext'.trans hcontext, hexpected'.trans hexpected⟩

/-- A context keeps the genesis that it expects. -/
theorem Extends.expects {L L' : Ledger B} (hextends : L.Extends L') (h : L.WellFormed)
    (h' : L'.WellFormed) {context : ContextId} {expected : EventId}
    (hr : ∃ r, L.registration context = some r ∧ r.expected = expected) :
    ∃ r, L'.registration context = some r ∧ r.expected = expected := by
  obtain ⟨r, hr, rfl⟩ := hr
  obtain ⟨hmem, rfl⟩ := h.registration_eq_some.mp hr
  obtain ⟨s, hs, hcontext, hexpected⟩ := hextends.registrations r hmem
  exact ⟨s, h'.registration_eq_some.mpr ⟨hs, hcontext⟩, hexpected⟩

/-- A context that is registered stays registered. -/
theorem Extends.registered {L L' : Ledger B} (hextends : L.Extends L') (h : L.WellFormed)
    (h' : L'.WellFormed) {context : ContextId} (hr : L.registration context ≠ none) :
    L'.registration context ≠ none := by
  obtain ⟨r, hr⟩ := Option.ne_none_iff_exists'.mp hr
  obtain ⟨s, hs, -⟩ := hextends.expects h h' ⟨r, hr, rfl⟩
  rw [hs]
  exact Option.some_ne_none s

theorem Extends.record (L : Ledger B) (e : StoredEvent B) : L.Extends (L.record e) where
  events _ he := List.mem_append_left _ he
  authors _ hentry := hentry
  registrations r hr := by
    refine ⟨_, mem_registrations_record hr, ?_⟩
    split_ifs
    · exact ⟨rfl, rfl⟩
    · exact ⟨rfl, rfl⟩

end Ledger

theorem Step.extends {L L' : Ledger B} {change : Change} (h : Step L change L') :
    L.Extends L' := by
  cases h with
  | provision fresh nonempty nodup =>
    exact ⟨fun _ he ↦ he, fun _ hentry ↦ List.mem_append_left _ hentry,
      fun r hr ↦ ⟨r, List.mem_append_left _ hr, rfl, rfl⟩⟩
  | authorize registered fresh =>
    exact ⟨fun _ he ↦ he, fun _ hentry ↦ List.mem_append_left _ hentry,
      fun r hr ↦ ⟨r, hr, rfl, rfl⟩⟩
  | record admits fresh => exact .record _ _
  | _ => exact ⟨fun _ he ↦ he, fun _ hentry ↦ hentry, fun r hr ↦ ⟨r, hr, rfl, rfl⟩⟩

theorem Steps.extends {L L' : Ledger B} {kind : Change → Prop} (h : Steps kind L L') :
    L.Extends L' := by
  induction h with
  | refl => exact .refl _
  | tail _ hstep ih =>
    obtain ⟨change, -, hstep⟩ := hstep
    exact ih.trans hstep.extends

end ContextMesh.Store
