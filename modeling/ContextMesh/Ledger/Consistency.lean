import ContextMesh.Ledger.Graph

/-!
Well-formed store content, stated on the rows. A row is well formed when it is the row of a typed
value: of a registration, of an event authentic on its wire, of a ref with valid names. The tables
are consistent when the typed values they hold satisfy the graph, allowlist, genesis and ref
conditions, in whatever order the rows stand; they are well formed when the rows of the events also
stand parents first.
-/

set_option autoImplicit false
set_option relaxedAutoImplicit false

namespace ContextMesh.Store

open Contract Relation

variable (B : Boundary)

/-- The row of an allowlist entry. -/
def authorRow (context : ContextId) (author : AuthorId) : AuthorRow :=
  ⟨cell context.bytes, cell author.bytes⟩

namespace Tables

variable (t : Tables)

/-- The second event is a parent of the first, as the stored wires state it. -/
def Parent (child parent : EventId) : Prop :=
  ∃ e : StoredEvent B, e.row ∈ t.events ∧ e.id = child ∧ parent ∈ e.parents

/-- The event is stored, in the context. -/
def Holds (context : ContextId) (id : EventId) : Prop :=
  ∃ e : StoredEvent B, e.row ∈ t.events ∧ e.id = id ∧ e.context = context

/-- The content of the tables is the content of a store. -/
structure Consistent : Prop where
  /-- Identifiers decode, and the genesis and the state of a context agree. -/
  contexts : ∀ row ∈ t.contexts, ∃ r : Registration, row = r.row
  authors : ∀ row ∈ t.authorizedAuthors, ∃ context author, row = authorRow context author
  /-- Every context has an author. -/
  provisioned : ∀ r : Registration, r.row ∈ t.contexts →
    ∃ author, authorRow r.context author ∈ t.authorizedAuthors
  /-- Every wire parses, is canonical, and agrees with the columns. -/
  events : ∀ row ∈ t.events, ∃ e : StoredEvent B, row = e.row
  authorized : ∀ e : StoredEvent B, e.row ∈ t.events →
    authorRow e.context e.author ∈ t.authorizedAuthors
  /-- The edges are exactly the signed parents with their ordinals from zero on. -/
  edges : ∀ row, row ∈ t.parentEdges ↔ ∃ e : StoredEvent B, e.row ∈ t.events ∧ row ∈ e.edges
  parents : ∀ e : StoredEvent B, e.row ∈ t.events →
    ∀ parent ∈ e.parents, t.Holds B e.context parent
  acyclic : ∀ id, ¬ TransGen (t.Parent B) id id
  /-- An active context holds its expected genesis. -/
  active : ∀ r : Registration, r.row ∈ t.contexts → r.active = true →
    ∃ e : StoredEvent B, e.row ∈ t.events ∧ e.context = r.context ∧ IsGenesis r.expected e.event
  /-- A context with an event is active, and its only root and only event of the genesis kind is its
  expected genesis. -/
  rooted : ∀ r : Registration, r.row ∈ t.contexts → ∀ e : StoredEvent B, e.row ∈ t.events →
    e.context = r.context → r.active = true ∧
      (e.parents = [] ∨ e.kind = "context.genesis" → e.id = r.expected)
  localRefs : ∀ row ∈ t.localRefs,
    ∃ ref : LocalRef, row = ref.row ∧ t.Holds B ref.context ref.head
  remoteRefs : ∀ row ∈ t.remoteRefs,
    ∃ ref : RemoteRef, row = ref.row ∧ t.Holds B ref.context ref.head

/-- Consistent content whose events are of registered contexts and were inserted parents first. -/
structure WellFormed : Prop extends t.Consistent B where
  registered : ∀ e : StoredEvent B, e.row ∈ t.events →
    ∃ r : Registration, r.row ∈ t.contexts ∧ r.context = e.context
  parentsFirst : ∀ before row after, t.events = before ++ row :: after →
    ∀ e : StoredEvent B, row = e.row → ∀ parent ∈ e.parents,
      ∃ f : StoredEvent B, f.row ∈ before ∧ f.id = parent ∧ f.context = e.context

variable {B} {t}

/-- A context is active exactly when its expected genesis is stored in it. -/
theorem Consistent.active_iff (h : t.Consistent B) {r : Registration} (hr : r.row ∈ t.contexts) :
    r.active = true ↔ t.Holds B r.context r.expected := by
  constructor
  · intro hactive
    obtain ⟨e, he, hcontext, hid, -⟩ := h.active r hr hactive
    exact ⟨e, he, hid, hcontext⟩
  · rintro ⟨e, he, -, hcontext⟩
    exact (h.rooted r hr e he hcontext).1

end Tables

/-! ### The tables of a well-formed ledger -/

variable {B}

theorem StoredEvent.row_injective : Function.Injective (StoredEvent.row (B := B)) := fun _ _ h ↦
  StoredEvent.ext_wire (SqlValue.blob.inj (EventRow.mk.inj h).2.2.2.2)

theorem Registration.row_injective : Function.Injective Registration.row := by
  rintro ⟨context, expected, active⟩ ⟨context', expected', active'⟩ h
  obtain ⟨hcontext, hexpected, -, hstate⟩ := ContextRow.mk.inj h
  obtain rfl : context = context' := contextId_bytes_inj.mp (cell_inj.mp hcontext)
  obtain rfl : expected = expected' := eventId_bytes_inj.mp (cell_inj.mp hexpected)
  have hstate : (if active then 1 else 0 : ℤ) = if active' then 1 else 0 :=
    SqlValue.integer.inj hstate
  cases active <;> cases active' <;> simp at hstate ⊢

theorem LocalRef.row_injective : Function.Injective LocalRef.row := by
  rintro ⟨context, name, head⟩ ⟨context', name', head'⟩ h
  obtain ⟨hcontext, hname, hhead⟩ := LocalRefRow.mk.inj h
  obtain rfl : context = context' := contextId_bytes_inj.mp (cell_inj.mp hcontext)
  obtain rfl : name = name' := localRefName_asStr_inj.mp (SqlValue.text.inj hname)
  obtain rfl : head = head' := eventId_bytes_inj.mp (cell_inj.mp hhead)
  rfl

theorem RemoteRef.row_injective : Function.Injective RemoteRef.row := by
  rintro ⟨peer, context, name, head⟩ ⟨peer', context', name', head'⟩ h
  obtain ⟨hpeer, hcontext, hname, hhead⟩ := RemoteRefRow.mk.inj h
  obtain rfl : peer = peer' := peerName_asStr_inj.mp (SqlValue.text.inj hpeer)
  obtain rfl : context = context' := contextId_bytes_inj.mp (cell_inj.mp hcontext)
  obtain rfl : name = name' := localRefName_asStr_inj.mp (SqlValue.text.inj hname)
  obtain rfl : head = head' := eventId_bytes_inj.mp (cell_inj.mp hhead)
  rfl

namespace Ledger

variable {L : Ledger B}

theorem mem_tables_events {e : StoredEvent B} : e.row ∈ L.tables.events ↔ e ∈ L.events :=
  List.mem_map_of_injective StoredEvent.row_injective

theorem mem_tables_contexts {r : Registration} : r.row ∈ L.tables.contexts ↔ r ∈ L.registrations :=
  List.mem_map_of_injective Registration.row_injective

theorem mem_tables_authors {context : ContextId} {author : AuthorId} :
    authorRow context author ∈ L.tables.authorizedAuthors ↔ (context, author) ∈ L.authors := by
  rw [← hasAuthor_tables]
  constructor
  · exact fun h ↦ ⟨_, h, rfl, rfl⟩
  · rintro ⟨⟨contextId, authorId⟩, hmem, rfl, rfl⟩
    exact hmem

theorem holds_tables {context : ContextId} {id : EventId} :
    L.tables.Holds B context id ↔ L.Holds context id :=
  exists_congr fun _ ↦ and_congr_left fun _ ↦ mem_tables_events

theorem parent_tables : L.tables.Parent B = L.Parent := by
  funext child parent
  exact propext (exists_congr fun _ ↦ and_congr_left fun _ ↦ mem_tables_events)

theorem below_tables {heads : List EventId} {id : EventId} :
    L.Below heads id ↔ ∃ head ∈ heads, ReflTransGen (L.tables.Parent B) head id := by
  rw [parent_tables]
  rfl

/-- The tables of a well-formed ledger are well formed. -/
theorem WellFormed.tables (h : L.WellFormed) : L.tables.WellFormed B where
  contexts row hrow := by
    obtain ⟨r, -, rfl⟩ := List.mem_map.mp hrow
    exact ⟨r, rfl⟩
  authors row hrow := by
    obtain ⟨entry, -, rfl⟩ := List.mem_map.mp hrow
    exact ⟨entry.1, entry.2, rfl⟩
  provisioned r hr := by
    obtain ⟨author, hauthor⟩ := h.provisioned r (mem_tables_contexts.mp hr)
    exact ⟨author, mem_tables_authors.mpr hauthor⟩
  events row hrow := by
    obtain ⟨e, -, rfl⟩ := List.mem_map.mp hrow
    exact ⟨e, rfl⟩
  authorized e he := mem_tables_authors.mpr (h.authorized e (mem_tables_events.mp he))
  edges row := by
    rw [Ledger.tables, List.mem_flatMap]
    exact exists_congr fun e ↦ and_congr_left fun _ ↦ mem_tables_events.symm
  parents e he parent hparent := holds_tables.mpr (h.holds_parent (mem_tables_events.mp he) hparent)
  acyclic id := by
    rw [parent_tables]
    exact h.acyclic id
  active r hr hactive := by
    obtain ⟨e, he, hrest⟩ := h.genesis r (mem_tables_contexts.mp hr) hactive
    exact ⟨e, mem_tables_events.mpr he, hrest⟩
  rooted r hr e he hcontext := by
    obtain ⟨s, hs, hscontext, hactive, hroot⟩ := h.rooted e (mem_tables_events.mp he)
    have hregistration := h.registration_eq_some.mpr ⟨hs, hscontext⟩
    rw [h.registration_eq_some.mpr ⟨mem_tables_contexts.mp hr, hcontext.symm⟩,
      Option.some.injEq] at hregistration
    exact hregistration ▸ ⟨hactive, hroot⟩
  localRefs row hrow := by
    obtain ⟨ref, href, rfl⟩ := List.mem_map.mp hrow
    exact ⟨ref, rfl, holds_tables.mpr (h.localTargets ref href)⟩
  remoteRefs row hrow := by
    obtain ⟨ref, href, rfl⟩ := List.mem_map.mp hrow
    exact ⟨ref, rfl, holds_tables.mpr (h.remoteTargets ref href)⟩
  registered e he := by
    obtain ⟨r, hr, hcontext, -⟩ := h.rooted e (mem_tables_events.mp he)
    exact ⟨r, mem_tables_contexts.mpr hr, hcontext⟩
  parentsFirst before row after hsplit e hrow parent hparent := by
    obtain ⟨front, rest, hevents, rfl, hrest⟩ := List.map_eq_append_iff.mp hsplit
    obtain ⟨e', back, rfl, rfl, -⟩ := List.map_eq_cons_iff.mp hrest
    obtain rfl := StoredEvent.row_injective hrow
    obtain ⟨f, hf, hid, hcontext⟩ := h.parentsFirst front _ back hevents parent hparent
    exact ⟨f, List.mem_map_of_mem hf, hid, hcontext⟩

end Ledger

end ContextMesh.Store
