import ContextMesh.Store.Sync
import ContextMesh.Foundation.Keyed

/-!
The typed content of a store: registered contexts, their allowlists, the events in insertion order
and the refs. Every ledger has its tables; on the tables of a keyed ledger, each query of the store
is a lookup in the ledger.
-/

set_option autoImplicit false
set_option relaxedAutoImplicit false

namespace ContextMesh.Store

open Checked Ordered Keyed Contract

/-- A stored event with its canonical wire. -/
structure StoredEvent (B : Boundary) where
  event : SignedEventV1
  wire : Bytes
  authentic : event.Authentic B wire

namespace StoredEvent

variable {B : Boundary}

abbrev id (e : StoredEvent B) : EventId := e.event.eventId
abbrev context (e : StoredEvent B) : ContextId := e.event.body.context
abbrev author (e : StoredEvent B) : AuthorId := e.event.body.author
abbrev kind (e : StoredEvent B) : String := e.event.body.kind
abbrev parents (e : StoredEvent B) : List EventId := e.event.body.parents

/-- The wire determines the event. -/
theorem event_eq {e f : StoredEvent B} (h : e.wire = f.wire) : e.event = f.event := by
  have := e.authentic.parses
  rw [h, f.authentic.parses, Except.ok.injEq] at this
  exact this.symm

theorem ext_wire {e f : StoredEvent B} (h : e.wire = f.wire) : e = f := by
  obtain ⟨event, wire, authentic⟩ := e
  obtain ⟨event', wire', authentic'⟩ := f
  obtain rfl : event = event' := event_eq (e := ⟨event, wire, authentic⟩) h
  obtain rfl : wire = wire' := h
  rfl

theorem ext_event {e f : StoredEvent B} (h : e.event = f.event) : e = f := by
  refine ext_wire ?_
  have := e.authentic.renders
  rw [h, f.authentic.renders, Except.ok.injEq] at this
  exact this.symm

theorem mem_map_event {e : StoredEvent B} {es : List (StoredEvent B)} :
    e.event ∈ es.map StoredEvent.event ↔ e ∈ es :=
  List.mem_map_of_injective fun _ _ heq ↦ ext_event heq

instance : DecidableEq (StoredEvent B) := fun e f ↦
  decidable_of_iff (e.wire = f.wire) ⟨ext_wire, fun h ↦ h ▸ rfl⟩

def row (e : StoredEvent B) : EventRow :=
  ⟨cell e.id.bytes, cell e.context.bytes, cell e.author.bytes, .text e.kind, .blob e.wire⟩

/-- The edge rows of a child whose parents take the ordinals from `first` on. -/
def edgesFrom (child : EventId) (first : ℕ) : List EventId → List EdgeRow
  | [] => []
  | parent :: rest =>
    ⟨cell child.bytes, .integer first, cell parent.bytes⟩ :: edgesFrom child (first + 1) rest

def edges (e : StoredEvent B) : List EdgeRow := edgesFrom e.id 0 e.parents

end StoredEvent

/-- A provisioned context, with its activation. -/
structure Registration where
  context : ContextId
  expected : EventId
  active : Bool
  deriving DecidableEq

def Registration.state (r : Registration) : ℤ := if r.active then 1 else 0

def Registration.row (r : Registration) : ContextRow :=
  ⟨cell r.context.bytes, cell r.expected.bytes,
    if r.active then cell r.expected.bytes else .null, .integer r.state⟩

def LocalRef.row (ref : LocalRef) : LocalRefRow :=
  ⟨cell ref.context.bytes, .text ref.name.asStr, cell ref.head.bytes⟩

def RemoteRef.row (ref : RemoteRef) : RemoteRefRow :=
  ⟨.text ref.peer.asStr, cell ref.context.bytes, .text ref.name.asStr, cell ref.head.bytes⟩

/-- The typed content of a store, in insertion order. -/
structure Ledger (B : Boundary) where
  registrations : List Registration
  authors : List (ContextId × AuthorId)
  events : List (StoredEvent B)
  localRefs : List LocalRef
  remoteRefs : List RemoteRef

theorem cell_injective : Function.Injective cell := by
  rintro ⟨first, hfirst⟩ ⟨second, hsecond⟩ h
  exact Subtype.ext (SqlValue.blob.inj h)

@[simp] theorem cell_inj {a b : Fixed 32} : cell a = cell b ↔ a = b := cell_injective.eq_iff

@[simp] theorem eventId_bytes_inj {a b : EventId} : a.bytes = b.bytes ↔ a = b :=
  ⟨fun h ↦ congrArg EventId.mk h, fun h ↦ h ▸ rfl⟩

@[simp] theorem contextId_bytes_inj {a b : ContextId} : a.bytes = b.bytes ↔ a = b :=
  ⟨fun h ↦ congrArg ContextId.mk h, fun h ↦ h ▸ rfl⟩

@[simp] theorem authorId_bytes_inj {a b : AuthorId} : a.bytes = b.bytes ↔ a = b :=
  ⟨fun h ↦ congrArg AuthorId.mk h, fun h ↦ h ▸ rfl⟩

@[simp] theorem localRefName_asStr_inj {a b : LocalRefName} : a.asStr = b.asStr ↔ a = b :=
  LocalRefName.asStr_injective.eq_iff

@[simp] theorem peerName_asStr_inj {a b : PeerName} : a.asStr = b.asStr ↔ a = b :=
  PeerName.asStr_injective.eq_iff

@[simp] theorem exact32_cell (bytes : Fixed 32) : exact32 (cell bytes) = .ok bytes := by
  rw [exact32, cell, blobValue, ok_bind, dif_pos bytes.2]

@[simp] theorem idValue_cell (id : EventId) : idValue (cell id.bytes) = .ok id := by
  rw [idValue, exact32_cell, ok_bind]

@[simp] theorem contextValue_cell (context : ContextId) :
    contextValue (cell context.bytes) = .ok context := by
  rw [contextValue, exact32_cell, ok_bind]

@[simp] theorem authorValue_cell (author : AuthorId) :
    authorValue (cell author.bytes) = .ok author := by
  rw [authorValue, exact32_cell, ok_bind]

namespace Ledger

variable {B : Boundary} (L : Ledger B)

def empty : Ledger B := ⟨[], [], [], [], []⟩

/-- The rows of the ledger. -/
def tables : Tables where
  contexts := L.registrations.map Registration.row
  authorizedAuthors := L.authors.map fun entry ↦ ⟨cell entry.1.bytes, cell entry.2.bytes⟩
  events := L.events.map StoredEvent.row
  parentEdges := L.events.flatMap StoredEvent.edges
  localRefs := L.localRefs.map LocalRef.row
  remoteRefs := L.remoteRefs.map RemoteRef.row

def registration (context : ContextId) : Option Registration :=
  L.registrations.find? fun r ↦ r.context = context

def find (id : EventId) : Option (StoredEvent B) := L.events.find? fun e ↦ e.id = id

def localHead (context : ContextId) (name : LocalRefName) : Option EventId :=
  (L.localRefs.find? fun ref ↦ (ref.context, ref.name) = (context, name)).map LocalRef.head

def remoteHead (peer : PeerName) (context : ContextId) (name : LocalRefName) : Option EventId :=
  (L.remoteRefs.find? fun ref ↦ (ref.peer, ref.context, ref.name) = (peer, context, name)).map
    RemoteRef.head

/-- The primary keys of the ledger. -/
structure WellKeyed : Prop where
  registrations : (L.registrations.map Registration.context).Nodup
  authors : L.authors.Nodup
  events : (L.events.map StoredEvent.id).Nodup
  localRefs : (L.localRefs.map fun ref ↦ (ref.context, ref.name)).Nodup
  remoteRefs : (L.remoteRefs.map fun ref ↦ (ref.peer, ref.context, ref.name)).Nodup

variable {L}

theorem WellKeyed.registration_eq_some (h : L.WellKeyed) {context : ContextId} {r : Registration} :
    L.registration context = some r ↔ r ∈ L.registrations ∧ r.context = context :=
  find_key_eq_some h.registrations

theorem registration_eq_none {context : ContextId} :
    L.registration context = none ↔ ∀ r ∈ L.registrations, r.context ≠ context :=
  find_key_eq_none

theorem WellKeyed.find_eq_some (h : L.WellKeyed) {id : EventId} {e : StoredEvent B} :
    L.find id = some e ↔ e ∈ L.events ∧ e.id = id :=
  find_key_eq_some h.events

theorem find_eq_none {id : EventId} : L.find id = none ↔ ∀ e ∈ L.events, e.id ≠ id :=
  find_key_eq_none

theorem WellKeyed.localHead_eq_some (h : L.WellKeyed) {context : ContextId} {name : LocalRefName}
    {head : EventId} :
    L.localHead context name = some head ↔ (⟨context, name, head⟩ : LocalRef) ∈ L.localRefs := by
  rw [localHead, Option.map_eq_some_iff]
  constructor
  · rintro ⟨ref, hfind, rfl⟩
    obtain ⟨hmem, hkey⟩ := (find_key_eq_some h.localRefs).mp hfind
    obtain ⟨rfl, rfl⟩ := Prod.mk.inj hkey
    exact hmem
  · intro hmem
    exact ⟨_, (find_key_eq_some h.localRefs).mpr ⟨hmem, rfl⟩, rfl⟩

theorem localHead_eq_none {context : ContextId} {name : LocalRefName} :
    L.localHead context name = none ↔
      ∀ ref ∈ L.localRefs, ¬ (ref.context = context ∧ ref.name = name) := by
  rw [localHead, Option.map_eq_none_iff, find_key_eq_none]
  simp

theorem WellKeyed.remoteHead_eq_some (h : L.WellKeyed) {peer : PeerName} {context : ContextId}
    {name : LocalRefName} {head : EventId} : L.remoteHead peer context name = some head ↔
      (⟨peer, context, name, head⟩ : RemoteRef) ∈ L.remoteRefs := by
  rw [remoteHead, Option.map_eq_some_iff]
  constructor
  · rintro ⟨ref, hfind, rfl⟩
    obtain ⟨hmem, hkey⟩ := (find_key_eq_some h.remoteRefs).mp hfind
    simp only [Prod.mk.injEq] at hkey
    obtain ⟨rfl, rfl, rfl⟩ := hkey
    exact hmem
  · intro hmem
    exact ⟨_, (find_key_eq_some h.remoteRefs).mpr ⟨hmem, rfl⟩, rfl⟩

theorem remoteHead_eq_none {peer : PeerName} {context : ContextId} {name : LocalRefName} :
    L.remoteHead peer context name = none ↔
      ∀ ref ∈ L.remoteRefs, ¬ (ref.peer = peer ∧ ref.context = context ∧ ref.name = name) := by
  rw [remoteHead, Option.map_eq_none_iff, find_key_eq_none]
  simp

/-- Two stored events with one identity are one event. -/
theorem WellKeyed.event_eq_of_id (h : L.WellKeyed) {e f : StoredEvent B} (he : e ∈ L.events)
    (hf : f ∈ L.events) (hid : e.id = f.id) : e = f := by
  have hfind : L.find f.id = some e := h.find_eq_some.mpr ⟨he, hid⟩
  rw [h.find_eq_some.mpr ⟨hf, rfl⟩] at hfind
  exact (Option.some.inj hfind).symm

/-! ### Queries on the rows of events -/

section Rows

variable {t : Tables} {es : List (StoredEvent B)}

theorem filter_events (hevents : t.events = es.map StoredEvent.row) (id : EventId) :
    (t.events.filter fun row ↦ row.eventId = cell id.bytes) =
      (es.filter fun e ↦ e.id = id).map StoredEvent.row := by
  simp only [hevents, List.filter_map]
  congr 2
  funext e
  simp [StoredEvent.row]

theorem eventWire_rows (hevents : t.events = es.map StoredEvent.row)
    (hnodup : (es.map StoredEvent.id).Nodup) (id : EventId) :
    eventWire t id = .ok ((es.find? fun e ↦ e.id = id).map StoredEvent.wire) := by
  rw [eventWire, filter_events hevents, filter_key hnodup]
  cases es.find? fun e ↦ e.id = id with
  | none => rfl
  | some e => simp [StoredEvent.row, blobValue]

theorem validateStoredEvent_rows (hevents : t.events = es.map StoredEvent.row)
    (hnodup : (es.map StoredEvent.id).Nodup) {e : StoredEvent B} (he : e ∈ es)
    (hedges : edgeRows t e.id = .ok e.parents) : validateStoredEvent B t e.event = .ok () := by
  have hfind : (es.find? fun f ↦ f.id = e.event.eventId) = some e :=
    (find_key_eq_some hnodup).mpr ⟨he, rfl⟩
  rw [validateStoredEvent, filter_events hevents, filter_key hnodup, hfind]
  simp only [StoredEvent.id] at hedges
  simp [StoredEvent.row, textValue, blobValue, e.authentic.renders, hedges]

theorem loadVerifiedEvent_rows (hevents : t.events = es.map StoredEvent.row)
    (hnodup : (es.map StoredEvent.id).Nodup) (hedges : ∀ e ∈ es, edgeRows t e.id = .ok e.parents)
    (id : EventId) : loadVerifiedEvent B t id =
      required ((es.find? fun e ↦ e.id = id).map StoredEvent.event) (.parentMissing id) := by
  rw [loadVerifiedEvent, eventWire_rows hevents hnodup, ok_bind]
  cases hfind : es.find? fun e ↦ e.id = id with
  | none => rfl
  | some e =>
    obtain ⟨hmem, hid⟩ := (find_key_eq_some hnodup).mp hfind
    have hid : e.event.eventId = id := hid
    simp [e.authentic.parses, hid, validateStoredEvent_rows hevents hnodup hmem (hedges e hmem)]

end Rows

/-! ### Queries on the tables of a ledger -/

section Queries

variable (L)

theorem filter_contexts (context : ContextId) :
    (L.tables.contexts.filter fun row ↦ row.contextId = cell context.bytes) =
      (L.registrations.filter fun r ↦ r.context = context).map Registration.row := by
  simp only [tables, List.filter_map]
  congr 2
  funext r
  simp [Registration.row]

variable {L}

theorem contextRow_tables (h : L.WellKeyed) (context : ContextId) :
    contextRow L.tables context =
      .ok ((L.registration context).map fun r ↦ (r.expected, r.state)) := by
  rw [contextRow, filter_contexts, filter_key h.registrations]
  change _ = Except.ok ((L.registrations.find? fun r ↦ r.context = context).map _)
  cases L.registrations.find? fun r ↦ r.context = context with
  | none => rfl
  | some r =>
    obtain ⟨_, expected, active⟩ := r
    cases active <;>
      simp [Registration.row, Registration.state, optionalId, integerValue, cell, exact32,
        blobValue, idValue, expected.bytes.2]

/-- A context row is the row of the registration of the context. -/
theorem WellKeyed.registration_of_row (h : L.WellKeyed) {context : ContextId} {expected : EventId}
    {state : ℤ} (hrow : contextRow L.tables context = .ok (some (expected, state))) :
    ∃ r, L.registration context = some r ∧ r.expected = expected := by
  rw [contextRow_tables h, Except.ok.injEq] at hrow
  obtain ⟨r, hr, hpair⟩ := Option.map_eq_some_iff.mp hrow
  exact ⟨r, hr, (Prod.mk.inj hpair).1⟩

theorem isAuthorized_tables (h : L.WellKeyed) (context : ContextId) (author : AuthorId) :
    isAuthorized L.tables context author = decide ((context, author) ∈ L.authors) := by
  have hcount : (L.tables.authorizedAuthors.countP fun row ↦
      row.contextId = cell context.bytes ∧ row.authorId = cell author.bytes) =
      L.authors.count (context, author) := by
    rw [tables, List.countP_map, List.count]
    congr 1
    funext entry
    obtain ⟨entryContext, entryAuthor⟩ := entry
    rw [Bool.eq_iff_iff]
    simp
  rw [isAuthorized, hcount]
  by_cases hmem : (context, author) ∈ L.authors
  · simp [hmem, List.count_eq_one_of_mem h.authors hmem]
  · simp [hmem, List.count_eq_zero_of_not_mem hmem]

theorem eventWire_tables (h : L.WellKeyed) (id : EventId) :
    eventWire L.tables id = .ok ((L.find id).map StoredEvent.wire) :=
  eventWire_rows rfl h.events id

theorem authoritativeEventContext_tables (h : L.WellKeyed) (id : EventId) :
    authoritativeEventContext B L.tables id = .ok ((L.find id).map StoredEvent.context) := by
  rw [authoritativeEventContext, eventWire_tables h, ok_bind]
  cases hfind : L.find id with
  | none => rfl
  | some e =>
    have hid : e.event.eventId = id := (h.find_eq_some.mp hfind).2
    simp [e.authentic.parses, hid]

theorem hasContext_tables {context : ContextId} :
    L.tables.hasContext (cell context.bytes) ↔ L.registration context ≠ none := by
  rw [Ne, registration_eq_none]
  simp [Tables.hasContext, tables, Registration.row]

theorem hasEvent_tables {id : EventId} :
    L.tables.hasEvent (cell id.bytes) ↔ L.find id ≠ none := by
  rw [Ne, find_eq_none]
  simp [Tables.hasEvent, tables, StoredEvent.row]

theorem hasAuthor_tables {context : ContextId} {author : AuthorId} :
    L.tables.hasAuthor context author ↔ (context, author) ∈ L.authors := by
  simp only [Tables.hasAuthor, tables, List.mem_map, exists_exists_and_eq_and, cell_inj,
    contextId_bytes_inj, authorId_bytes_inj]
  constructor
  · rintro ⟨entry, hmem, rfl, rfl⟩
    exact hmem
  · intro hmem
    exact ⟨_, hmem, rfl, rfl⟩

theorem filter_edgesFrom (child id : EventId) (first : ℕ) (parents : List EventId) :
    ((StoredEvent.edgesFrom child first parents).filter fun row ↦ row.childId = cell id.bytes) =
      if child = id then StoredEvent.edgesFrom child first parents else [] := by
  induction parents generalizing first with
  | nil => simp [StoredEvent.edgesFrom]
  | cons parent rest ih =>
    rw [StoredEvent.edgesFrom, List.filter_cons, ih]
    by_cases hchild : child = id <;> simp [hchild]

theorem filter_edges (h : L.WellKeyed) {e : StoredEvent B} (he : e ∈ L.events) :
    (L.tables.parentEdges.filter fun row ↦ row.childId = cell e.id.bytes) = e.edges := by
  have hother : ∀ f : StoredEvent B, (f.edges.filter fun row ↦ row.childId = cell e.id.bytes) =
      if f.id = e.id then f.edges else [] := fun f ↦ filter_edgesFrom f.id e.id 0 f.parents
  have hnone {rest : List (StoredEvent B)} (hrest : ∀ f ∈ rest, f.id ≠ e.id) :
      ((rest.flatMap StoredEvent.edges).filter fun row ↦ row.childId = cell e.id.bytes) = [] := by
    rw [List.filter_eq_nil_iff]
    intro row hrow
    obtain ⟨f, hf, hrow⟩ := List.mem_flatMap.mp hrow
    intro hchild
    have hmem : row ∈ f.edges.filter fun row ↦ row.childId = cell e.id.bytes :=
      List.mem_filter.mpr ⟨hrow, hchild⟩
    rw [hother, if_neg (hrest f hf)] at hmem
    exact absurd hmem List.not_mem_nil
  obtain ⟨before, after, hsplit⟩ := List.append_of_mem he
  have hnodup := h.events
  rw [hsplit, List.map_append, List.map_cons, List.nodup_middle, List.nodup_cons,
    List.mem_append, not_or] at hnodup
  obtain ⟨⟨hbefore, hafter⟩, -⟩ := hnodup
  rw [tables, hsplit]
  simp only [List.flatMap_append, List.flatMap_cons, List.filter_append]
  rw [hnone fun f hf heq ↦ hbefore (heq ▸ List.mem_map_of_mem hf),
    hnone fun f hf heq ↦ hafter (heq ▸ List.mem_map_of_mem hf), hother, if_pos rfl]
  simp

/-- The edges of an event are in ordinal order as they stand. -/
theorem edgesFrom_canonical (child : EventId) (first : ℕ) (parents : List EventId) :
    Canonical (fun row : EdgeRow ↦ row.ordinal.key)
      (StoredEvent.edgesFrom child first parents) := by
  induction parents generalizing first with
  | nil => exact canonical_nil _
  | cons parent rest ih =>
    cases rest with
    | nil => exact canonical_singleton _ _
    | cons next rest =>
      refine List.IsChain.cons_cons ?_ (ih (first + 1))
      simp [SqlValue.key, Prod.Lex.toLex_lt_toLex]

theorem mapEach_edgesFrom (child : EventId) (first : ℕ) (parents : List EventId) :
    mapEach (fun row : EdgeRow ↦ idValue row.parentId)
      (StoredEvent.edgesFrom child first parents) = .ok parents := by
  induction parents generalizing first with
  | nil => rfl
  | cons parent rest ih =>
    rw [StoredEvent.edgesFrom, mapEach, idValue_cell, ok_bind, ih, ok_bind]

theorem edgeRows_tables (h : L.WellKeyed) {e : StoredEvent B} (he : e ∈ L.events) :
    edgeRows L.tables e.id = .ok e.parents := by
  rw [edgeRows, filter_edges h he, StoredEvent.edges,
    sort_eq_self (edgesFrom_canonical _ _ _), mapEach_edgesFrom]

theorem validateStoredEvent_tables (h : L.WellKeyed) {e : StoredEvent B} (he : e ∈ L.events) :
    validateStoredEvent B L.tables e.event = .ok () :=
  validateStoredEvent_rows rfl h.events he (edgeRows_tables h he)

theorem loadVerifiedEvent_tables (h : L.WellKeyed) (id : EventId) :
    loadVerifiedEvent B L.tables id =
      required ((L.find id).map StoredEvent.event) (.parentMissing id) :=
  loadVerifiedEvent_rows rfl h.events (fun _ he ↦ edgeRows_tables h he) id

theorem event_tables (h : L.WellKeyed) (id : EventId) :
    event B L.tables id = .ok ((L.find id).map StoredEvent.event) := by
  rw [event, eventWire_tables h, ok_bind]
  cases hfind : L.find id with
  | none => rfl
  | some e =>
    simp [e.authentic.parses, validateStoredEvent_tables h (h.find_eq_some.mp hfind).1]

theorem localRefId_tables (h : L.WellKeyed) (context : ContextId) (name : LocalRefName) :
    localRefId L.tables context name = .ok (L.localHead context name) := by
  have hfilter : (L.tables.localRefs.filter fun row ↦
      row.contextId = cell context.bytes ∧ row.name = .text name.asStr) =
      (L.localRefs.filter fun ref ↦ (ref.context, ref.name) = (context, name)).map
        LocalRef.row := by
    simp only [tables, List.filter_map]
    congr 2
    funext ref
    simp [LocalRef.row]
  rw [localRefId, hfilter, filter_key h.localRefs, localHead]
  cases L.localRefs.find? fun ref ↦ (ref.context, ref.name) = (context, name) with
  | none => rfl
  | some ref => simp [LocalRef.row, queryOptionalId]

theorem remoteRefId_tables (h : L.WellKeyed) (peer : PeerName) (context : ContextId)
    (name : LocalRefName) :
    remoteRefId L.tables peer context name = .ok (L.remoteHead peer context name) := by
  have hfilter : (L.tables.remoteRefs.filter fun row ↦ row.peer = .text peer.asStr ∧
      row.contextId = cell context.bytes ∧ row.name = .text name.asStr) =
      (L.remoteRefs.filter fun ref ↦
        (ref.peer, ref.context, ref.name) = (peer, context, name)).map RemoteRef.row := by
    simp only [tables, List.filter_map]
    congr 2
    funext ref
    simp [RemoteRef.row]
  rw [remoteRefId, hfilter, filter_key h.remoteRefs, remoteHead]
  cases L.remoteRefs.find? fun ref ↦
      (ref.peer, ref.context, ref.name) = (peer, context, name) with
  | none => rfl
  | some ref => simp [RemoteRef.row, queryOptionalId]

end Queries

end Ledger

end ContextMesh.Store
