import ContextMesh.Ledger.Changes

/-!
The statements of the store on the tables of a ledger: each one succeeds where the change it makes
is admitted, and leaves the tables of the changed ledger.
-/

set_option autoImplicit false
set_option relaxedAutoImplicit false

namespace ContextMesh.Store

open Checked Ordered Keyed Contract

variable {B : Boundary}

namespace StoredEvent

theorem valid (e : StoredEvent B) : e.event.body.validate B = .ok () :=
  SignedEventV1.verify_validate (SignedEventV1.toWire_eq_ok.mp e.authentic.renders).1

theorem parents_length (e : StoredEvent B) : e.parents.length ≤ MAX_PARENTS :=
  ensure_eq_ok.mp (unit_bind_eq_ok.mp (unit_bind_eq_ok.mp e.valid).2).1

theorem parents_nodup (e : StoredEvent B) : e.parents.Nodup := by
  obtain ⟨-, h⟩ := unit_bind_eq_ok.mp e.valid
  obtain ⟨-, h⟩ := unit_bind_eq_ok.mp h
  obtain ⟨-, h⟩ := unit_bind_eq_ok.mp h
  exact (ensure_eq_ok.mp (unit_bind_eq_ok.mp h).1).nodup

end StoredEvent

theorem insertEdges_eq {t : Tables} {child : EventId} {first : ℕ} {parents : List EventId}
    (hchild : t.hasEvent (cell child.bytes))
    (hparents : ∀ parent ∈ parents, t.hasEvent (cell parent.bytes))
    (hbound : first + parents.length ≤ 64) (hnodup : parents.Nodup)
    (hold : ∀ row ∈ t.parentEdges, row.childId = cell child.bytes →
      (∃ k < first, row.ordinal = .integer k) ∧
        ∀ parent ∈ parents, row.parentId ≠ cell parent.bytes) :
    t.insertEdges child first parents = .ok { t with
      parentEdges := t.parentEdges ++ StoredEvent.edgesFrom child first parents } := by
  induction parents generalizing t first with
  | nil => simp [Tables.insertEdges, StoredEvent.edgesFrom]
  | cons parent rest ih =>
    rw [List.length_cons] at hbound
    obtain ⟨hparent, hrest⟩ := List.nodup_cons.mp hnodup
    have hguard : first < 64 ∧ (∀ row ∈ t.parentEdges, row.childId = cell child.bytes →
        row.ordinal ≠ .integer first ∧ row.parentId ≠ cell parent.bytes) ∧
        t.hasEvent (cell child.bytes) ∧ t.hasEvent (cell parent.bytes) := by
      refine ⟨by omega, fun row hrow hchild ↦ ?_, hchild, hparents parent List.mem_cons_self⟩
      obtain ⟨⟨k, hk, hordinal⟩, hother⟩ := hold row hrow hchild
      refine ⟨fun heq ↦ ?_, hother parent List.mem_cons_self⟩
      rw [hordinal, SqlValue.integer.injEq, Nat.cast_inj] at heq
      omega
    rw [Tables.insertEdges, Tables.insertEdge, ensure_true hguard, ok_bind, ok_bind, ih]
    · simp [StoredEvent.edgesFrom]
    · exact hchild
    · exact fun other hother ↦ hparents other (List.mem_cons_of_mem _ hother)
    · omega
    · exact hrest
    · intro row hrow hrowChild
      rcases List.mem_append.mp hrow with hrow | hrow
      · obtain ⟨⟨k, hk, hordinal⟩, hother⟩ := hold row hrow hrowChild
        exact ⟨⟨k, by omega, hordinal⟩, fun p hp ↦ hother p (List.mem_cons_of_mem _ hp)⟩
      · rw [List.mem_singleton] at hrow
        subst hrow
        refine ⟨⟨first, by omega, rfl⟩, fun p hp heq ↦ hparent ?_⟩
        rw [cell_inj, eventId_bytes_inj] at heq
        exact heq ▸ hp

namespace Ledger

variable {L : Ledger B}

/-- The rows of a fresh event whose context is registered and whose parents are stored. -/
theorem insertEventRows_tables {e : StoredEvent B} (hfresh : L.find e.id = none)
    (hregistered : L.registration e.context ≠ none)
    (hparents : ∀ parent ∈ e.parents, L.find parent ≠ none) :
    insertEventRows e.event e.wire L.tables = .ok { L.tables with
      events := L.tables.events ++ [e.row]
      parentEdges := L.tables.parentEdges ++ e.edges } := by
  have hguard : ¬ L.tables.hasEvent (cell e.id.bytes) ∧
      L.tables.hasContext (cell e.context.bytes) :=
    ⟨fun h ↦ hasEvent_tables.mp h hfresh, hasContext_tables.mpr hregistered⟩
  rw [insertEventRows, Tables.insertEvent, ensure_true hguard, ok_bind, ok_bind, insertEdges_eq]
  · rfl
  · exact ⟨e.row, List.mem_append_right _ (List.mem_singleton_self _), rfl⟩
  · intro parent hparent
    obtain ⟨row, hrow, hid⟩ := hasEvent_tables.mpr (hparents parent hparent)
    exact ⟨row, List.mem_append_left _ hrow, hid⟩
  · have := e.parents_length
    have hmax : MAX_PARENTS = 64 := rfl
    simp only [StoredEvent.parents] at this
    omega
  · exact e.parents_nodup
  · intro row hrow hchild
    -- a fresh event has no edge row yet
    exfalso
    obtain ⟨f, hf, hrow⟩ := List.mem_flatMap.mp hrow
    have hmem : row ∈ f.edges.filter fun row ↦ row.childId = cell e.id.bytes :=
      List.mem_filter.mpr ⟨hrow, decide_eq_true hchild⟩
    rw [StoredEvent.edges, filter_edgesFrom, if_neg (find_eq_none.mp hfresh f hf)] at hmem
    exact absurd hmem List.not_mem_nil

/-- Recording an event of an active context leaves the registrations alone. -/
theorem registrations_record_of_active (h : L.WellKeyed) {e : StoredEvent B} {r : Registration}
    (hr : L.registration e.context = some r) (hactive : r.active = true) :
    (L.record e).registrations = L.registrations := by
  obtain ⟨hmem, hcontext⟩ := h.registration_eq_some.mp hr
  refine (List.map_congr_left fun s hs ↦ ?_).trans (List.map_id _)
  split_ifs with hsame
  · have hs' : L.registration e.context = some s := h.registration_eq_some.mpr ⟨hs, hsame⟩
    rw [hr, Option.some.injEq] at hs'
    rw [← hs', ← hactive]
    rfl
  · rfl

theorem record_tables_of_active (h : L.WellKeyed) {e : StoredEvent B} {r : Registration}
    (hr : L.registration e.context = some r) (hactive : r.active = true) :
    (L.record e).tables = { L.tables with
      events := L.tables.events ++ [e.row]
      parentEdges := L.tables.parentEdges ++ e.edges } := by
  have hregistrations := registrations_record_of_active h hr hactive
  simp only [tables, hregistrations]
  simp [record]

/-- Activation of a pending context by its freshly inserted genesis. -/
theorem activate_tables (h : L.WellFormed) {e : StoredEvent B} {r : Registration}
    (hr : L.registration e.context = some r) (hpending : r.active = false)
    (hgenesis : e.id = r.expected) (hfresh : L.find e.id = none) :
    activate e.context e.id { L.tables with
      events := L.tables.events ++ [e.row]
      parentEdges := L.tables.parentEdges ++ e.edges } = .ok (L.record e).tables := by
  obtain ⟨hmem, hcontext⟩ := h.registration_eq_some.mp hr
  have hmatch : ∀ s ∈ L.registrations, ((s.row.contextId = cell e.context.bytes ∧
      s.row.state = .integer 0 ∧ s.row.expectedGenesisId = cell e.id.bytes) ↔
        s.context = e.context) := by
    intro s hs
    constructor
    · rintro ⟨hs', -⟩
      simpa [Registration.row] using hs'
    · intro hs'
      have hsame := h.registration_eq_some.mpr ⟨hs, hs'⟩
      rw [hr, Option.some.injEq] at hsame
      subst hsame
      simp [Registration.row, Registration.state, hpending, hgenesis, hs']
  have hcount : (L.tables.contexts.countP fun row ↦ row.contextId = cell e.context.bytes ∧
      row.state = .integer 0 ∧ row.expectedGenesisId = cell e.id.bytes) = 1 := by
    rw [tables, List.countP_map, List.countP_congr (q := fun s ↦ s.context = e.context),
      List.countP_eq_length_filter, filter_key h.registrations]
    · change ((L.registration e.context).toList).length = 1
      rw [hr]
      rfl
    · intro s hs
      simpa using hmatch s hs
  have hnull : ∀ row ∈ L.tables.contexts, (row.contextId = cell e.context.bytes ∧
      row.state = .integer 0 ∧ row.expectedGenesisId = cell e.id.bytes) →
        row.genesisEventId = .null := by
    intro row hrow hmatching
    obtain ⟨s, hs, rfl⟩ := List.mem_map.mp hrow
    have hsame := h.registration_eq_some.mpr ⟨hs, (hmatch s hs).mp hmatching⟩
    rw [hr, Option.some.injEq] at hsame
    rw [← hsame]
    simp [Registration.row, hpending]
  have hunique : ∀ row ∈ L.tables.contexts, row.genesisEventId ≠ cell e.id.bytes := by
    intro row hrow heq
    obtain ⟨s, hs, rfl⟩ := List.mem_map.mp hrow
    cases hactive : s.active with
    | false => simp [Registration.row, hactive, cell] at heq
    | true =>
      obtain ⟨f, hf, -, hgenesis', -⟩ := h.genesis s hs hactive
      have hexpected : s.expected = e.id := by simpa [Registration.row, hactive] using heq
      exact find_eq_none.mp hfresh f hf (hgenesis'.trans hexpected)
  rw [activate, Tables.activateContext]
  dsimp only
  rw [if_neg (by rw [hcount]; exact one_ne_zero), ensure_true ⟨hnull, hunique⟩, ok_bind, ok_bind]
  dsimp only
  rw [ensure_true hcount, ok_bind, Except.ok.injEq]
  simp only [tables, record, List.map_map, List.map_append, List.map_cons, List.map_nil,
    List.flatMap_append, List.flatMap_cons, List.flatMap_nil, List.append_nil, Tables.mk.injEq,
    and_true]
  refine List.map_congr_left fun s hs ↦ ?_
  have hs' := hmatch s hs
  by_cases hsame : s.context = e.context
  · have hexpected : s.expected = e.id := by
      have hsame' := h.registration_eq_some.mpr ⟨hs, hsame⟩
      rw [hr, Option.some.injEq] at hsame'
      rw [← hsame', hgenesis]
    simp only [Function.comp_apply, if_pos (hs'.mpr hsame), if_pos hsame]
    simp [Registration.row, Registration.state, hexpected]
  · simp only [Function.comp_apply, if_neg (fun hm ↦ hsame (hs'.mp hm)), if_neg hsame]

theorem insertLocalRef_tables (ref : LocalRef) (habsent : L.localHead ref.context ref.name = none)
    (hregistered : L.registration ref.context ≠ none) (hstored : L.find ref.head ≠ none) :
    L.tables.insertLocalRef ref.context ref.name ref.head = .ok (L.setLocal ref).tables := by
  rw [localHead_eq_none] at habsent
  have hkeys : ∀ row ∈ L.tables.localRefs, ¬ (row.contextId = cell ref.context.bytes ∧
      row.name = .text ref.name.asStr) := by
    intro row hrow
    obtain ⟨other, hother, rfl⟩ := List.mem_map.mp hrow
    simpa [LocalRef.row] using habsent other hother
  have hput : (L.setLocal ref).localRefs = L.localRefs ++ [ref] :=
    put_of_fresh fun other hother heq ↦ habsent other hother (Prod.mk.inj heq)
  rw [Tables.insertLocalRef, ensure_true ⟨hkeys, hasContext_tables.mpr hregistered,
    hasEvent_tables.mpr hstored⟩, ok_bind]
  simp only [tables, hput]
  simp [setLocal, LocalRef.row]

theorem updateLocalRef_tables (h : L.WellKeyed) (ref : LocalRef) {expected : EventId}
    (hcurrent : L.localHead ref.context ref.name = some expected)
    (hstored : L.find ref.head ≠ none) :
    L.tables.updateLocalRef ref.context ref.name expected ref.head =
      .ok ((L.setLocal ref).tables, 1) := by
  have hmem := h.localHead_eq_some.mp hcurrent
  have hmatch : ∀ other ∈ L.localRefs, ((other.row.contextId = cell ref.context.bytes ∧
      other.row.name = .text ref.name.asStr ∧ other.row.eventId = cell expected.bytes) ↔
        (other.context, other.name) = (ref.context, ref.name)) := by
    intro other hother
    constructor
    · rintro ⟨hc, hn, -⟩
      simpa [LocalRef.row] using And.intro hc hn
    · intro hkey
      have hsame : other = ⟨ref.context, ref.name, expected⟩ := by
        have hfind := (find_key_eq_some h.localRefs).mpr ⟨hother, hkey⟩
        rw [(find_key_eq_some h.localRefs).mpr ⟨hmem, rfl⟩, Option.some.injEq] at hfind
        exact hfind.symm
      simp [LocalRef.row, hsame]
  have hcount : (L.tables.localRefs.countP fun row ↦ row.contextId = cell ref.context.bytes ∧
      row.name = .text ref.name.asStr ∧ row.eventId = cell expected.bytes) = 1 := by
    rw [tables, List.countP_map,
      List.countP_congr (q := fun other ↦ (other.context, other.name) = (ref.context, ref.name)),
      List.countP_eq_length_filter, filter_key h.localRefs,
      (find_key_eq_some h.localRefs).mpr ⟨hmem, rfl⟩]
    · rfl
    · intro other hother
      simpa using hmatch other hother
  have hput : (L.setLocal ref).localRefs = L.localRefs.map fun other ↦
      if (other.context, other.name) = (ref.context, ref.name) then ref else other :=
    put_of_present fun hall ↦ hall _ hmem rfl
  rw [Tables.updateLocalRef]
  dsimp only
  rw [if_neg (by rw [hcount]; exact one_ne_zero), ensure_true (hasEvent_tables.mpr hstored),
    ok_bind, hcount, Except.ok.injEq, Prod.mk.injEq]
  refine ⟨?_, rfl⟩
  simp only [tables, hput]
  simp only [setLocal, List.map_map, Tables.mk.injEq, true_and, and_true]
  refine List.map_congr_left fun other hother ↦ ?_
  have hother' := hmatch other hother
  by_cases hkey : (other.context, other.name) = (ref.context, ref.name)
  · simp only [Function.comp_apply, if_pos (hother'.mpr hkey), if_pos hkey]
    obtain ⟨hc, hn⟩ := Prod.mk.inj hkey
    simp [LocalRef.row, hc, hn]
  · simp only [Function.comp_apply, if_neg (fun hm ↦ hkey (hother'.mp hm)), if_neg hkey]

theorem insertRemoteRef_tables (ref : RemoteRef)
    (habsent : L.remoteHead ref.peer ref.context ref.name = none)
    (hregistered : L.registration ref.context ≠ none) (hstored : L.find ref.head ≠ none) :
    L.tables.insertRemoteRef ref.peer ref.context ref.name ref.head =
      .ok (L.setRemote ref).tables := by
  rw [remoteHead_eq_none] at habsent
  have hkeys : ∀ row ∈ L.tables.remoteRefs, ¬ (row.peer = .text ref.peer.asStr ∧
      row.contextId = cell ref.context.bytes ∧ row.name = .text ref.name.asStr) := by
    intro row hrow
    obtain ⟨other, hother, rfl⟩ := List.mem_map.mp hrow
    simpa [RemoteRef.row] using habsent other hother
  have hput : (L.setRemote ref).remoteRefs = L.remoteRefs ++ [ref] :=
    put_of_fresh fun other hother heq ↦ habsent other hother (by simpa using heq)
  rw [Tables.insertRemoteRef, ensure_true ⟨hkeys, hasContext_tables.mpr hregistered,
    hasEvent_tables.mpr hstored⟩, ok_bind]
  simp only [tables, hput]
  simp [setRemote, RemoteRef.row]

theorem upsertRemoteRef_tables (ref : RemoteRef) (hregistered : L.registration ref.context ≠ none)
    (hstored : L.find ref.head ≠ none) :
    L.tables.upsertRemoteRef ref.peer ref.context ref.name ref.head =
      .ok (L.setRemote ref).tables := by
  have hmatch : ∀ other : RemoteRef, ((other.row.peer = .text ref.peer.asStr ∧
      other.row.contextId = cell ref.context.bytes ∧ other.row.name = .text ref.name.asStr) ↔
        (other.peer, other.context, other.name) = (ref.peer, ref.context, ref.name)) := by
    intro other
    simp [RemoteRef.row]
  rw [Tables.upsertRemoteRef]
  dsimp only
  split_ifs with habsent
  · refine insertRemoteRef_tables ref (remoteHead_eq_none.mpr fun other hother hkey ↦ ?_)
      hregistered hstored
    refine habsent other.row (List.mem_map_of_mem hother) ((hmatch other).mpr ?_)
    simp [hkey]
  · have hput : (L.setRemote ref).remoteRefs = L.remoteRefs.map fun other ↦
        if (other.peer, other.context, other.name) = (ref.peer, ref.context, ref.name) then ref
        else other := by
      refine put_of_present fun hall ↦ habsent fun row hrow hrow' ↦ ?_
      obtain ⟨other, hother, rfl⟩ := List.mem_map.mp hrow
      exact hall other hother ((hmatch other).mp hrow')
    rw [ensure_true (hasEvent_tables.mpr hstored), ok_bind, Except.ok.injEq]
    simp only [tables, hput]
    simp only [setRemote, List.map_map, Tables.mk.injEq, true_and]
    refine List.map_congr_left fun other _ ↦ ?_
    have hother := hmatch other
    by_cases hkey : (other.peer, other.context, other.name) = (ref.peer, ref.context, ref.name)
    · simp only [Function.comp_apply, if_pos (hother.mpr hkey), if_pos hkey]
      simp only [Prod.mk.injEq] at hkey
      simp [RemoteRef.row, hkey]
    · simp only [Function.comp_apply, if_neg (fun hm ↦ hkey (hother.mp hm)), if_neg hkey]

theorem deleteRemoteRefs_tables (peer : PeerName) (context : ContextId) :
    L.tables.deleteRemoteRefs peer context = (L.forget peer context).tables := by
  simp only [Tables.deleteRemoteRefs, tables, forget, List.filter_map, Tables.mk.injEq, true_and]
  congr 2
  funext ref
  simp [RemoteRef.row]

theorem insertProvision_tables (provision : ContextProvision)
    (hfresh : L.registration provision.context = none)
    (hallowed : ∀ entry ∈ L.authors, ∃ r ∈ L.registrations, r.context = entry.1)
    (hnodup : provision.authorizedAuthors.Nodup) :
    insertProvision provision L.tables =
      .ok (L.provision provision.context provision.expectedGenesis
        provision.authorizedAuthors).tables := by
  have hcontext : ¬ L.tables.hasContext (cell provision.context.bytes) := fun hrow ↦
    hasContext_tables.mp hrow hfresh
  have hloop : ∀ (authors : List AuthorId) (M : Ledger B), authors.Nodup →
      M.registration provision.context ≠ none →
      (∀ author ∈ authors, (provision.context, author) ∉ M.authors) →
      foldEach (fun t author ↦ t.insertAuthor provision.context author) M.tables authors =
        .ok { M with authors :=
          M.authors ++ authors.map fun author ↦ (provision.context, author) }.tables := by
    intro authors
    induction authors with
    | nil =>
      intro M _ _ _
      simp [foldEach]
    | cons author rest ih =>
      intro M hnodup hregistered hnew
      obtain ⟨hauthor, hrest⟩ := List.nodup_cons.mp hnodup
      have hinsert : M.tables.insertAuthor provision.context author =
          .ok (M.authorize provision.context author).tables := by
        rw [Tables.insertAuthor, ensure_true ⟨fun hold ↦ hnew author List.mem_cons_self
          (hasAuthor_tables.mp hold), hasContext_tables.mpr hregistered⟩, ok_bind]
        simp [tables, Ledger.authorize]
      rw [foldEach, hinsert, ok_bind, ih (M.authorize provision.context author) hrest hregistered]
      · simp [Ledger.authorize]
      · intro other hother hmem
        rcases List.mem_append.mp hmem with hmem | hmem
        · exact hnew other (List.mem_cons_of_mem _ hother) hmem
        · rw [List.mem_singleton, Prod.mk.injEq] at hmem
          exact hauthor (hmem.2 ▸ hother)
  rw [insertProvision, Tables.insertContext, ensure_true hcontext, ok_bind, ok_bind]
  have htables : ({ L.tables with contexts := L.tables.contexts ++
      [⟨cell provision.context.bytes, cell provision.expectedGenesis.bytes, .null, .integer 0⟩] } :
        Tables) = ({ L with registrations := L.registrations ++
          [⟨provision.context, provision.expectedGenesis, false⟩] } : Ledger B).tables := by
    simp [tables, Registration.row, Registration.state]
  rw [htables, hloop provision.authorizedAuthors _ hnodup]
  · rfl
  · rw [Ne, registration_eq_none]
    intro hall
    exact hall ⟨provision.context, provision.expectedGenesis, false⟩ (by simp) rfl
  · intro author _ hmem
    obtain ⟨r, hr, hr'⟩ := hallowed _ hmem
    exact registration_eq_none.mp hfresh r hr hr'

end Ledger

end ContextMesh.Store
