import ContextMesh.Ledger.Operations

/-!
Ref namespaces on the tables of a well-formed ledger: the lists the store returns, the import of a
bundle from its bytes, and the replacement of one remote namespace.
-/

set_option autoImplicit false
set_option relaxedAutoImplicit false

namespace ContextMesh.Store

open Checked Ordered Keyed Contract Relation

variable {B : Boundary}

/-! ### Bundles carry authentic events -/

theorem checkBundleEvents_context {context : ContextId} {all seen : List EventId}
    {events : List SignedEventV1} {u : Unit}
    (h : checkBundleEvents B context all seen events = .ok u) :
    ∀ event ∈ events, event.body.context = context := by
  induction events generalizing seen with
  | nil => simp
  | cons event rest ih =>
    obtain ⟨-, h⟩ := unit_bind_eq_ok.mp h
    obtain ⟨hcontext, h⟩ := unit_bind_eq_ok.mp h
    obtain ⟨-, h⟩ := unit_bind_eq_ok.mp h
    exact List.forall_mem_cons.mpr ⟨ensure_eq_ok.mp hcontext, ih h⟩

theorem BundleV1.event_context (bundle : BundleV1 B) :
    ∀ event ∈ bundle.events, event.body.context = bundle.context := by
  obtain ⟨-, h⟩ := unit_bind_eq_ok.mp bundle.parts
  obtain ⟨-, h⟩ := unit_bind_eq_ok.mp h
  exact checkBundleEvents_context (unit_bind_eq_ok.mp h).1

theorem BundleV1.refs_canonical (bundle : BundleV1 B) : Canonical refKey bundle.refs := by
  obtain ⟨-, h⟩ := unit_bind_eq_ok.mp bundle.parts
  obtain ⟨-, h⟩ := unit_bind_eq_ok.mp h
  exact ensure_eq_ok.mp (unit_bind_eq_ok.mp h).2

theorem BundleV1.fromParts_eq_ok {context : ContextId} {events : List SignedEventV1}
    {refs : List AdvertisedRef} {bundle : BundleV1 B} :
    BundleV1.fromParts B context events refs = .ok bundle ↔
      bundle.context = context ∧ bundle.events = events ∧ bundle.refs = refs := by
  unfold BundleV1.fromParts
  split
  · next h =>
    rw [Except.ok.injEq]
    constructor
    · rintro rfl
      exact ⟨rfl, rfl, rfl⟩
    · obtain ⟨context', events', refs', parts⟩ := bundle
      rintro ⟨rfl, rfl, rfl⟩
      rfl
  · next error h =>
    refine iff_of_false (fun hok ↦ by cases hok) ?_
    rintro ⟨rfl, rfl, rfl⟩
    rw [bundle.parts] at h
    cases h

/-- Authentic events are stored events. -/
theorem exists_stored {events : List SignedEventV1}
    (h : ∀ event ∈ events, ∃ wire, event.Authentic B wire) :
    ∃ es : List (StoredEvent B), events = es.map StoredEvent.event := by
  induction events with
  | nil => exact ⟨[], rfl⟩
  | cons event rest ih =>
    obtain ⟨⟨wire, hwire⟩, hrest⟩ := List.forall_mem_cons.mp h
    obtain ⟨es, hes⟩ := ih hrest
    exact ⟨⟨event, wire, hwire⟩ :: es, by rw [hes, List.map_cons]⟩

/-- One event of a bundle, from the value that stands for it. -/
def parseBundleEvent (B : Boundary) (value : Json) : Except StoreError SignedEventV1 := do
  let wire ← (canonicalize B value).mapError fun _ ↦ .bundleMalformed
  (SignedEventV1.fromWire B wire).mapError fun _ ↦ .bundleMalformed

theorem parseBundleEvent_eq_ok {value : Json} {event : SignedEventV1}
    (h : parseBundleEvent B value = .ok event) :
    event.toJson B = value.collect B.reread ∧ ∃ wire, event.Authentic B wire := by
  obtain ⟨wire, hwire, hparse⟩ := bind_eq_ok.mp h
  rw [mapError_eq_ok] at hwire hparse
  exact ⟨strictJson_inverse hwire (SignedEventV1.fromWire_eq_ok hparse).2.1,
    wire, SignedEventV1.authentic_of_canonical hwire hparse⟩

/-- Rendering a value anew changes nothing. -/
theorem parseBundleEvent_collect (value : Json) :
    parseBundleEvent B (value.collect B.reread) = parseBundleEvent B value := by
  rw [parseBundleEvent, canonicalize_collect, ← parseBundleEvent]

/-- What the acceptance of bytes has parsed. -/
theorem BundleV1.fromWire_parts {input : Bytes} {bundle : BundleV1 B}
    (h : BundleV1.fromWire B input = .ok bundle) :
    input.length ≤ MAX_BUNDLE_CANONICAL_BYTES ∧ (∃ object values,
      strictJson B input = .ok (.obj object) ∧ member object "events" = some (.arr values) ∧
        mapEach (parseBundleEvent B) values = .ok bundle.events) ∧
      ∃ wire, bundle.toWire = .ok wire := by
  obtain ⟨hlength, h⟩ := unit_bind_eq_ok.mp h
  obtain ⟨value, hvalue, h⟩ := bind_eq_ok.mp h
  obtain ⟨object, hobject, h⟩ := bind_eq_ok.mp h
  obtain ⟨-, h⟩ := unit_bind_eq_ok.mp h
  obtain ⟨version, -, h⟩ := bind_eq_ok.mp h
  obtain ⟨-, h⟩ := unit_bind_eq_ok.mp h
  obtain ⟨contextText, -, h⟩ := bind_eq_ok.mp h
  obtain ⟨context, -, h⟩ := bind_eq_ok.mp h
  obtain ⟨eventsValue, heventsValue, h⟩ := bind_eq_ok.mp h
  obtain ⟨refsValue, -, h⟩ := bind_eq_ok.mp h
  rw [mapError_eq_ok] at hvalue hobject heventsValue
  rw [intoObject_eq_ok] at hobject
  split at h
  · obtain ⟨-, h⟩ := unit_bind_eq_ok.mp h
    obtain ⟨events, hevents, h⟩ := bind_eq_ok.mp h
    obtain ⟨refs, -, h⟩ := bind_eq_ok.mp h
    obtain ⟨built, hbuilt, h⟩ := bind_eq_ok.mp h
    obtain ⟨wire, hwire, h⟩ := bind_eq_ok.mp h
    obtain ⟨-, h⟩ := unit_bind_eq_ok.mp h
    rw [Except.ok.injEq] at h
    rw [h] at hbuilt hwire
    rw [(BundleV1.fromParts_eq_ok.mp hbuilt).2.1]
    exact ⟨ensure_eq_ok.mp hlength, ⟨object, _, hobject ▸ hvalue, takeRequired_eq_ok.mp
      heventsValue, hevents⟩, wire, hwire⟩
  · cases h

/-- The events of a parsed bundle are authentic on their canonical bytes. -/
theorem BundleV1.fromWire_authentic {input : Bytes} {bundle : BundleV1 B}
    (h : BundleV1.fromWire B input = .ok bundle) :
    ∀ event ∈ bundle.events, ∃ wire, event.Authentic B wire := by
  obtain ⟨-, ⟨object, values, -, -, hevents⟩, -⟩ := fromWire_parts h
  rw [mapEach_eq_ok] at hevents
  intro event hevent
  obtain ⟨value, -, hvalue⟩ := exists_of_forall₂ hevents event hevent
  exact (parseBundleEvent_eq_ok hvalue).2

/-- What a successful import from bytes has parsed and checked. -/
theorem importBundle_eq_ok {peer : PeerName} {wire : Bytes} {limits : BundleLimits}
    {t : Tables} {after : Tables × ImportReport} :
    importBundle B peer wire limits t = .ok after ↔
      validateBundleLimits limits = .ok () ∧ wire.length ≤ limits.maxCanonicalBytes ∧
        ∃ bundle : BundleV1 B, BundleV1.fromWire B wire = .ok bundle ∧
          bundle.events.length ≤ limits.maxEvents ∧ bundle.refs.length ≤ limits.maxRefs ∧
          (∃ rendered, bundle.toWire = .ok rendered ∧
            rendered.length ≤ limits.maxCanonicalBytes) ∧
          importBundleValue peer bundle t = .ok after := by
  rw [importBundle, unit_bind_eq_ok, unit_bind_eq_ok, ensure_eq_ok, bind_eq_ok]
  refine and_congr_right fun _ ↦ and_congr_right fun _ ↦ exists_congr fun bundle ↦
    and_congr_right fun _ ↦ ?_
  rw [unit_bind_eq_ok, ensure_eq_ok, bind_eq_ok, and_assoc]
  refine and_congr_right fun _ ↦ and_congr_right fun _ ↦ ?_
  constructor
  · rintro ⟨rendered, hrendered, hok⟩
    obtain ⟨hbytes, hok⟩ := unit_bind_eq_ok.mp hok
    exact ⟨⟨rendered, hrendered, ensure_eq_ok.mp hbytes⟩, hok⟩
  · rintro ⟨⟨rendered, hrendered, hbytes⟩, hok⟩
    exact ⟨rendered, hrendered, unit_bind_eq_ok.mpr ⟨ensure_eq_ok.mpr hbytes, hok⟩⟩

theorem text_key_lt {a b : String} : (SqlValue.text a).key < (SqlValue.text b).key ↔ a < b := by
  simp [SqlValue.key, Prod.Lex.toLex_lt_toLex]

theorem text_key_le {a b : String} : (SqlValue.text a).key ≤ (SqlValue.text b).key ↔ a ≤ b := by
  rw [← not_lt, ← not_lt, text_key_lt]

namespace Ledger

variable {L : Ledger B} {t : Tables}

theorem importBundle_steps (h : L.WellFormed) {peer : PeerName} {wire : Bytes}
    {limits : BundleLimits} {report : ImportReport}
    (hok : importBundle B peer wire limits L.tables = .ok (t, report)) :
    ∃ L', t = L'.tables ∧ Steps (fun change ↦ change.IsRecord ∨
      ∃ context name head, change = .track peer context name head) L L' := by
  obtain ⟨-, -, bundle, hbundle, -, -, -, hok⟩ := importBundle_eq_ok.mp hok
  obtain ⟨es, hes⟩ := exists_stored (BundleV1.fromWire_authentic hbundle)
  have hcontext : ∀ e ∈ es, e.context = bundle.context := fun e he ↦
    bundle.event_context e.event (hes ▸ List.mem_map_of_mem he)
  obtain ⟨-, hall, hheld, rfl, -⟩ := (importBundleValue_eq_ok h hes hcontext).mp hok
  refine ⟨_, rfl, ReflTransGen.trans ((Steps.admitAll h hall).mono ?_)
    ((Steps.trackAll (h.admitAll hall) _ hheld).mono ?_)⟩
  · rintro change ⟨e, -, rfl⟩
    exact Or.inl trivial
  · rintro change ⟨item, -, rfl⟩
    exact Or.inr ⟨_, _, _, rfl⟩

/-! ### Lists of refs -/

/-- The local refs of a context, in name order. -/
def localRefsOf (L : Ledger B) (context : ContextId) : List LocalRef :=
  sort (fun ref ↦ ref.name.asStr) (L.localRefs.filter fun ref ↦ ref.context = context)

/-- The remote refs of a peer and a context, in name order. -/
def remoteRefsOf (L : Ledger B) (peer : PeerName) (context : ContextId) : List RemoteRef :=
  sort (fun ref ↦ ref.name.asStr)
    (L.remoteRefs.filter fun ref ↦ ref.context = context ∧ ref.peer = peer)

theorem mem_localRefsOf {context : ContextId} {ref : LocalRef} :
    ref ∈ L.localRefsOf context ↔ ref ∈ L.localRefs ∧ ref.context = context := by
  rw [localRefsOf, mem_sort, List.mem_filter, decide_eq_true_eq]

theorem mem_remoteRefsOf {peer : PeerName} {context : ContextId} {ref : RemoteRef} :
    ref ∈ L.remoteRefsOf peer context ↔
      ref ∈ L.remoteRefs ∧ ref.context = context ∧ ref.peer = peer := by
  rw [remoteRefsOf, mem_sort, List.mem_filter, decide_eq_true_eq]

theorem localRefsOf_canonical (h : L.WellKeyed) (context : ContextId) :
    Canonical (fun ref : LocalRef ↦ ref.name.asStr) (L.localRefsOf context) := by
  refine sort_canonical ?_
  have hpairwise := (List.pairwise_map.mp h.localRefs).sublist
    (List.filter_sublist (l := L.localRefs) (p := fun ref ↦ decide (ref.context = context)))
  refine hpairwise.imp_of_mem fun ha hb hne heq ↦ hne ?_
  have ha := (List.mem_filter.mp ha).2
  have hb := (List.mem_filter.mp hb).2
  rw [decide_eq_true_eq] at ha hb
  exact Prod.ext (ha.trans hb.symm) (localRefName_asStr_inj.mp heq)

theorem remoteRefsOf_canonical (h : L.WellKeyed) (peer : PeerName) (context : ContextId) :
    Canonical (fun ref : RemoteRef ↦ ref.name.asStr) (L.remoteRefsOf peer context) := by
  refine sort_canonical ?_
  have hpairwise := (List.pairwise_map.mp h.remoteRefs).sublist
    (List.filter_sublist (l := L.remoteRefs)
      (p := fun ref ↦ decide (ref.context = context ∧ ref.peer = peer)))
  refine hpairwise.imp_of_mem fun ha hb hne heq ↦ hne ?_
  have ha := (List.mem_filter.mp ha).2
  have hb := (List.mem_filter.mp hb).2
  rw [decide_eq_true_eq] at ha hb
  exact Prod.ext (ha.2.trans hb.2.symm)
    (Prod.ext (ha.1.trans hb.1.symm) (localRefName_asStr_inj.mp heq))

theorem listLocalRefs_tables (h : L.WellFormed) (context : ContextId) :
    listLocalRefs B L.tables context = .ok (L.localRefsOf context) := by
  have hfilter : (L.tables.localRefs.filter fun row ↦ row.contextId = cell context.bytes) =
      (L.localRefs.filter fun ref ↦ ref.context = context).map LocalRef.row := by
    simp only [tables, List.filter_map]
    congr 2
    funext ref
    simp [LocalRef.row]
  have hkey : sort (fun ref : LocalRef ↦ ref.row.name.key)
      (L.localRefs.filter fun ref ↦ ref.context = context) = L.localRefsOf context := by
    rw [localRefsOf, sort, sort]
    congr 1
    funext a b
    exact propext text_key_le
  rw [listLocalRefs, hfilter, sort_map, hkey]
  refine (mapEach_map (h := id) fun ref href ↦ ?_).trans (by rw [List.map_id])
  obtain ⟨hmem, rfl⟩ := mem_localRefsOf.mp href
  have hholds := h.toWellKeyed.holds_iff.mp (h.localTargets ref hmem)
  have hparse : LocalRefName.parse ref.name.asStr = .ok ref.name := LocalRefName.parse_eq_ok.mpr rfl
  simp only [LocalRef.row, readRef, textValue, idValue_cell, ok_bind, hparse,
    authoritativeEventContext_tables h.toWellKeyed, ensure_true hholds, id]

/-- The head of a local ref is read as it is stored. -/
theorem localRefOn_tables (h : L.WellFormed) (context : ContextId) (name : LocalRefName) :
    localRefOn B L.tables context name = .ok (L.localHead context name) := by
  rw [localRefOn, localRefId_tables h.toWellKeyed, ok_bind]
  cases hhead : L.localHead context name with
  | none => rfl
  | some head =>
    have hholds := h.toWellKeyed.holds_iff.mp
      (h.localTargets _ (h.toWellKeyed.localHead_eq_some.mp hhead))
    simp only [authoritativeEventContext_tables h.toWellKeyed, ok_bind, ensure_true hholds]

theorem listRemoteRefs_tables (h : L.WellFormed) (peer : PeerName) (context : ContextId) :
    ∃ refs : List RemoteRef, listRemoteRefs B L.tables peer context = .ok refs ∧
      ∀ ref, ref ∈ refs ↔ ref ∈ L.remoteRefs ∧ ref.context = context ∧ ref.peer = peer := by
  have hfilter : (L.tables.remoteRefs.filter fun row ↦
      row.contextId = cell context.bytes ∧ row.peer = .text peer.asStr) =
      (L.remoteRefs.filter fun ref ↦ ref.context = context ∧ ref.peer = peer).map
        RemoteRef.row := by
    simp only [tables, List.filter_map]
    congr 2
    funext ref
    simp [RemoteRef.row]
  have hmem (ref : RemoteRef) : ref ∈ sort (fun ref : RemoteRef ↦
      toLex (ref.row.peer.key, ref.row.name.key))
        (L.remoteRefs.filter fun ref ↦ ref.context = context ∧ ref.peer = peer) ↔
      ref ∈ L.remoteRefs ∧ ref.context = context ∧ ref.peer = peer := by
    rw [mem_sort, List.mem_filter, decide_eq_true_eq]
  refine ⟨_, ?_, hmem⟩
  rw [listRemoteRefs, hfilter, sort_map]
  refine (mapEach_map (h := id) fun ref href ↦ ?_).trans (by rw [List.map_id])
  obtain ⟨htracked, rfl, rfl⟩ := (hmem ref).mp href
  have hholds := h.toWellKeyed.holds_iff.mp (h.remoteTargets ref htracked)
  have hname : LocalRefName.parse ref.name.asStr = .ok ref.name := LocalRefName.parse_eq_ok.mpr rfl
  have hpeer : PeerName.parse ref.peer.asStr = .ok ref.peer := PeerName.parse_eq_ok.mpr rfl
  simp only [RemoteRef.row, textValue, idValue_cell, ok_bind, hname, hpeer,
    authoritativeEventContext_tables h.toWellKeyed, ensure_true hholds, id]

theorem requireActive_tables (h : L.WellKeyed) {context : ContextId} {u : Unit} :
    requireActive L.tables context = .ok u ↔
      ∃ r, L.registration context = some r ∧ r.active = true := by
  rw [requireActive, contextRow_tables h, ok_bind]
  cases hr : L.registration context with
  | none => simp
  | some r => simp [Registration.state_eq_one]

/-! ### Replacement of a remote namespace -/

/-- The ledger with one remote namespace replaced. -/
def replaced (L : Ledger B) (peer : PeerName) (context : ContextId) (refs : List AdvertisedRef) :
    Ledger B :=
  refs.foldl (fun L item ↦ L.setRemote ⟨peer, context, item.name, item.head⟩)
    (L.forget peer context)

theorem insertRemoteRefs_tables {peer : PeerName} {context : ContextId}
    {refs : List AdvertisedRef} (hregistered : L.registration context ≠ none)
    (hheld : ∀ item ∈ refs, L.Holds context item.head)
    (hnames : refs.Pairwise fun a b ↦ a.name ≠ b.name)
    (hfresh : ∀ item ∈ refs, L.remoteHead peer context item.name = none) :
    foldEach (fun t item ↦ t.insertRemoteRef peer context item.name item.head) L.tables refs =
      .ok (refs.foldl (fun L item ↦
        L.setRemote ⟨peer, context, item.name, item.head⟩) L).tables := by
  induction refs generalizing L with
  | nil => rfl
  | cons item rest ih =>
    have hinsert := insertRemoteRef_tables ⟨peer, context, item.name, item.head⟩
      (hfresh item List.mem_cons_self) hregistered (hheld item List.mem_cons_self).find_ne_none
    dsimp only at hinsert
    rw [foldEach, hinsert, ok_bind, List.foldl_cons]
    refine ih hregistered (fun other hother ↦ hheld other (List.mem_cons_of_mem _ hother))
      hnames.of_cons fun other hother ↦ ?_
    rw [remoteHead_eq_none]
    intro ref href hkey
    rcases mem_put.mp href with rfl | ⟨href, -⟩
    · exact List.rel_of_pairwise_cons hnames hother hkey.2.2
    · exact remoteHead_eq_none.mp (hfresh other (List.mem_cons_of_mem _ hother)) ref href hkey

theorem canonical_names {refs : List AdvertisedRef} (h : Canonical refKey refs) :
    refs.Pairwise fun a b ↦ a.name ≠ b.name :=
  (canonical_iff_pairwise.mp h).imp fun hlt heq ↦ hlt.ne (congrArg LocalRefName.asStr heq)

/-- The replacement of a namespace succeeds exactly when the refs are canonical and point at events
of the active context; it leaves the namespace alone when nothing changes. -/
theorem replaceRemoteRefSnapshot_eq_ok (h : L.WellFormed) {peer : PeerName} {context : ContextId}
    {refs : List AdvertisedRef} {count : ℕ} :
    replaceRemoteRefSnapshot B peer context refs L.tables = .ok (t, count) ↔
      refs.length ≤ MAX_BUNDLE_REFS ∧ Canonical refKey refs ∧
        (∃ r, L.registration context = some r ∧ r.active = true) ∧
        (∀ item ∈ refs, L.Holds context item.head) ∧
        count = namespaceChangeCount
          ((L.remoteRefsOf peer context).map fun ref ↦ (ref.name, ref.head))
          (refs.map fun item ↦ (item.name, item.head)) ∧
        t = if count = 0 then L.tables else (L.replaced peer context refs).tables := by
  have hexisting : mapEach (fun row : RemoteRefRow ↦ do
      let nameText ← textValue row.name
      let head ← idValue row.eventId
      let name ← LocalRefName.parse nameText
      .ok (name, head)) (sort (fun row ↦ row.name.key) (L.tables.remoteRefs.filter fun row ↦
        row.peer = .text peer.asStr ∧ row.contextId = cell context.bytes)) =
      .ok ((L.remoteRefsOf peer context).map fun ref ↦ (ref.name, ref.head)) := by
    have hfilter : (L.tables.remoteRefs.filter fun row ↦
        row.peer = .text peer.asStr ∧ row.contextId = cell context.bytes) =
        (L.remoteRefs.filter fun ref ↦ ref.context = context ∧ ref.peer = peer).map
          RemoteRef.row := by
      simp only [tables, List.filter_map]
      congr 2
      funext ref
      simp [RemoteRef.row, and_comm]
    have hkey : sort (fun ref : RemoteRef ↦ ref.row.name.key)
        (L.remoteRefs.filter fun ref ↦ ref.context = context ∧ ref.peer = peer) =
        L.remoteRefsOf peer context := by
      rw [remoteRefsOf, sort, sort]
      congr 1
      funext a b
      exact propext text_key_le
    rw [hfilter, sort_map, hkey]
    refine mapEach_map fun ref _ ↦ ?_
    have hname : LocalRefName.parse ref.name.asStr = .ok ref.name :=
      LocalRefName.parse_eq_ok.mpr rfl
    simp [RemoteRef.row, textValue, hname]
  rw [replaceRemoteRefSnapshot]
  simp only [unit_bind_eq_ok, ensure_eq_ok, requireActive_tables h.toWellKeyed, checkEach_eq_ok,
    authoritativeEventContext_tables h.toWellKeyed, ok_bind, ← h.toWellKeyed.holds_iff, and_assoc]
  rw [hexisting, ok_bind]
  refine and_congr_right fun hlength ↦ and_congr_right fun hcanonical ↦
    and_congr_right fun hactive ↦ and_congr_right fun hheld ↦ ?_
  by_cases hcount : namespaceChangeCount
      ((L.remoteRefsOf peer context).map fun ref ↦ (ref.name, ref.head))
      (refs.map fun item ↦ (item.name, item.head)) = 0
  · rw [if_pos hcount, Except.ok.injEq, Prod.mk.injEq, hcount]
    constructor
    · rintro ⟨rfl, rfl⟩
      exact ⟨rfl, (if_pos rfl).symm⟩
    · rintro ⟨rfl, rfl⟩
      exact ⟨(if_pos rfl).symm, rfl⟩
  · obtain ⟨r, hr, -⟩ := hactive
    have hforget : foldEach (fun t item ↦ t.insertRemoteRef peer context item.name item.head)
        (L.tables.deleteRemoteRefs peer context) refs =
          .ok (L.replaced peer context refs).tables := by
      rw [deleteRemoteRefs_tables]
      have hregistered : (L.forget peer context).registration context ≠ none := fun hnone ↦ by
        rw [show (L.forget peer context).registration context = some r from hr] at hnone
        cases hnone
      refine insertRemoteRefs_tables hregistered hheld (canonical_names hcanonical) fun item _ ↦ ?_
      rw [remoteHead_eq_none]
      intro ref href hkey
      have hother := (List.mem_filter.mp href).2
      rw [decide_eq_true_eq] at hother
      exact hother ⟨hkey.1, hkey.2.1⟩
    rw [if_neg hcount, hforget, ok_bind, Except.ok.injEq, Prod.mk.injEq]
    constructor
    · rintro ⟨rfl, rfl⟩
      exact ⟨rfl, (if_neg hcount).symm⟩
    · rintro ⟨rfl, rfl⟩
      exact ⟨(if_neg hcount).symm, rfl⟩

/-- The remote namespace holds exactly the advertised refs. -/
def Tracks (L : Ledger B) (peer : PeerName) (context : ContextId) (refs : List AdvertisedRef) :
    Prop :=
  ∀ name head, (⟨peer, context, name, head⟩ : RemoteRef) ∈ L.remoteRefs ↔
    ∃ item ∈ refs, item.name = name ∧ item.head = head

theorem namespaceChangeCount_eq_zero {existing desired : List (LocalRefName × EventId)} :
    namespaceChangeCount existing desired = 0 ↔
      (∀ old ∈ existing, old.1 ∈ desired.map Prod.fst) ∧ ∀ new ∈ desired, new ∈ existing := by
  rw [namespaceChangeCount, Nat.add_eq_zero_iff, List.countP_eq_zero, List.countP_eq_zero]
  simp only [decide_eq_true_eq, not_not]

/-- Nothing changes exactly when the namespace holds the refs already. -/
theorem WellKeyed.tracks_iff (h : L.WellKeyed) {peer : PeerName} {context : ContextId}
    {refs : List AdvertisedRef} : L.Tracks peer context refs ↔
      namespaceChangeCount ((L.remoteRefsOf peer context).map fun ref ↦ (ref.name, ref.head))
        (refs.map fun item ↦ (item.name, item.head)) = 0 := by
  have hexisting (name : LocalRefName) (head : EventId) :
      (name, head) ∈ (L.remoteRefsOf peer context).map (fun ref ↦ (ref.name, ref.head)) ↔
        (⟨peer, context, name, head⟩ : RemoteRef) ∈ L.remoteRefs := by
    rw [List.mem_map]
    constructor
    · rintro ⟨ref, href, hpair⟩
      obtain ⟨hmem, rfl, rfl⟩ := mem_remoteRefsOf.mp href
      obtain ⟨rfl, rfl⟩ := Prod.mk.inj hpair
      exact hmem
    · exact fun hmem ↦ ⟨_, mem_remoteRefsOf.mpr ⟨hmem, rfl, rfl⟩, rfl⟩
  rw [namespaceChangeCount_eq_zero]
  constructor
  · intro htracks
    refine ⟨fun old hold ↦ ?_, fun new hnew ↦ ?_⟩
    · obtain ⟨item, hitem, hname, -⟩ := (htracks _ _).mp ((hexisting old.1 old.2).mp hold)
      rw [List.map_map]
      exact List.mem_map.mpr ⟨item, hitem, hname⟩
    · obtain ⟨item, hitem, rfl⟩ := List.mem_map.mp hnew
      exact (hexisting _ _).mpr ((htracks _ _).mpr ⟨item, hitem, rfl, rfl⟩)
  · rintro ⟨hold, hnew⟩ name head
    have hheld (item : AdvertisedRef) (hitem : item ∈ refs) :
        (⟨peer, context, item.name, item.head⟩ : RemoteRef) ∈ L.remoteRefs :=
      (hexisting _ _).mp (hnew _ (List.mem_map_of_mem hitem))
    constructor
    · intro href
      have hnamed := hold _ ((hexisting name head).mpr href)
      rw [List.map_map] at hnamed
      obtain ⟨item, hitem, rfl⟩ := List.mem_map.mp hnamed
      refine ⟨item, hitem, rfl, ?_⟩
      have hfound := h.remoteHead_eq_some.mpr (hheld item hitem)
      exact Option.some.inj (hfound.symm.trans (h.remoteHead_eq_some.mpr href))
    · rintro ⟨item, hitem, rfl, rfl⟩
      exact hheld item hitem

/-- The refs after some of one namespace are set: the set ones, and the others as they were. -/
theorem mem_foldl_setRemote {peer : PeerName} {context : ContextId} {refs : List AdvertisedRef}
    (hnames : refs.Pairwise fun a b ↦ a.name ≠ b.name) {ref : RemoteRef} :
    ref ∈ (refs.foldl (fun L item ↦
        L.setRemote ⟨peer, context, item.name, item.head⟩) L).remoteRefs ↔
      (∃ item ∈ refs, ref = ⟨peer, context, item.name, item.head⟩) ∨
        ref ∈ L.remoteRefs ∧ ∀ item ∈ refs,
          (ref.peer, ref.context, ref.name) ≠ (peer, context, item.name) := by
  induction refs generalizing L with
  | nil => simp
  | cons item rest ih =>
    have hother : ∀ other ∈ rest, item.name ≠ other.name := fun other hmem ↦
      List.rel_of_pairwise_cons hnames hmem
    rw [List.foldl_cons, ih hnames.of_cons, setRemote, mem_put]
    simp only [List.exists_mem_cons_iff, List.forall_mem_cons]
    constructor
    · rintro (hset | ⟨rfl | ⟨hmem, hkey⟩, hrest⟩)
      · exact Or.inl (Or.inr hset)
      · exact Or.inl (Or.inl rfl)
      · exact Or.inr ⟨hmem, hkey, hrest⟩
    · rintro ((rfl | hset) | ⟨hmem, hkey, hrest⟩)
      · refine Or.inr ⟨Or.inl rfl, fun other hmem heq ↦ hother other hmem ?_⟩
        exact (Prod.mk.inj (Prod.mk.inj heq).2).2
      · exact Or.inl hset
      · exact Or.inr ⟨Or.inr ⟨hmem, hkey⟩, hrest⟩

/-- A replaced namespace holds the new refs, and every other namespace is as it was. -/
theorem mem_replaced {peer : PeerName} {context : ContextId} {refs : List AdvertisedRef}
    (hcanonical : Canonical refKey refs) {ref : RemoteRef} :
    ref ∈ (L.replaced peer context refs).remoteRefs ↔
      (∃ item ∈ refs, ref = ⟨peer, context, item.name, item.head⟩) ∨
        ref ∈ L.remoteRefs ∧ ¬ (ref.peer = peer ∧ ref.context = context) := by
  rw [replaced, mem_foldl_setRemote (canonical_names hcanonical), forget, List.mem_filter,
    decide_eq_true_eq]
  refine or_congr_right ⟨fun hold ↦ hold.1, fun hold ↦ ⟨hold, fun item _ heq ↦ hold.2 ?_⟩⟩
  exact ⟨(Prod.mk.inj heq).1, (Prod.mk.inj (Prod.mk.inj heq).2).1⟩

theorem replaced_tracks {peer : PeerName} {context : ContextId} {refs : List AdvertisedRef}
    (hcanonical : Canonical refKey refs) :
    (L.replaced peer context refs).Tracks peer context refs := by
  intro name head
  rw [mem_replaced hcanonical]
  constructor
  · rintro (⟨item, hitem, heq⟩ | ⟨-, hother⟩)
    · obtain ⟨-, -, rfl, rfl⟩ := RemoteRef.mk.inj heq
      exact ⟨item, hitem, rfl, rfl⟩
    · exact absurd ⟨rfl, rfl⟩ hother
  · rintro ⟨item, hitem, rfl, rfl⟩
    exact Or.inl ⟨item, hitem, rfl⟩

/-- The replacement of a namespace changes nothing but remote refs. -/
theorem replaced_frame (L : Ledger B) (peer : PeerName) (context : ContextId)
    (refs : List AdvertisedRef) :
    ∃ remoteRefs, L.replaced peer context refs = { L with remoteRefs := remoteRefs } := by
  have hloop (M : Ledger B) : ∃ remoteRefs, refs.foldl (fun L item ↦
      L.setRemote ⟨peer, context, item.name, item.head⟩) M =
        { M with remoteRefs := remoteRefs } := by
    induction refs generalizing M with
    | nil => exact ⟨M.remoteRefs, rfl⟩
    | cons item rest ih => exact ih (M.setRemote ⟨peer, context, item.name, item.head⟩)
  exact hloop (L.forget peer context)

theorem Steps.replaced {peer : PeerName} {context : ContextId} {refs : List AdvertisedRef}
    (hheld : ∀ item ∈ refs, L.Holds context item.head) :
    Steps (fun change ↦ change = .forget peer context ∨
      ∃ name head, change = .track peer context name head) L (L.replaced peer context refs) := by
  refine ReflTransGen.head ⟨_, Or.inl rfl, Step.forget⟩ ?_
  have hloop : ∀ (refs : List AdvertisedRef) (M : Ledger B),
      (∀ item ∈ refs, M.Holds context item.head) →
        Steps (fun change ↦ change = .forget peer context ∨
          ∃ name head, change = .track peer context name head) M
          (refs.foldl (fun L item ↦ L.setRemote ⟨peer, context, item.name, item.head⟩) M) := by
    intro refs
    induction refs with
    | nil => exact fun M _ ↦ .refl
    | cons item rest ih =>
      intro M hheld
      obtain ⟨hitem, hrest⟩ := List.forall_mem_cons.mp hheld
      exact ReflTransGen.head ⟨_, Or.inr ⟨_, _, rfl⟩, Step.track hitem⟩ (ih _ hrest)
  exact hloop refs (L.forget peer context) hheld

theorem replaceRemoteRefSnapshot_steps (h : L.WellFormed) {peer : PeerName} {context : ContextId}
    {refs : List AdvertisedRef} {count : ℕ}
    (hok : replaceRemoteRefSnapshot B peer context refs L.tables = .ok (t, count)) :
    ∃ L', t = L'.tables ∧ Steps (fun change ↦ change = .forget peer context ∨
      ∃ name head, change = .track peer context name head) L L' := by
  obtain ⟨-, -, -, hheld, -, rfl⟩ := (replaceRemoteRefSnapshot_eq_ok h).mp hok
  split_ifs
  · exact ⟨L, rfl, .refl⟩
  · exact ⟨_, rfl, Steps.replaced hheld⟩

end Ledger

end ContextMesh.Store
