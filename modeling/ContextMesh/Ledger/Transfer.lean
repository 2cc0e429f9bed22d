import ContextMesh.Ledger.Confluence
import ContextMesh.Ledger.Projection

/-!
Export and import as one transfer. An export lists the ancestry difference of two sets of heads,
parents first; a store that holds the known heads admits the list as it stands, and then holds the
ancestry of the requested heads besides what it held before.
-/

set_option autoImplicit false
set_option relaxedAutoImplicit false

namespace ContextMesh.Store

open Checked Ordered Contract Relation

variable {B : Boundary}

/-! ### The difference of two ancestries -/

namespace Ledger

variable {L M : Ledger B} {context : ContextId} {requested known : List EventId}
  {es : List (StoredEvent B)}

/-- The stored events below the requested heads and not below the known ones, every event once and
after those of its parents that are not below the known heads. -/
structure IsDifference (L : Ledger B) (context : ContextId) (requested known : List EventId)
    (es : List (StoredEvent B)) : Prop where
  stored : ∀ e ∈ es, e ∈ L.events ∧ e.context = context
  nodup : (es.map StoredEvent.id).Nodup
  mem_iff : ∀ id, id ∈ es.map StoredEvent.id ↔ L.Below requested id ∧ ¬ L.Below known id
  parentsFirst : ∀ before e after, es = before ++ e :: after → ∀ parent ∈ e.parents,
    parent ∈ before.map StoredEvent.id ∨ L.Below known parent

/-- Dropping from an ancestry what lies below the known heads leaves the difference. -/
theorem IsDifference.filter (hstored : ∀ e ∈ es, e ∈ L.events ∧ e.context = context)
    (hnodup : (es.map StoredEvent.id).Nodup)
    (hmem : ∀ id, id ∈ es.map StoredEvent.id ↔ L.Below requested id)
    (hfirst : ∀ before e after, es = before ++ e :: after →
      ∀ parent ∈ e.parents, parent ∈ before.map StoredEvent.id) {knownIds : List EventId}
    (hknown : ∀ id, id ∈ knownIds ↔ L.Below known id) :
    L.IsDifference context requested known (es.filter fun e ↦ e.id ∉ knownIds) where
  stored e he := hstored e (List.mem_of_mem_filter he)
  nodup := hnodup.sublist (List.filter_sublist.map _)
  mem_iff id := by
    rw [← hmem, ← hknown, List.mem_map, List.mem_map]
    constructor
    · rintro ⟨e, he, rfl⟩
      obtain ⟨he, hnot⟩ := List.mem_filter.mp he
      exact ⟨⟨e, he, rfl⟩, of_decide_eq_true hnot⟩
    · rintro ⟨⟨e, he, rfl⟩, hnot⟩
      exact ⟨e, List.mem_filter.mpr ⟨he, decide_eq_true hnot⟩, rfl⟩
  parentsFirst before e after hsplit parent hparent := by
    obtain ⟨front, rest, rfl, rfl, hrest⟩ := List.filter_eq_append_iff.mp hsplit
    obtain ⟨skipped, back, rfl, hskipped, -, -⟩ := List.filter_eq_cons_iff.mp hrest
    have hbefore := hfirst (front ++ skipped) e back (List.append_assoc ..).symm parent hparent
    by_cases hmember : parent ∈ knownIds
    · exact Or.inr ((hknown parent).mp hmember)
    · -- The parent stands in front of the event and is kept; what was skipped is dropped.
      obtain ⟨f, hf, rfl⟩ := List.mem_map.mp hbefore
      have hkept := decide_eq_true (p := f.id ∉ knownIds) hmember
      refine Or.inl (List.mem_map_of_mem (List.mem_filter.mpr ⟨?_, hkept⟩))
      exact (List.mem_append.mp hf).resolve_right fun hin ↦ hskipped f hin hkept

/-- A plan lists the difference of the two ancestries. -/
theorem planOn_tables (h : L.WellFormed) {events : List SignedEventV1}
    (hok : planOn B L.tables context requested known = .ok events) :
    (∀ head ∈ requested, L.Holds context head) ∧ (∀ head ∈ known, L.Holds context head) ∧
      ∃ es : List (StoredEvent B), events = es.map StoredEvent.event ∧
        L.IsDifference context requested known es := by
  obtain ⟨⟨listed, bytes⟩, hlisted, hok⟩ := bind_eq_ok.mp hok
  obtain ⟨hheads, es, rfl, hstored, hnodup, hmem, hfirst, -⟩ := projectOn_tables h hlisted
  obtain ⟨knownIds, hheld, hbelow, hok⟩ : ∃ knownIds : List EventId,
      (∀ head ∈ known, L.Holds context head) ∧ (∀ id, id ∈ knownIds ↔ L.Below known id) ∧
        events = (es.map StoredEvent.event).filter fun event ↦ event.eventId ∉ knownIds := by
    by_cases hempty : known = []
    · rw [if_pos hempty] at hok
      exact ⟨[], by simp [hempty], by simp [hempty, Below], (Except.ok.inj hok).symm⟩
    · rw [if_neg hempty] at hok
      obtain ⟨⟨knownEvents, _⟩, hknown, hok⟩ := bind_eq_ok.mp hok
      obtain ⟨hknownHeads, ks, rfl, -, -, hknownMem, -, -⟩ := projectOn_tables h hknown
      refine ⟨_, hknownHeads, fun id ↦ ?_, (Except.ok.inj hok).symm⟩
      rw [List.map_map]
      exact hknownMem id
  refine ⟨hheads, hheld, es.filter fun e ↦ e.id ∉ knownIds, ?_, ?_⟩
  · rw [hok, List.filter_map]
    rfl
  · refine .filter (fun e he ↦ ⟨hstored e he, ?_⟩) hnodup hmem hfirst hbelow
    -- The ancestry of heads of the context is stored in the context.
    obtain ⟨head, hhead, hancestor⟩ := (hmem e.id).mp (List.mem_map_of_mem he)
    obtain ⟨f, hf, hid, hcontext⟩ := h.holds_ancestor (hheads head hhead) hancestor
    rwa [← h.event_eq_of_id hf (hstored e he) hid]

/-- A difference lists exactly the stored events below the requested heads and not below the known
ones. -/
theorem IsDifference.mem_stored (h : L.WellFormed) (hes : L.IsDifference context requested known es)
    {e : StoredEvent B} :
    e ∈ es ↔ e ∈ L.events ∧ L.Below requested e.id ∧ ¬ L.Below known e.id := by
  rw [← hes.mem_iff e.id, List.mem_map]
  constructor
  · exact fun he ↦ ⟨(hes.stored e he).1, e, he, rfl⟩
  · rintro ⟨he, f, hf, hid⟩
    exact h.event_eq_of_id (hes.stored f hf).1 he hid ▸ hf

/-! ### Admission of the difference -/

/-- The only root of a difference, and its only event of the genesis kind, is the stored genesis. -/
theorem IsDifference.genesis_of_root (h : L.WellFormed) {r : Registration}
    (hr : L.registration context = some r) (hes : L.IsDifference context requested known es)
    {e : StoredEvent B} (he : e ∈ es) (hroot : e.parents = [] ∨ e.kind = "context.genesis") :
    IsGenesis r.expected e.event := by
  obtain ⟨hmem, hcontext⟩ := hes.stored e he
  obtain ⟨s, hs, hscontext, hactive, hsroot⟩ := h.rooted e hmem
  have hsame := h.registration_eq_some.mpr ⟨hs, hscontext.trans hcontext⟩
  rw [hr, Option.some.injEq] at hsame
  subst hsame
  obtain ⟨g, hg, -, hgenesis⟩ := h.genesis r hs hactive
  have hid : e.id = g.id := (hsroot hroot).trans hgenesis.1.symm
  exact h.event_eq_of_id hmem hg hid ▸ hgenesis

/-- A store that holds the known heads and the front of the difference admits the slice behind it in
the order in which it is listed. -/
theorem IsDifference.admitsSlice {front slice back : List (StoredEvent B)}
    (hes : L.IsDifference context requested known (front ++ (slice ++ back))) (h : L.WellFormed)
    (hM : M.WellFormed) {r s : Registration} (hr : L.registration context = some r)
    (hs : M.registration context = some s) (hexpected : r.expected = s.expected)
    (hauthors : ∀ e ∈ slice, isAuthorized M.tables context e.author = true)
    (hagree : ∀ e ∈ M.events, ∀ f ∈ L.events, e.id = f.id → e.wire = f.wire)
    (hknown : ∀ head ∈ known, M.Holds context head)
    (hfront : ∀ e ∈ front, M.Holds context e.id) : M.AdmitsAll slice := by
  have hlisted {e : StoredEvent B} (he : e ∈ slice) : e ∈ front ++ (slice ++ back) :=
    List.mem_append_right _ (List.mem_append_left _ he)
  have heligible : Eligible B M.tables context r.expected slice := {
    inContext := fun e he ↦ (hes.stored e (hlisted he)).2
    authorized := hauthors
    rooted := fun e he ↦ hes.genesis_of_root h hr (hlisted he)
    oneWire := fun e he f hf hid ↦ by
      rw [h.event_eq_of_id (hes.stored f (hlisted hf)).1 (hes.stored e (hlisted he)).1 hid]
    storedWire := fun e he wire hwire ↦ by
      rw [eventWire_tables hM.toWellKeyed, Except.ok.injEq] at hwire
      obtain ⟨f, hfind, rfl⟩ := Option.map_eq_some_iff.mp hwire
      obtain ⟨hf, hid⟩ := hM.find_eq_some.mp hfind
      exact hagree f hf e (hes.stored e (hlisted he)).1 hid }
  rw [hexpected] at heligible
  refine (Absorbs.refl M).admitsAll hM hM hs heligible (fun e he ↦ absurd he List.not_mem_nil)
    (fun e he ↦ he) fun before e after hsplit parent hparent ↦ ?_
  have hplace : front ++ (slice ++ back) = (front ++ before) ++ e :: (after ++ back) := by
    rw [hsplit]
    simp only [List.append_assoc, List.cons_append]
  rcases hes.parentsFirst _ e _ hplace parent hparent with hbefore | ⟨head, hhead, hbelow⟩
  · rw [List.map_append] at hbefore
    rcases List.mem_append.mp hbefore with hin | hin
    · obtain ⟨f, hf, rfl⟩ := List.mem_map.mp hin
      exact Or.inr (hfront f hf)
    · exact Or.inl hin
  · have hheld := hknown head hhead
    exact Or.inr (hM.holds_ancestor hheld (hM.ancestor_of_agree hagree hheld hbelow))

/-- A store that holds the known heads admits the difference in the order in which it is listed. -/
theorem IsDifference.admitsAll (h : L.WellFormed) (hM : M.WellFormed) {r s : Registration}
    (hr : L.registration context = some r) (hs : M.registration context = some s)
    (hexpected : r.expected = s.expected) (hes : L.IsDifference context requested known es)
    (hauthors : ∀ e ∈ es, isAuthorized M.tables context e.author = true)
    (hagree : ∀ e ∈ M.events, ∀ f ∈ L.events, e.id = f.id → e.wire = f.wire)
    (hknown : ∀ head ∈ known, M.Holds context head) : M.AdmitsAll es := by
  have hwhole : L.IsDifference context requested known ([] ++ (es ++ [])) := by
    rwa [List.append_nil]
  exact hwhole.admitsSlice h hM hr hs hexpected hauthors hagree hknown
    fun e he ↦ absurd he List.not_mem_nil

end Ledger

/-! ### Exports -/

/-- The refs that an export advertises are the given ones, all of them at events of the context. -/
theorem exportRefs_eq_ok {t : Tables} {context : ContextId} {refs : List LocalRef}
    {items : List AdvertisedRef} :
    mapEach (fun item : LocalRef ↦ do
        ensure (item.context = context) StoreError.bundleRefInvalid
        let found ← authoritativeEventContext B t item.head
        ensure (found = some context) .bundleRefInvalid
        .ok (⟨.local, item.name, item.head⟩ : AdvertisedRef)) refs = .ok items ↔
      (∀ ref ∈ refs, ref.context = context ∧
        authoritativeEventContext B t ref.head = .ok (some context)) ∧
      items = refs.map fun ref ↦ ⟨.local, ref.name, ref.head⟩ := by
  induction refs generalizing items with
  | nil => simp [mapEach, eq_comm]
  | cons ref rest ih =>
    rw [mapEach, bind_eq_ok, List.forall_mem_cons, List.map_cons]
    constructor
    · rintro ⟨item, hitem, hok⟩
      obtain ⟨hcontext, hitem⟩ := unit_bind_eq_ok.mp hitem
      obtain ⟨found, hfound, hitem⟩ := bind_eq_ok.mp hitem
      obtain ⟨hsome, hitem⟩ := unit_bind_eq_ok.mp hitem
      obtain ⟨others, hothers, hok⟩ := bind_eq_ok.mp hok
      obtain ⟨hrest, rfl⟩ := ih.mp hothers
      rw [ensure_eq_ok] at hcontext hsome
      rw [Except.ok.injEq] at hitem hok
      rw [hsome] at hfound
      rw [hitem]
      exact ⟨⟨⟨hcontext, hfound⟩, hrest⟩, hok.symm⟩
    · rintro ⟨⟨⟨hcontext, hfound⟩, hrest⟩, rfl⟩
      refine ⟨⟨.local, ref.name, ref.head⟩, ?_, ?_⟩
      · rw [ensure_true hcontext, ok_bind, hfound, ok_bind, ensure_true rfl, ok_bind]
      · rw [ih.mpr ⟨hrest, rfl⟩, ok_bind]

/-- What an export has checked: the events of the bundle are a plan for the given heads, its refs
are the given ones in name order, and everything stays within the limits. -/
theorem exportBundle_eq_ok {t : Tables} {context : ContextId} {requested known : List EventId}
    {refs : List LocalRef} {limits : BundleLimits} {bundle : BundleV1 B}
    (hok : exportBundle B t context requested known refs limits = .ok bundle) :
    bundle.context = context ∧
      (∃ heads knownHeads, (∀ id, id ∈ heads ↔ id ∈ requested) ∧
        (∀ id, id ∈ knownHeads ↔ id ∈ known) ∧
        planOn B t context heads knownHeads = .ok bundle.events) ∧
      (∀ item, item ∈ bundle.refs ↔ ∃ ref ∈ refs, item = ⟨.local, ref.name, ref.head⟩) ∧
      (∀ ref ∈ refs, ref.context = context ∧
        authoritativeEventContext B t ref.head = .ok (some context)) ∧
      bundle.events.length ≤ limits.maxEvents ∧ bundle.refs.length ≤ limits.maxRefs ∧
      ∃ wire, bundle.toWire = .ok wire ∧ wire.length ≤ limits.maxCanonicalBytes := by
  obtain ⟨-, hok⟩ := unit_bind_eq_ok.mp hok
  obtain ⟨heads, hheads, hok⟩ := bind_eq_ok.mp hok
  have hnormal {given out : List EventId} (h : normalizeBundleHeads B given = .ok out) :
      ∀ id, id ∈ out ↔ id ∈ given := by
    obtain ⟨-, h⟩ := unit_bind_eq_ok.mp h
    rw [Except.ok.injEq] at h
    intro id
    rw [← h, mem_normalize]
  obtain ⟨knownHeads, hknownHeads, hok⟩ : ∃ knownHeads : List EventId,
      (∀ id, id ∈ knownHeads ↔ id ∈ known) ∧ (do
        let events ← planOn B t context heads knownHeads
        ensure (events.length ≤ limits.maxEvents) .bundleLimitExceeded
        ensure (refs.length ≤ limits.maxRefs) .bundleLimitExceeded
        let items ← mapEach (fun item : LocalRef ↦ do
          ensure (item.context = context) .bundleRefInvalid
          let found ← authoritativeEventContext B t item.head
          ensure (found = some context) .bundleRefInvalid
          .ok (⟨.local, item.name, item.head⟩ : AdvertisedRef)) refs
        let bundle ← BundleV1.fromParts B context events (sort refKey items)
        let wire ← bundle.toWire
        ensure (wire.length ≤ limits.maxCanonicalBytes) .bundleLimitExceeded
        .ok bundle) = .ok bundle := by
    by_cases hempty : known = []
    · rw [if_pos hempty] at hok
      exact ⟨[], by simp [hempty], hok⟩
    · rw [if_neg hempty] at hok
      obtain ⟨knownHeads, hknown, hok⟩ := bind_eq_ok.mp hok
      exact ⟨knownHeads, hnormal hknown, hok⟩
  obtain ⟨events, hplan, hok⟩ := bind_eq_ok.mp hok
  obtain ⟨hevents, hok⟩ := unit_bind_eq_ok.mp hok
  obtain ⟨hlength, hok⟩ := unit_bind_eq_ok.mp hok
  obtain ⟨items, hitems, hok⟩ := bind_eq_ok.mp hok
  obtain ⟨built, hbuilt, hok⟩ := bind_eq_ok.mp hok
  obtain ⟨wire, hwire, hok⟩ := bind_eq_ok.mp hok
  obtain ⟨hbytes, hok⟩ := unit_bind_eq_ok.mp hok
  rw [ensure_eq_ok] at hevents hlength hbytes
  rw [Except.ok.injEq] at hok
  subst hok
  obtain ⟨rfl, rfl, hrefs⟩ := BundleV1.fromParts_eq_ok.mp hbuilt
  obtain ⟨hchecked, rfl⟩ := exportRefs_eq_ok.mp hitems
  refine ⟨rfl, ⟨heads, knownHeads, hnormal hheads, hknownHeads, hplan⟩, fun item ↦ ?_, hchecked,
    hevents, ?_, wire, hwire, hbytes⟩
  · rw [hrefs, mem_sort, List.mem_map]
    exact exists_congr fun ref ↦ and_congr_right fun _ ↦ eq_comm
  · rw [hrefs, (sort_perm refKey _).length_eq, List.length_map]
    exact hlength

namespace Ledger

variable {L M : Ledger B} {context : ContextId} {requested known : List EventId}
  {es : List (StoredEvent B)}

/-- The events of an exported bundle are the ancestry difference of the requested and the known
heads. -/
theorem exportBundle_events (h : L.WellFormed) {refs : List LocalRef} {limits : BundleLimits}
    {bundle : BundleV1 B}
    (hok : exportBundle B L.tables context requested known refs limits = .ok bundle) :
    (∀ head ∈ requested, L.Holds context head) ∧ (∀ head ∈ known, L.Holds context head) ∧
      ∃ es : List (StoredEvent B), bundle.events = es.map StoredEvent.event ∧
        L.IsDifference context requested known es := by
  obtain ⟨-, ⟨heads, knownHeads, hheads, hknown, hplan⟩, -⟩ := exportBundle_eq_ok hok
  obtain ⟨hheld, hknownHeld, es, hes, hdifference⟩ := planOn_tables h hplan
  refine ⟨fun head hhead ↦ hheld head ((hheads head).mpr hhead),
    fun head hhead ↦ hknownHeld head ((hknown head).mpr hhead), es, hes,
    hdifference.stored, hdifference.nodup, fun id ↦ ?_, fun before e after hsplit parent hmem ↦ ?_⟩
  · rw [← Below.congr hheads, ← Below.congr hknown]
    exact hdifference.mem_iff id
  · rw [← Below.congr hknown]
    exact hdifference.parentsFirst before e after hsplit parent hmem

/-- The events below the requested heads are those of the difference and those below the known
heads. -/
theorem IsDifference.below (hes : L.IsDifference context requested known es) {id : EventId}
    (hid : L.Below requested id) : id ∈ es.map StoredEvent.id ∨ L.Below known id := by
  by_cases hknown : L.Below known id
  · exact Or.inr hknown
  · exact Or.inl ((hes.mem_iff id).mpr ⟨hid, hknown⟩)

/-- The events of an exported bundle are settled. -/
theorem exportBundle_settled (h : L.WellFormed) {refs : List LocalRef} {limits : BundleLimits}
    {bundle : BundleV1 B}
    (hok : exportBundle B L.tables context requested known refs limits = .ok bundle) :
    ∀ event ∈ bundle.events, event.settle B = event := by
  obtain ⟨-, -, es, hes, -⟩ := exportBundle_events h hok
  intro event hevent
  rw [hes] at hevent
  obtain ⟨e, -, rfl⟩ := List.mem_map.mp hevent
  exact e.settle_event

/-- A store with the same allowlist allows the authors of an exported bundle. -/
theorem exportBundle_authors (h : L.WellFormed) {refs : List LocalRef} {limits : BundleLimits}
    {bundle : BundleV1 B}
    (hok : exportBundle B L.tables context requested known refs limits = .ok bundle) {t : Tables}
    (hallowed : ∀ author, isAuthorized t context author = isAuthorized L.tables context author) :
    ∀ event ∈ bundle.events, isAuthorized t context event.body.author = true := by
  obtain ⟨-, -, es, hes, hdifference⟩ := exportBundle_events h hok
  intro event hevent
  rw [hes] at hevent
  obtain ⟨e, he, rfl⟩ := List.mem_map.mp hevent
  obtain ⟨hstored, rfl⟩ := hdifference.stored e he
  rw [hallowed, isAuthorized_tables h.toWellKeyed]
  exact decide_eq_true (h.authorized e hstored)

/-- A store provisioned for the same genesis that holds the known heads imports the wire of an
exported, unmarked bundle exactly when it then holds the advertised heads; what it gains are the
events of the bundle. -/
theorem importBundle_exported (h : L.WellFormed) (hM : M.WellFormed) {r s : Registration}
    (hr : L.registration context = some r) (hs : M.registration context = some s)
    (hexpected : r.expected = s.expected) {refs : List LocalRef} {limits : BundleLimits}
    {bundle : BundleV1 B}
    (hok : exportBundle B L.tables context requested known refs limits = .ok bundle)
    (hunmarked : bundle.Unmarked)
    (hauthors : ∀ event ∈ bundle.events, isAuthorized M.tables context event.body.author = true)
    (hagree : ∀ e ∈ M.events, ∀ f ∈ L.events, e.id = f.id → e.wire = f.wire)
    (hknown : ∀ head ∈ known, M.Holds context head) {wire : Bytes}
    (hwire : bundle.toWire = .ok wire) {within : BundleLimits}
    (hvalid : validateBundleLimits within = .ok ())
    (hwithin : limits.maxEvents ≤ within.maxEvents ∧
      limits.maxCanonicalBytes ≤ within.maxCanonicalBytes ∧ limits.maxRefs ≤ within.maxRefs)
    (peer : PeerName) :
    ((∃ out, importBundle B peer wire within M.tables = .ok out) ↔ ∀ item ∈ bundle.refs,
      item.head ∈ bundle.events.map SignedEventV1.eventId ∨ M.Holds context item.head) ∧
    ∀ after report, importBundle B peer wire within M.tables = .ok (after, report) →
      ∃ M' : Ledger B, M'.WellFormed ∧ after = M'.tables ∧
        ∀ e, e ∈ M'.events ↔ e ∈ M.events ∨ e.event ∈ bundle.events := by
  obtain ⟨rfl, -, -, -, hevents, hrefs, rendered, hrendered, hbytes⟩ := exportBundle_eq_ok hok
  obtain ⟨-, -, es, hes, hdifference⟩ := exportBundle_events h hok
  rw [hwire, Except.ok.injEq] at hrendered
  subst hrendered
  have hmem {e : StoredEvent B} : e.event ∈ bundle.events ↔ e ∈ es := by
    rw [hes, StoredEvent.mem_map_event]
  have hcontext : ∀ e ∈ es, e.context = bundle.context := fun e he ↦ (hdifference.stored e he).2
  have hall := hdifference.admitsAll h hM hr hs hexpected
    (fun e he ↦ hauthors e.event (hmem.mpr he)) hagree hknown
  have hsettled := exportBundle_settled h hok
  have haccepts : Accepts B wire within bundle :=
    ⟨hvalid, hbytes.trans hwithin.2.1, BundleV1.fromWire_of_settled hunmarked hsettled hwire,
      hevents.trans hwithin.1, hrefs.trans hwithin.2.2, wire, hwire, hbytes.trans hwithin.2.1⟩
  have hholds {item : AdvertisedRef} : (M.admitAll es).Holds bundle.context item.head ↔
      item.head ∈ bundle.events.map SignedEventV1.eventId ∨
        M.Holds bundle.context item.head := by
    rw [hes, List.map_map]
    constructor
    · rintro ⟨e, he, hid, hcontext⟩
      rcases (mem_events_admitAll hM hall).mp he with he | he
      · exact Or.inr ⟨e, he, hid, hcontext⟩
      · exact Or.inl (hid ▸ List.mem_map_of_mem he)
    · rintro (hlisted | ⟨e, he, hheld⟩)
      · obtain ⟨e, he, hid⟩ := List.mem_map.mp hlisted
        exact ⟨e, (mem_events_admitAll hM hall).mpr (Or.inr he), hid, hcontext e he⟩
      · exact ⟨e, (mem_events_admitAll hM hall).mpr (Or.inl he), hheld⟩
  rw [haccepts.importBundle_eq]
  refine ⟨⟨?_, fun hheld ↦ ?_⟩, fun after report himport ↦ ?_⟩
  · rintro ⟨⟨after, report⟩, himport⟩
    obtain ⟨-, -, hheld, -, -⟩ := (importBundleValue_eq_ok hM hes hcontext).mp himport
    exact fun item hitem ↦ hholds.mp (hheld item hitem)
  · refine ⟨_, (importBundleValue_eq_ok hM hes hcontext).mpr ⟨?_, hall, fun item hitem ↦ ?_, rfl,
      rfl⟩⟩
    · rw [hs]
      exact Option.some_ne_none _
    · exact hholds.mpr (hheld item hitem)
  · obtain ⟨-, -, hheld, rfl, -⟩ := (importBundleValue_eq_ok hM hes hcontext).mp himport
    have hafter := hM.admitAll hall
    refine ⟨_, (Steps.trackAll hafter peer hheld).wellFormed hafter, rfl, fun e ↦ ?_⟩
    rw [(trackAll_frame peer bundle.context bundle.refs).2.2.1, mem_events_admitAll hM hall, hmem]

end Ledger

/-! ### Exports that succeed -/

namespace Ledger

variable {L : Ledger B} {context : ContextId} {requested : List EventId}

/-- A store of few events, all of which pass, exports any of its heads with any of its refs. -/
theorem exportBundle_succeeds (h : L.WellFormed) (hfew : L.events.length ≤ 7)
    (hpasses : ∀ e ∈ L.events, e.event.Passes B)
    (hcount : requested ≠ [] ∧ requested.length ≤ MAX_BUNDLE_EVENTS)
    (hheads : ∀ head ∈ requested, L.Holds context head) {refs : List LocalRef}
    (hrefs : ∀ ref ∈ refs, ref.context = context ∧ L.Holds context ref.head)
    (hfewRefs : refs.length ≤ MAX_BUNDLE_REFS)
    (hnames : (refs.map fun ref ↦ ref.name.asStr).Nodup) :
    ∃ bundle, exportBundle B L.tables context requested [] refs .default = .ok bundle := by
  have hnormal : ∀ id, id ∈ normalize (EventId.text B) requested ↔ id ∈ requested :=
    fun id ↦ mem_normalize
  have hlisted : ∃ out, projectOn B L.tables context (normalize (EventId.text B) requested)
      .default = .ok out := by
    refine h.closed.projectOn_succeeds h.reads h.acyclic rfl ⟨fun hnil ↦ ?_, ?_⟩
      (fun head hhead ↦ hheads head ((hnormal head).mp hhead))
      (fits_of_few h.toWellKeyed (hfew.trans (by decide)))
    · exact hcount.1 (normalize_eq_nil.mp hnil)
    · exact (length_normalize_le _ _).trans hcount.2
  obtain ⟨⟨events, bytes⟩, hlisted⟩ := hlisted
  have hplan : ∃ events, planOn B L.tables context (normalize (EventId.text B) requested) [] =
      .ok events := by
    rw [planOn, hlisted, ok_bind, if_pos rfl]
    exact ⟨_, rfl⟩
  obtain ⟨events, hplan⟩ := hplan
  obtain ⟨-, -, es, rfl, hdifference⟩ := planOn_tables h hplan
  have hlength : (es.map StoredEvent.event).length ≤ 7 := by
    rw [List.length_map]
    exact (List.subperm_of_subset (List.Nodup.of_map _ hdifference.nodup) fun e he ↦
      (hdifference.stored e he).1).length_le.trans hfew
  have hheld : ∀ ref ∈ refs, ref.context = context ∧
      authoritativeEventContext B L.tables ref.head = .ok (some context) := by
    intro ref href
    rw [authoritativeEventContext_tables h.toWellKeyed]
    exact ⟨(hrefs ref href).1, congrArg Except.ok (h.toWellKeyed.holds_iff.mp (hrefs ref href).2)⟩
  have hitems := exportRefs_eq_ok.mpr ⟨hheld, rfl⟩
  have hparts : checkParts B context (es.map StoredEvent.event)
      (sort refKey (refs.map fun ref ↦ ⟨.local, ref.name, ref.head⟩)) = .ok () := by
    refine checkParts_eq_ok.mpr ⟨⟨hlength.trans (by decide), ?_⟩, ?_, ⟨fun event hevent ↦ ?_,
      fun before event after hsplit parent hparent _ ↦ ?_⟩, sort_canonical ?_⟩
    · rw [(sort_perm refKey _).length_eq, List.length_map]
      exact hfewRefs
    · rw [List.map_map]
      exact hdifference.nodup
    · obtain ⟨e, he, rfl⟩ := List.mem_map.mp hevent
      exact ⟨(SignedEventV1.toWire_eq_ok.mp e.authentic.renders).1, (hdifference.stored e he).2⟩
    · obtain ⟨front, rest, hfront, rfl, hrest⟩ := List.map_eq_append_iff.mp hsplit
      obtain ⟨e, back, rfl, rfl, -⟩ := List.map_eq_cons_iff.mp hrest
      rw [List.map_map]
      refine (hdifference.parentsFirst front e back hfront parent hparent).resolve_right ?_
      rintro ⟨head, hhead, -⟩
      exact List.not_mem_nil hhead
    · exact List.pairwise_map.mpr (List.pairwise_map.mp hnames)
  have hpassing : ∀ event ∈ es.map StoredEvent.event, event.Passes B := fun event hevent ↦ by
    obtain ⟨e, he, rfl⟩ := List.mem_map.mp hevent
    exact hpasses e (hdifference.stored e he).1
  obtain ⟨wire, hwire⟩ := @BundleV1.toWire_of_short B ⟨_, _, _, hparts⟩ hpassing hlength
  have hbuilt : BundleV1.fromParts B context (es.map StoredEvent.event) (sort refKey
      (refs.map fun ref ↦ ⟨.local, ref.name, ref.head⟩)) = .ok ⟨_, _, _, hparts⟩ :=
    BundleV1.fromParts_eq_ok.mpr ⟨rfl, rfl, rfl⟩
  refine ⟨⟨_, _, _, hparts⟩, ?_⟩
  rw [exportBundle, show validateBundleLimits .default = .ok () from rfl, ok_bind,
    normalizeBundleHeads, ensure_true hcount, ok_bind, ok_bind, if_pos rfl]
  dsimp only
  have hwithin : refs.length ≤ BundleLimits.default.maxRefs ∧
      wire.length ≤ BundleLimits.default.maxCanonicalBytes :=
    ⟨hfewRefs, (BundleV1.toWire_eq_ok.mp hwire).2.1⟩
  rw [ok_bind, hplan, ok_bind, ensure_true (hlength.trans (by decide)), ok_bind,
    ensure_true hwithin.1, ok_bind, hitems, ok_bind, hbuilt, ok_bind, hwire, ok_bind,
    ensure_true hwithin.2, ok_bind]

end Ledger

namespace Ledger

variable {L M : Ledger B} {context : ContextId} {requested known : List EventId}

/-- An exported bundle is unmarked when the events of the difference are. -/
theorem exportBundle_unmarked (h : L.WellFormed) {refs : List LocalRef} {limits : BundleLimits}
    {bundle : BundleV1 B}
    (hok : exportBundle B L.tables context requested known refs limits = .ok bundle) :
    bundle.Unmarked ↔ ∀ e ∈ L.events, L.Below requested e.id → ¬ L.Below known e.id →
      e.event.Unmarked B := by
  obtain ⟨-, -, es, hes, hdifference⟩ := exportBundle_events h hok
  rw [BundleV1.Unmarked, hes, List.forall_mem_map]
  simp only [hdifference.mem_stored h, and_imp]

/-- An import leaves the events that it has parsed in the store. -/
theorem importBundle_rows (hM : M.WellFormed) {peer : PeerName} {wire : Bytes}
    {within : BundleLimits} {after : Tables} {report : ImportReport}
    (hok : importBundle B peer wire within M.tables = .ok (after, report)) :
    ∃ parsed : BundleV1 B, BundleV1.fromWire B wire = .ok parsed ∧
      ∀ event ∈ parsed.events, ∃ e : StoredEvent B, e.event = event ∧ e.row ∈ after.events := by
  obtain ⟨-, -, parsed, hparsed, -, -, -, hok⟩ := importBundle_eq_ok.mp hok
  obtain ⟨es, hes⟩ := exists_stored (BundleV1.fromWire_authentic hparsed)
  have hcontext : ∀ e ∈ es, e.context = parsed.context := fun e he ↦
    parsed.event_context e.event (hes ▸ List.mem_map_of_mem he)
  obtain ⟨-, hall, -, rfl, -⟩ := (importBundleValue_eq_ok hM hes hcontext).mp hok
  refine ⟨parsed, hparsed, fun event hevent ↦ ?_⟩
  rw [hes] at hevent
  obtain ⟨e, he, rfl⟩ := List.mem_map.mp hevent
  refine ⟨e, rfl, mem_tables_events.mpr ?_⟩
  rw [(trackAll_frame peer parsed.context parsed.refs).2.2.1]
  exact (mem_events_admitAll hM hall).mpr (Or.inr he)

/-- A transfer that brings no event but those of the two stores was of an unmarked bundle: a marked
event would have arrived as another one of its identifier. -/
theorem unmarked_of_transfer (h : L.WellFormed) (hM : M.WellFormed)
    (hagree : ∀ e ∈ M.events, ∀ f ∈ L.events, e.id = f.id → e.wire = f.wire)
    {bundle : BundleV1 B} {es : List (StoredEvent B)}
    (hes : bundle.events = es.map StoredEvent.event) (hheld : ∀ e ∈ es, e ∈ L.events)
    {wire : Bytes} (hwire : bundle.toWire = .ok wire) {peer : PeerName} {within : BundleLimits}
    {after : Tables} {report : ImportReport}
    (hok : importBundle B peer wire within M.tables = .ok (after, report))
    (hrows : ∀ row ∈ after.events, row ∈ M.tables.events ∨ row ∈ L.tables.events) :
    bundle.Unmarked := by
  obtain ⟨parsed, hparsed, hstored⟩ := importBundle_rows hM hok
  intro event hevent
  obtain ⟨again, hagain, hread⟩ :=
    exists_of_forall₂ (BundleV1.fromWire_reads hwire hparsed).flip event hevent
  obtain ⟨f, rfl, hf⟩ := hstored again hagain
  rw [hes] at hevent
  obtain ⟨e, he, rfl⟩ := List.mem_map.mp hevent
  have hid : f.id = e.id := SignedEventV1.ReadsAs.eventId hread
  have hsame : f.wire = e.wire := by
    rcases hrows _ hf with hold | hnew
    · exact hagree f (mem_tables_events.mp hold) e (hheld e he) hid
    · rw [h.event_eq_of_id (mem_tables_events.mp hnew) (hheld e he) hid]
  exact SignedEventV1.ReadsAs.unmarked_of_wire hread f.authentic.settled e.authentic.renders
    (hsame ▸ f.authentic.renders)

/-- A store that holds the known heads, and the advertised heads that the transfer does not bring,
imports an unmarked export. It then holds what it held and what lies below the requested heads. -/
theorem importBundle_transfers (h : L.WellFormed) (hM : M.WellFormed) {r s : Registration}
    (hr : L.registration context = some r) (hs : M.registration context = some s)
    (hexpected : r.expected = s.expected) {refs : List LocalRef} {limits : BundleLimits}
    {bundle : BundleV1 B}
    (hok : exportBundle B L.tables context requested known refs limits = .ok bundle)
    (hunmarked : bundle.Unmarked)
    (hauthors : ∀ event ∈ bundle.events, isAuthorized M.tables context event.body.author = true)
    (hagree : ∀ e ∈ M.events, ∀ f ∈ L.events, e.id = f.id → e.wire = f.wire)
    (hknown : ∀ head ∈ known, M.Holds context head)
    (hrefs : ∀ ref ∈ refs, L.Below requested ref.head ∨ M.Holds context ref.head) {wire : Bytes}
    (hwire : bundle.toWire = .ok wire) {within : BundleLimits}
    (hvalid : validateBundleLimits within = .ok ())
    (hwithin : limits.maxEvents ≤ within.maxEvents ∧
      limits.maxCanonicalBytes ≤ within.maxCanonicalBytes ∧ limits.maxRefs ≤ within.maxRefs)
    (peer : PeerName) :
    ∃ (M' : Ledger B) (report : ImportReport),
      importBundle B peer wire within M.tables = .ok (M'.tables, report) ∧
      ∀ e, e ∈ M'.events ↔ e ∈ M.events ∨ e ∈ L.events ∧ L.Below requested e.id := by
  have himport := importBundle_exported h hM hr hs hexpected hok hunmarked hauthors hagree hknown
    hwire hvalid hwithin peer
  obtain ⟨-, -, es, hes, hdifference⟩ := exportBundle_events h hok
  obtain ⟨rfl, -, hitems, -⟩ := exportBundle_eq_ok hok
  obtain ⟨⟨after, report⟩, hout⟩ := himport.1.mpr fun item hitem ↦ by
    obtain ⟨ref, href, rfl⟩ := (hitems item).mp hitem
    rw [hes, List.map_map]
    rcases hrefs ref href with hbelow | hheld
    · rcases hdifference.below hbelow with hbrought | ⟨head, hhead, hknownBelow⟩
      · exact Or.inl hbrought
      · have hheld := hknown head hhead
        exact Or.inr (hM.holds_ancestor hheld (hM.ancestor_of_agree hagree hheld hknownBelow))
    · exact Or.inr hheld
  obtain ⟨M', -, rfl, hafter⟩ := himport.2 after report hout
  refine ⟨M', report, hout, fun e ↦ ?_⟩
  rw [hafter, hes, StoredEvent.mem_map_event, hdifference.mem_stored h]
  constructor
  · rintro (hold | ⟨he, hbelow, -⟩)
    · exact Or.inl hold
    · exact Or.inr ⟨he, hbelow⟩
  · rintro (hold | ⟨he, hbelow⟩)
    · exact Or.inl hold
    by_cases hknownBelow : L.Below known e.id
    · -- below the known heads the two stores hold the same events
      obtain ⟨head, hhead, hancestor⟩ := hknownBelow
      have hheld := hknown head hhead
      obtain ⟨f, hf, hid, -⟩ :=
        hM.holds_ancestor hheld (hM.ancestor_of_agree hagree hheld hancestor)
      exact Or.inl (StoredEvent.ext_wire (hagree f hf e he hid) ▸ hf)
    · exact Or.inr ⟨he, hbelow, hknownBelow⟩

end Ledger

/-- Export and import transfer the missing ancestry. An export lists exactly the events below the
requested heads and not below the known ones, each once and after its parents, within its limits; a
store provisioned for the same genesis that allows the authors, agrees on the wires, and holds the
known heads and the advertised heads that the transfer does not bring, imports its wire and ends
with the events it had and those below the requested heads, exactly when no event of the export has
a payload with an object that begins with the raw token. -/
theorem export_import_transfers_iff (B : Boundary) (E I : Tables) (hE : Reachable B E)
    (hI : Reachable B I) (context : ContextId) (expected : EventId) (stateE stateI : ℤ)
    (hexporter : contextRow E context = .ok (some (expected, stateE)))
    (himporter : contextRow I context = .ok (some (expected, stateI)))
    (hagree : ∀ id wire wire', eventWire E id = .ok (some wire) →
      eventWire I id = .ok (some wire') → wire' = wire)
    (requested known : List EventId) (refs : List LocalRef) (limits : BundleLimits)
    (bundle : BundleV1 B)
    (hexport : exportBundle B E context requested known refs limits = .ok bundle)
    (hauthors : ∀ event ∈ bundle.events, isAuthorized I context event.body.author = true)
    (hknown : ∀ head ∈ known, I.Holds B context head)
    (hrefs : ∀ ref ∈ refs, (∃ head ∈ requested, ReflTransGen (E.Parent B) head ref.head) ∨
      I.Holds B context ref.head) :
    (∀ event, event ∈ bundle.events ↔ ∃ e : StoredEvent B, e.event = event ∧ e.row ∈ E.events ∧
      (∃ head ∈ requested, ReflTransGen (E.Parent B) head e.id) ∧
      ¬ ∃ head ∈ known, ReflTransGen (E.Parent B) head e.id) ∧
    (bundle.events.map SignedEventV1.eventId).Nodup ∧
    (∀ before event after, bundle.events = before ++ event :: after →
      ∀ parent ∈ event.body.parents, parent ∈ before.map SignedEventV1.eventId ∨
        ∃ head ∈ known, ReflTransGen (E.Parent B) head parent) ∧
    bundle.events.length ≤ limits.maxEvents ∧
    ∃ wire, bundle.toWire = .ok wire ∧
      ((∀ peer within, validateBundleLimits within = .ok () →
        limits.maxEvents ≤ within.maxEvents ∧
          limits.maxCanonicalBytes ≤ within.maxCanonicalBytes ∧ limits.maxRefs ≤ within.maxRefs →
        ∃ after report, importBundle B peer wire within I = .ok (after, report) ∧
          ∀ row, row ∈ after.events ↔ row ∈ I.events ∨ row ∈ E.events ∧
            ∃ e : StoredEvent B, row = e.row ∧
              ∃ head ∈ requested, ReflTransGen (E.Parent B) head e.id) ↔
      ∀ e : StoredEvent B, e.row ∈ E.events →
        (∃ head ∈ requested, ReflTransGen (E.Parent B) head e.id) →
        (¬ ∃ head ∈ known, ReflTransGen (E.Parent B) head e.id) → e.event.Unmarked B) := by
  obtain ⟨L, h, rfl⟩ := Ledger.exists_of_reachable hE
  obtain ⟨M, hM, rfl⟩ := Ledger.exists_of_reachable hI
  simp only [← Ledger.below_tables, Ledger.mem_tables_events, Ledger.holds_tables] at hrefs hknown ⊢
  obtain ⟨r, hr, rfl⟩ := h.registration_of_row hexporter
  obtain ⟨s, hs, hexpected⟩ := hM.registration_of_row himporter
  have hwires : ∀ e ∈ M.events, ∀ f ∈ L.events, e.id = f.id → e.wire = f.wire := by
    intro e he f hf hid
    refine hagree f.id f.wire e.wire ?_ ?_
    · rw [Ledger.eventWire_tables h.toWellKeyed, h.find_eq_some.mpr ⟨hf, rfl⟩, Option.map_some]
    · rw [Ledger.eventWire_tables hM.toWellKeyed, hM.find_eq_some.mpr ⟨he, hid⟩, Option.map_some]
  obtain ⟨hrequested, hknownHeld, es, hes, hdifference⟩ := Ledger.exportBundle_events h hexport
  have hmarks := Ledger.exportBundle_unmarked h hexport
  have hlimits : validateBundleLimits limits = .ok () := (unit_bind_eq_ok.mp hexport).1
  obtain ⟨rfl, -, -, -, hevents, -, wire, hwire, -⟩ := exportBundle_eq_ok hexport
  refine ⟨fun event ↦ ?_, ?_, fun before event after hsplit parent hparent ↦ ?_, hevents, wire,
    hwire, fun htransfers ↦ hmarks.mp ?_, fun hclear peer within hvalid hwithin ↦ ?_⟩
  · rw [hes, List.mem_map]
    simp only [hdifference.mem_stored h]
    exact exists_congr fun e ↦ and_comm
  · rw [hes, List.map_map]
    exact hdifference.nodup
  · obtain ⟨front, rest, hfront, rfl, hrest⟩ := List.map_eq_append_iff.mp (hes ▸ hsplit)
    obtain ⟨e, back, rfl, rfl, -⟩ := List.map_eq_cons_iff.mp hrest
    rw [List.map_map]
    exact hdifference.parentsFirst front e back hfront parent hparent
  · obtain ⟨after, report, hok, hrows⟩ :=
      htransfers ⟨"peer", rfl⟩ limits hlimits ⟨le_rfl, le_rfl, le_rfl⟩
    refine Ledger.unmarked_of_transfer h hM hwires hes (fun e he ↦ (hdifference.stored e he).1)
      hwire hok fun row hrow ↦ ?_
    exact ((hrows row).mp hrow).imp_right And.left
  · obtain ⟨M', report, hok, hafter⟩ := Ledger.importBundle_transfers h hM hr hs hexpected.symm
      hexport (hmarks.mpr hclear) hauthors hwires hknown hrefs hwire hvalid hwithin peer
    refine ⟨_, report, hok, fun row ↦ ?_⟩
    constructor
    · intro hrow
      obtain ⟨e, he, rfl⟩ := List.mem_map.mp hrow
      rcases (hafter e).mp he with hold | ⟨hstored, hbelow⟩
      · exact Or.inl (Ledger.mem_tables_events.mpr hold)
      · exact Or.inr ⟨Ledger.mem_tables_events.mpr hstored, e, rfl, hbelow⟩
    · rintro (hrow | ⟨hrow, e, rfl, hbelow⟩)
      · obtain ⟨e, he, rfl⟩ := List.mem_map.mp hrow
        exact Ledger.mem_tables_events.mpr ((hafter e).mpr (Or.inl he))
      · have hstored := Ledger.mem_tables_events.mp hrow
        exact Ledger.mem_tables_events.mpr ((hafter e).mpr (Or.inr ⟨hstored, hbelow⟩))

section Golden

open Reference Golden

theorem first_stored : first ∈ advanced.events := List.mem_append_left _ (List.mem_singleton_self _)

theorem second_stored : second ∈ advanced.events :=
  List.mem_append_right _ (List.mem_singleton_self _)

theorem advanced_row : contextRow advanced.tables Golden.context = .ok (some (first.id, 1)) :=
  Ledger.contextRow_tables advanced_wellFormed.toWellKeyed _

theorem provisioned_row :
    contextRow provisioned.tables Golden.context = .ok (some (first.id, 0)) :=
  Ledger.contextRow_tables provisioned_wellFormed.toWellKeyed _

theorem provisioned_allowed (author : AuthorId) :
    isAuthorized provisioned.tables Golden.context author =
      isAuthorized advanced.tables Golden.context author := by
  rw [Ledger.isAuthorized_tables provisioned_wellFormed.toWellKeyed,
    Ledger.isAuthorized_tables advanced_wellFormed.toWellKeyed]
  rfl

theorem advanced_unmarked : ∀ e ∈ advanced.events, e.event.Unmarked Golden.B := by
  intro e he
  rcases List.mem_append.mp he with hfirst | hsecond
  · exact List.mem_singleton.mp hfirst ▸ golden_unmarked (Or.inl rfl)
  · exact List.mem_singleton.mp hsecond ▸ golden_unmarked (Or.inr rfl)

theorem advanced_passes : ∀ e ∈ advanced.events, e.event.Passes Golden.B := fun e he ↦
  (advanced_unmarked e he).passes e.verify

/-- The request and its branch are transferred into a store that has only joined the context. -/
theorem export_import_transfers_provisioned : ∃ bundle wire out,
    exportBundle Golden.B advanced.tables Golden.context [second.id] []
      [⟨Golden.context, main, second.id⟩] .default = .ok bundle ∧ bundle.toWire = .ok wire ∧
    importBundle Golden.B Golden.peer wire .default provisioned.tables = .ok out := by
  have hone : [second.id].length ≤ MAX_BUNDLE_EVENTS := (by decide : 1 ≤ MAX_BUNDLE_EVENTS)
  have hheld : advanced.Holds Golden.context second.id := ⟨second, second_stored, rfl, rfl⟩
  obtain ⟨bundle, hbundle⟩ := Ledger.exportBundle_succeeds advanced_wellFormed (by decide)
    advanced_passes ⟨List.cons_ne_nil _ _, hone⟩
    (fun head hhead ↦ List.mem_singleton.mp hhead ▸ hheld)
    (fun ref href ↦ List.mem_singleton.mp href ▸ ⟨rfl, hheld⟩)
    (by decide : [(⟨Golden.context, main, second.id⟩ : LocalRef)].length ≤ MAX_BUNDLE_REFS)
    (List.nodup_singleton _)
  have hnothing : ∀ id wire wire', eventWire advanced.tables id = .ok (some wire) →
      eventWire provisioned.tables id = .ok (some wire') → wire' = wire := by
    intro id wire wire' _ hwire'
    rw [Ledger.eventWire_tables provisioned_wellFormed.toWellKeyed,
      Ledger.find_eq_none.mpr fun f hf ↦ absurd hf List.not_mem_nil] at hwire'
    cases hwire'
  obtain ⟨-, -, -, -, wire, hwire, htransfers⟩ := export_import_transfers_iff Golden.B
    advanced.tables provisioned.tables advanced_reachable provisioned_reachable Golden.context
    first.id 1 0 advanced_row provisioned_row hnothing [second.id] []
    [⟨Golden.context, main, second.id⟩] .default bundle hbundle
    (Ledger.exportBundle_authors advanced_wellFormed hbundle provisioned_allowed)
    (fun head hhead ↦ absurd hhead List.not_mem_nil)
    fun ref href ↦ Or.inl ⟨second.id, List.mem_singleton_self _,
      List.mem_singleton.mp href ▸ .refl⟩
  obtain ⟨after, report, hok, -⟩ := htransfers.mpr
    (fun e he _ _ ↦ advanced_unmarked e (Ledger.mem_tables_events.mp he)) Golden.peer .default rfl
    ⟨le_rfl, le_rfl, le_rfl⟩
  exact ⟨bundle, wire, _, hbundle, hwire, hok⟩

end Golden

section Marked

open Reference Marked

theorem marked_stored : marked ∈ advanced.events :=
  List.mem_append_right _ (List.mem_singleton_self _)

theorem first_clear : first.event.Unmarked Marked.B := by
  have hsettled := settled_payload (s := Golden.genesis) (Or.inl rfl) Marked.B
  change (Golden.genesis.body.payload.collect _).Unmarked
  rw [hsettled]
  exact ⟨by decide, trivial⟩

theorem marked_passes : ∀ e ∈ advanced.events, e.event.Passes Marked.B := by
  intro e he
  rcases List.mem_append.mp he with hfirst | hmarked
  · exact List.mem_singleton.mp hfirst ▸ first_clear.passes first.verify
  · exact List.mem_singleton.mp hmarked ▸ marking_passes

theorem marked_distinguished : ∀ e ∈ advanced.events, e.event.Distinguished Marked.B := by
  intro e he
  rcases List.mem_append.mp he with hfirst | hmarked
  · exact List.mem_singleton.mp hfirst ▸ first_clear.distinguished first.verify
  · exact List.mem_singleton.mp hmarked ▸ marking_distinguished

/-- The marked request is exported, and a store that has only joined the context refuses it. -/
theorem export_import_marked : Reachable Marked.B advanced.tables ∧
    Reachable Marked.B provisioned.tables ∧ provisioned.tables.events = [] ∧
    contextRow advanced.tables Golden.context = .ok (some (first.id, 1)) ∧
    contextRow provisioned.tables Golden.context = .ok (some (first.id, 0)) ∧
    (∀ author, isAuthorized provisioned.tables Golden.context author =
      isAuthorized advanced.tables Golden.context author) ∧
    ∃ bundle wire, exportBundle Marked.B advanced.tables Golden.context [marked.id] [] [] .default =
      .ok bundle ∧ bundle.toWire = .ok wire ∧
    ∀ out, importBundle Marked.B Golden.peer wire .default provisioned.tables ≠ .ok out := by
  have hone : [marked.id].length ≤ MAX_BUNDLE_EVENTS := (by decide : 1 ≤ MAX_BUNDLE_EVENTS)
  have hheld : advanced.Holds Golden.context marked.id := ⟨marked, marked_stored, rfl, rfl⟩
  obtain ⟨bundle, hbundle⟩ := Ledger.exportBundle_succeeds advanced_wellFormed (by decide)
    marked_passes ⟨List.cons_ne_nil _ _, hone⟩
    (fun head hhead ↦ List.mem_singleton.mp hhead ▸ hheld)
    (fun ref href ↦ absurd href List.not_mem_nil)
    (Nat.zero_le _ : ([] : List LocalRef).length ≤ MAX_BUNDLE_REFS) List.nodup_nil
  obtain ⟨-, -, -, -, -, -, wire, hwire, -⟩ := exportBundle_eq_ok hbundle
  refine ⟨advanced_marked, provisioned_marked, rfl,
    Ledger.contextRow_tables advanced_wellFormed.toWellKeyed _,
    Ledger.contextRow_tables provisioned_wellFormed.toWellKeyed _, fun author ↦ ?_, bundle, wire,
    hbundle, hwire, fun out hout ↦ ?_⟩
  · rw [Ledger.isAuthorized_tables provisioned_wellFormed.toWellKeyed,
      Ledger.isAuthorized_tables advanced_wellFormed.toWellKeyed]
    rfl
  · obtain ⟨parsed, hparsed, -⟩ := Ledger.importBundle_rows provisioned_wellFormed hout
    obtain ⟨-, -, es, hes, hdifference⟩ :=
      Ledger.exportBundle_events advanced_wellFormed hbundle
    have hunmarked := BundleV1.unmarked_of_distinguished hwire hparsed fun event hevent ↦ by
      rw [hes] at hevent
      obtain ⟨e, he, rfl⟩ := List.mem_map.mp hevent
      exact marked_distinguished e (hdifference.stored e he).1
    have hnone : ¬ advanced.Below [] marked.id := by
      rintro ⟨head, hhead, -⟩
      exact List.not_mem_nil hhead
    exact marking_marked ((Ledger.exportBundle_unmarked advanced_wellFormed hbundle).mp hunmarked
      marked marked_stored ⟨marked.id, List.mem_singleton_self _, .refl⟩ hnone)

end Marked

/-! ### The export command -/

/-- The refs that a command reads: the branches of the context with their heads. -/
theorem syncLocalRefSnapshot_tables {L : Ledger B} (h : L.WellFormed) {context : ContextId}
    {refs : List LocalRef} (hok : syncLocalRefSnapshot B L.tables context = .ok refs) :
    ∀ head, (∃ ref ∈ refs, ref.head = head) ↔
      ∃ name, localRefId L.tables context name = .ok (some head) := by
  obtain ⟨-, hok⟩ := unit_bind_eq_ok.mp hok
  obtain ⟨listed, hlisted, hok⟩ := bind_eq_ok.mp hok
  obtain ⟨-, hok⟩ := unit_bind_eq_ok.mp hok
  rw [Ledger.listLocalRefs_tables h, Except.ok.injEq] at hlisted
  rw [Except.ok.injEq] at hok
  subst hlisted hok
  intro head
  constructor
  · rintro ⟨ref, href, rfl⟩
    obtain ⟨hmem, rfl⟩ := Ledger.mem_localRefsOf.mp href
    refine ⟨ref.name, ?_⟩
    rw [Ledger.localRefId_tables h.toWellKeyed, Except.ok.injEq]
    exact h.localHead_eq_some.mpr hmem
  · rintro ⟨name, hhead⟩
    rw [Ledger.localRefId_tables h.toWellKeyed, Except.ok.injEq] at hhead
    exact ⟨_, Ledger.mem_localRefsOf.mpr ⟨h.localHead_eq_some.mp hhead, rfl⟩, rfl⟩

namespace Ledger

variable {K L M : Ledger B} {context : ContextId} {requested : List EventId} {wire : Bytes}

/-- The bundle that the export command writes lists every head it advertises exactly when every
branch that the command has read lies below the requested heads. -/
theorem bundleExport_eq_ok (hK : K.WellFormed) (h : L.WellFormed)
    (hok : bundleExport B K.tables L.tables context requested [] = .ok wire) :
    ∃ bundle refs, exportBundle B L.tables context requested [] refs .default = .ok bundle ∧
      bundle.toWire = .ok wire ∧
      ((∀ item ∈ bundle.refs, item.head ∈ bundle.events.map SignedEventV1.eventId) ↔
        ∀ name head, localRefId K.tables context name = .ok (some head) →
          L.Below requested head) := by
  obtain ⟨refs, hrefs, hok⟩ := bind_eq_ok.mp hok
  obtain ⟨bundle, hbundle, hwire⟩ := bind_eq_ok.mp hok
  obtain ⟨-, -, es, hes, hdifference⟩ := exportBundle_events h hbundle
  obtain ⟨-, -, hitems, -⟩ := exportBundle_eq_ok hbundle
  have hlisted {id : EventId} :
      id ∈ bundle.events.map SignedEventV1.eventId ↔ L.Below requested id := by
    rw [hes, List.map_map]
    refine (hdifference.mem_iff id).trans (and_iff_left ?_)
    rintro ⟨head, hhead, -⟩
    exact List.not_mem_nil hhead
  refine ⟨bundle, refs, hbundle, hwire, ?_, ?_⟩
  · intro hall name head hhead
    obtain ⟨ref, href, rfl⟩ := (syncLocalRefSnapshot_tables hK hrefs head).mpr ⟨name, hhead⟩
    exact hlisted.mp (hall _ ((hitems _).mpr ⟨ref, href, rfl⟩))
  · intro hall item hitem
    obtain ⟨ref, href, rfl⟩ := (hitems item).mp hitem
    obtain ⟨name, hhead⟩ := (syncLocalRefSnapshot_tables hK hrefs ref.head).mp ⟨ref, href, rfl⟩
    exact hlisted.mpr (hall name ref.head hhead)

/-- A store without events imports a whole, unmarked ancestry exactly when the bundle lists every
head that it advertises. -/
theorem importBundle_fresh (h : L.WellFormed) (hM : M.WellFormed) {expected : EventId}
    {state state' : ℤ} (hexporter : contextRow L.tables context = .ok (some (expected, state)))
    (hjoined : contextRow M.tables context = .ok (some (expected, state')))
    (hfresh : M.tables.events = [])
    (hallowed : ∀ author,
      isAuthorized M.tables context author = isAuthorized L.tables context author)
    {refs : List LocalRef} {bundle : BundleV1 B}
    (hbundle : exportBundle B L.tables context requested [] refs .default = .ok bundle)
    (hunmarked : bundle.Unmarked) (hwire : bundle.toWire = .ok wire) (peer : PeerName) :
    (∃ out, importBundle B peer wire .default M.tables = .ok out) ↔
      ∀ item ∈ bundle.refs, item.head ∈ bundle.events.map SignedEventV1.eventId := by
  obtain ⟨r, hr, rfl⟩ := h.registration_of_row hexporter
  obtain ⟨s, hs, hexpected⟩ := hM.registration_of_row hjoined
  have hempty : M.events = [] := List.map_eq_nil_iff.mp hfresh
  have himport := (importBundle_exported h hM hr hs hexpected.symm hbundle
    hunmarked (exportBundle_authors h hbundle hallowed) (by simp [hempty]) (by simp) hwire rfl
    ⟨le_rfl, le_rfl, le_rfl⟩ peer).1
  refine himport.trans (forall₂_congr fun item _ ↦ or_iff_left ?_)
  rintro ⟨e, he, -⟩
  rw [hempty] at he
  exact List.not_mem_nil he

/-- The export command succeeds on a store of few events, all of which pass. -/
theorem bundleExport_succeeds (h : L.WellFormed) (hfew : L.events.length ≤ 7)
    (hpasses : ∀ e ∈ L.events, e.event.Passes B)
    (hcount : requested ≠ [] ∧ requested.length ≤ MAX_BUNDLE_EVENTS)
    (hheads : ∀ head ∈ requested, L.Holds context head)
    (hactive : ∃ r, L.registration context = some r ∧ r.active = true)
    (hfewRefs : L.localRefs.length ≤ MAX_BUNDLE_REFS) :
    ∃ wire, bundleExport B L.tables L.tables context requested [] = .ok wire := by
  have hlength : (L.localRefsOf context).length ≤ MAX_BUNDLE_REFS := by
    rw [localRefsOf, (sort_perm _ _).length_eq]
    exact (List.length_filter_le _ _).trans hfewRefs
  have hnames : ((L.localRefsOf context).map fun ref ↦ ref.name.asStr).Nodup :=
    (List.pairwise_map.mpr (canonical_iff_pairwise.mp
      (localRefsOf_canonical h.toWellKeyed context))).imp fun hlt ↦ hlt.ne
  have hrefs : ∀ ref ∈ L.localRefsOf context, ref.context = context ∧
      L.Holds context ref.head := by
    intro ref href
    obtain ⟨hmem, rfl⟩ := mem_localRefsOf.mp href
    exact ⟨rfl, h.localTargets ref hmem⟩
  obtain ⟨bundle, hbundle⟩ := exportBundle_succeeds h hfew hpasses hcount hheads hrefs
    hlength hnames
  obtain ⟨-, -, -, -, -, -, wire, hwire, -⟩ := exportBundle_eq_ok hbundle
  have hrequired : requireActive L.tables context = .ok () :=
    (requireActive_tables h.toWellKeyed).mpr hactive
  refine ⟨wire, ?_⟩
  rw [bundleExport, syncLocalRefSnapshot, hrequired, ok_bind, listLocalRefs_tables h, ok_bind,
    ensure_true hlength, ok_bind, ok_bind, hbundle, ok_bind, hwire]

end Ledger

/-- A bundle that the export command writes without known heads is importable into a fresh store of
the same context, genesis and authors, and every ref it advertises points at one of its events,
exactly when every branch of the context lies below the requested heads and no event below them has
a payload with an object that begins with the raw token. The branches are read before the events are
selected, and other calls may come between. -/
theorem bundleExport_importable_iff (B : Boundary) (snapshot E F : Tables)
    (hsnapshot : Reachable B snapshot) (hE : Run B snapshot E) (hF : Reachable B F)
    (context : ContextId) (expected : EventId) (state : ℤ)
    (hexporter : contextRow E context = .ok (some (expected, state)))
    (hjoined : contextRow F context = .ok (some (expected, 0))) (hfresh : F.events = [])
    (hallowed : ∀ author, isAuthorized F context author = isAuthorized E context author)
    (hdistinguished : ∀ e : StoredEvent B, e.row ∈ E.events → e.event.Distinguished B)
    (requested : List EventId) (wire : Bytes)
    (hexport : bundleExport B snapshot E context requested [] = .ok wire) (peer : PeerName) :
    ((∃ out, importBundle B peer wire .default F = .ok out) ∧
      ∃ bundle, BundleV1.fromWire B wire = .ok bundle ∧
        ∀ item ∈ bundle.refs, item.head ∈ bundle.events.map SignedEventV1.eventId) ↔
    (∀ name head, localRefId snapshot context name = .ok (some head) →
      ∃ ancestor ∈ requested, ReflTransGen (E.Parent B) ancestor head) ∧
    ∀ e : StoredEvent B, e.row ∈ E.events →
      (∃ ancestor ∈ requested, ReflTransGen (E.Parent B) ancestor e.id) →
        e.event.Unmarked B := by
  obtain ⟨K, hK, rfl⟩ := Ledger.exists_of_reachable hsnapshot
  obtain ⟨L, h, rfl⟩ := Ledger.exists_of_reachable (hsnapshot.trans hE)
  obtain ⟨M, hM, rfl⟩ := Ledger.exists_of_reachable hF
  obtain ⟨bundle, refs, hbundle, hwire, hrefs⟩ := Ledger.bundleExport_eq_ok hK h hexport
  have hmarks : bundle.Unmarked ↔ ∀ e ∈ L.events, L.Below requested e.id → e.event.Unmarked B := by
    refine (Ledger.exportBundle_unmarked h hbundle).trans (forall₂_congr fun e _ ↦ ?_)
    have hnone : ¬ L.Below [] e.id := by
      rintro ⟨head, hhead, -⟩
      exact List.not_mem_nil hhead
    exact imp_congr_right fun _ ↦ ⟨fun himp ↦ himp hnone, fun hclear _ ↦ hclear⟩
  simp only [← Ledger.below_tables, Ledger.mem_tables_events] at hdistinguished ⊢
  rw [← hmarks, ← hrefs]
  constructor
  · rintro ⟨⟨out, hout⟩, -⟩
    obtain ⟨-, -, parsed, hparsed, -⟩ := importBundle_eq_ok.mp hout
    obtain ⟨-, -, es, hes, hdifference⟩ := Ledger.exportBundle_events h hbundle
    have hunmarked := BundleV1.unmarked_of_distinguished hwire hparsed fun event hevent ↦ by
      rw [hes] at hevent
      obtain ⟨e, he, rfl⟩ := List.mem_map.mp hevent
      exact hdistinguished e (hdifference.stored e he).1
    exact ⟨(Ledger.importBundle_fresh h hM hexporter hjoined hfresh hallowed hbundle hunmarked hwire
      peer).mp ⟨out, hout⟩, hunmarked⟩
  · rintro ⟨hall, hunmarked⟩
    have hparse := BundleV1.fromWire_of_settled hunmarked
      (Ledger.exportBundle_settled h hbundle) hwire
    exact ⟨(Ledger.importBundle_fresh h hM hexporter hjoined hfresh hallowed hbundle hunmarked hwire
      peer).mpr hall, bundle, hparse, hall⟩

section Golden

open Reference Golden

theorem advanced_exports {e : StoredEvent Golden.B} (he : e ∈ advanced.events)
    (hcontext : e.context = Golden.context) : ∃ wire, bundleExport Golden.B advanced.tables
      advanced.tables Golden.context [e.id] [] = .ok wire := by
  obtain ⟨r, hr, hactive⟩ := advanced_wellFormed.registration_of_mem second_stored
  have hone : [e.id].length ≤ MAX_BUNDLE_EVENTS := (by decide : 1 ≤ MAX_BUNDLE_EVENTS)
  apply Ledger.bundleExport_succeeds advanced_wellFormed (by decide) advanced_passes
    ⟨List.cons_ne_nil _ _, hone⟩ _ ⟨r, hr, hactive⟩ (by decide)
  intro head hhead
  exact ⟨e, he, (List.mem_singleton.mp hhead).symm, hcontext⟩

/-- The only branch is at the request. -/
theorem advanced_head {name : LocalRefName} {head : EventId}
    (h : localRefId advanced.tables Golden.context name = .ok (some head)) : head = second.id := by
  rw [Ledger.localRefId_tables advanced_wellFormed.toWellKeyed, Except.ok.injEq,
    advanced_wellFormed.localHead_eq_some] at h
  exact congrArg LocalRef.head (List.mem_singleton.mp h)

/-- The request is exported and imported with its branch. -/
theorem bundleExport_importable_advanced : ∃ wire out,
    bundleExport Golden.B advanced.tables advanced.tables Golden.context [second.id] [] =
      .ok wire ∧
    importBundle Golden.B Golden.peer wire .default provisioned.tables = .ok out := by
  obtain ⟨wire, hwire⟩ := advanced_exports second_stored rfl
  obtain ⟨⟨out, hout⟩, -⟩ := (bundleExport_importable_iff Golden.B advanced.tables advanced.tables
    provisioned.tables advanced_reachable (.refl _) provisioned_reachable Golden.context first.id 1
    advanced_row provisioned_row rfl provisioned_allowed
    (fun e he ↦ (advanced_unmarked e (Ledger.mem_tables_events.mp he)).distinguished e.verify)
    [second.id] wire hwire Golden.peer).mpr
      ⟨fun name head hhead ↦ ⟨second.id, List.mem_singleton_self _, advanced_head hhead ▸ .refl⟩,
        fun e he _ ↦ advanced_unmarked e (Ledger.mem_tables_events.mp he)⟩
  exact ⟨wire, out, hwire, hout⟩

/-- The genesis is exported with the branch of the request, and the bundle is not importable. -/
theorem bundleExport_genesis_refused : Reachable Golden.B advanced.tables ∧
    Reachable Golden.B provisioned.tables ∧ provisioned.tables.events = [] ∧
    contextRow provisioned.tables Golden.context = .ok (some (first.id, 0)) ∧
    (∀ author, isAuthorized provisioned.tables Golden.context author =
      isAuthorized advanced.tables Golden.context author) ∧
    ∃ wire, bundleExport Golden.B advanced.tables advanced.tables Golden.context [first.id] [] =
      .ok wire ∧
    ∀ out, importBundle Golden.B Golden.peer wire .default provisioned.tables ≠ .ok out := by
  refine ⟨advanced_reachable, provisioned_reachable, rfl, provisioned_row, provisioned_allowed, ?_⟩
  obtain ⟨wire, hwire⟩ := advanced_exports first_stored rfl
  refine ⟨wire, hwire, fun out hout ↦ ?_⟩
  obtain ⟨bundle, refs, hbundle, hrendered, hrefs⟩ :=
    Ledger.bundleExport_eq_ok advanced_wellFormed advanced_wellFormed hwire
  have hunmarked := (Ledger.exportBundle_unmarked advanced_wellFormed hbundle).mpr
    fun e he _ _ ↦ advanced_unmarked e he
  have hlisted := (Ledger.importBundle_fresh advanced_wellFormed provisioned_wellFormed advanced_row
    provisioned_row rfl provisioned_allowed hbundle hunmarked hrendered Golden.peer).mp ⟨out, hout⟩
  have hhead : localRefId advanced.tables Golden.context main = .ok (some second.id) := by
    rw [Ledger.localRefId_tables advanced_wellFormed.toWellKeyed, Except.ok.injEq,
      advanced_wellFormed.localHead_eq_some]
    exact List.mem_singleton_self _
  -- The genesis has no parents, so only itself lies below it.
  obtain ⟨head, hmem, hancestor⟩ := hrefs.mp hlisted main second.id hhead
  rw [List.mem_singleton.mp hmem] at hancestor
  rcases ReflTransGen.cases_head hancestor with hsame | ⟨parent, hparent, -⟩
  · exact first_ne_second hsame
  · obtain ⟨e, he, hid, hparents⟩ := hparent
    obtain rfl := advanced_wellFormed.event_eq_of_id he first_stored hid
    exact List.not_mem_nil (first_parents ▸ hparents)

end Golden

end ContextMesh.Store
