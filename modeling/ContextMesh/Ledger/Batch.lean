import ContextMesh.Ledger.Runs
import ContextMesh.Codec.Bundle

/-!
The import of a bundle as a batch. It does what admitting the events of the bundle one at a time
does, and then sets the advertised refs; it is all or nothing.
-/

set_option autoImplicit false
set_option relaxedAutoImplicit false

namespace ContextMesh.Store

open Checked Ordered Keyed Contract

variable {B : Boundary}

variable (B) in
/-- Admits events one at a time, with the status of each. -/
def admitEach : List SignedEventV1 → Tables → Except StoreError (Tables × List AdmissionStatus)
  | [], t => .ok (t, [])
  | event :: rest, t => do
    let (admitted, status) ← admitEvent B event .none t
    let (final, statuses) ← admitEach rest admitted
    .ok (final, status :: statuses)

variable (B) in
/-- The bytes are those of a bundle within the limits of a call. -/
structure Accepts (wire : Bytes) (limits : BundleLimits) (bundle : BundleV1 B) : Prop where
  valid : validateBundleLimits limits = .ok ()
  bytes : wire.length ≤ limits.maxCanonicalBytes
  parses : BundleV1.fromWire B wire = .ok bundle
  events : bundle.events.length ≤ limits.maxEvents
  refs : bundle.refs.length ≤ limits.maxRefs
  rendered : ∃ rendered, bundle.toWire = .ok rendered ∧
    rendered.length ≤ limits.maxCanonicalBytes

/-- The import of accepted bytes is the import of their bundle. -/
theorem Accepts.importBundle_eq {wire : Bytes} {limits : BundleLimits} {bundle : BundleV1 B}
    (h : Accepts B wire limits bundle) (peer : PeerName) (t : Tables) :
    importBundle B peer wire limits t = importBundleValue peer bundle t := by
  obtain ⟨rendered, hrendered, hlength⟩ := h.rendered
  rw [importBundle, h.valid, ok_bind, ensure_true h.bytes, ok_bind, h.parses, ok_bind,
    ensure_true ⟨h.events, h.refs⟩, ok_bind, hrendered, ok_bind, ensure_true hlength, ok_bind]

/-- The events of accepted bytes are stored events of the context. -/
theorem Accepts.exists_stored {wire : Bytes} {limits : BundleLimits} {bundle : BundleV1 B}
    (h : Accepts B wire limits bundle) : ∃ es : List (StoredEvent B),
      bundle.events = es.map StoredEvent.event ∧ ∀ e ∈ es, e.context = bundle.context := by
  obtain ⟨es, hes⟩ := Store.exists_stored (BundleV1.fromWire_authentic h.parses)
  exact ⟨es, hes, fun e he ↦ bundle.event_context e.event (hes ▸ List.mem_map_of_mem he)⟩

namespace Ledger

variable {L : Ledger B}

/-- The statuses of events that are admitted in order. -/
def statuses : Ledger B → List (StoredEvent B) → List AdmissionStatus
  | _, [] => []
  | L, e :: rest => (if L.find e.id = none then .inserted else .alreadyPresent) ::
      (L.admitted e).statuses rest

/-- Admitting an event without moving a ref. -/
theorem admitEvent_none_eq_ok (h : L.WellFormed) {e : StoredEvent B} {t : Tables}
    {status : AdmissionStatus} : admitEvent B e.event .none L.tables = .ok (t, status) ↔
      L.Admits e ∧ t = (L.admitted e).tables ∧
        status = if L.find e.id = none then .inserted else .alreadyPresent := by
  rw [admit_eq_ok h]
  constructor
  · rintro ⟨f, hrender, -, hadmits, L', applied, hswaps, rfl, rfl⟩
    rw [e.authentic.renders, Except.ok.injEq] at hrender
    obtain rfl := StoredEvent.ext_wire hrender
    cases hswaps
    exact ⟨hadmits, rfl, rfl⟩
  · rintro ⟨hadmits, rfl, rfl⟩
    exact ⟨e, e.authentic.renders, trivial, hadmits, _, false, .none, rfl, rfl⟩

theorem admitEach_eq_ok (h : L.WellFormed) {es : List (StoredEvent B)} {t : Tables}
    {found : List AdmissionStatus} :
    admitEach B (es.map StoredEvent.event) L.tables = .ok (t, found) ↔
      L.AdmitsAll es ∧ t = (L.admitAll es).tables ∧ found = L.statuses es := by
  induction es generalizing L t found with
  | nil =>
    rw [List.map_nil, admitEach, Except.ok.injEq, Prod.mk.injEq]
    simp [AdmitsAll, admitAll, statuses, eq_comm]
  | cons e rest ih =>
    rw [List.map_cons, admitEach, bind_eq_ok]
    constructor
    · rintro ⟨⟨admitted, status⟩, hadmit, hok⟩
      obtain ⟨hadmits, rfl, rfl⟩ := (admitEvent_none_eq_ok h).mp hadmit
      obtain ⟨⟨final, others⟩, hrest, hok⟩ := bind_eq_ok.mp hok
      obtain ⟨hall, rfl, rfl⟩ := (ih (h.admitted hadmits)).mp hrest
      rw [Except.ok.injEq, Prod.mk.injEq] at hok
      exact ⟨⟨hadmits, hall⟩, hok.1.symm, hok.2.symm⟩
    · rintro ⟨⟨hadmits, hall⟩, rfl, rfl⟩
      refine ⟨_, (admitEvent_none_eq_ok h).mpr ⟨hadmits, rfl, rfl⟩, ?_⟩
      dsimp only
      rw [(ih (h.admitted hadmits)).mpr ⟨hall, rfl, rfl⟩, ok_bind]
      rfl

theorem count_statuses (L : Ledger B) (es : List (StoredEvent B)) :
    (L.statuses es).count .inserted = L.newCount es ∧
      (L.statuses es).count .alreadyPresent = es.length - L.newCount es := by
  induction es generalizing L with
  | nil => exact ⟨rfl, rfl⟩
  | cons e rest ih =>
    obtain ⟨hinserted, hpresent⟩ := ih (L.admitted e)
    have hle := (L.admitted e).newCount_le rest
    rw [statuses, newCount, List.count_cons, List.count_cons, hinserted, hpresent,
      List.length_cons]
    by_cases hfresh : L.find e.id = none
    · rw [if_pos hfresh, if_pos hfresh]
      simp only [beq_self_eq_true, if_true]
      rw [if_neg (by decide)]
      omega
    · rw [if_neg hfresh, if_neg hfresh]
      simp only [beq_self_eq_true, if_true]
      rw [if_neg (by decide)]
      omega

/-- Admitting an event stores it, and nothing else. -/
theorem mem_events_admitted (h : L.WellFormed) {e f : StoredEvent B} (hadmits : L.Admits e) :
    f ∈ (L.admitted e).events ↔ f ∈ L.events ∨ f = e := by
  refine ⟨fun hf ↦ ?_, ?_⟩
  · unfold admitted at hf
    split_ifs at hf
    · exact (List.mem_append.mp hf).imp_right List.mem_singleton.mp
    · exact Or.inl hf
  · rintro (hf | rfl)
    · unfold admitted
      split_ifs
      · exact List.mem_append_left _ hf
      · exact hf
    · exact mem_admitted h hadmits

/-- Admitting events in order stores them, and nothing else. -/
theorem mem_events_admitAll (h : L.WellFormed) {es : List (StoredEvent B)} (hall : L.AdmitsAll es)
    {f : StoredEvent B} : f ∈ (L.admitAll es).events ↔ f ∈ L.events ∨ f ∈ es := by
  induction es generalizing L with
  | nil => simp [admitAll]
  | cons e rest ih =>
    rw [List.mem_cons, ← or_assoc, ← mem_events_admitted h hall.1]
    exact ih (h.admitted hall.1) hall.2

/-! ### The refs of a bundle -/

theorem WellKeyed.remoteHead_tracked (h : L.WellKeyed) {peer peer' : PeerName}
    {context context' : ContextId} {item : AdvertisedRef} {name : LocalRefName} :
    (L.tracked peer context item).remoteHead peer' context' name =
      if (peer, context, item.name) = (peer', context', name) then some item.head
      else L.remoteHead peer' context' name := by
  unfold tracked
  by_cases hcurrent : L.remoteHead peer context item.name = some item.head
  · rw [if_pos hcurrent]
    by_cases hkey : (peer, context, item.name) = (peer', context', name)
    · rw [if_pos hkey]
      simp only [Prod.mk.injEq] at hkey
      obtain ⟨rfl, rfl, rfl⟩ := hkey
      exact hcurrent
    · rw [if_neg hkey]
  · rw [if_neg hcurrent, h.remoteHead_setRemote]

/-- Setting refs of distinct names sets each of them and leaves every other ref. -/
theorem WellFormed.remoteHead_trackAll (h : L.WellFormed) (peer : PeerName) {context : ContextId}
    {refs : List AdvertisedRef} (hheld : ∀ item ∈ refs, L.Holds context item.head)
    (hcanonical : Canonical refKey refs) :
    (∀ item ∈ refs, (L.trackAll peer context refs).remoteHead peer context item.name =
      some item.head) ∧
    ∀ peer' context' name, ¬ (peer' = peer ∧ context' = context ∧
      ∃ item ∈ refs, item.name = name) →
        (L.trackAll peer context refs).remoteHead peer' context' name =
          L.remoteHead peer' context' name := by
  induction refs generalizing L with
  | nil => exact ⟨fun item hitem ↦ (List.not_mem_nil hitem).elim, fun _ _ _ _ ↦ rfl⟩
  | cons item rest ih =>
    obtain ⟨hitem, hrest⟩ := List.forall_mem_cons.mp hheld
    rw [canonical_iff_pairwise, List.pairwise_cons] at hcanonical
    obtain ⟨hfirst, hcanonical⟩ := hcanonical
    have hafter : (L.tracked peer context item).WellFormed := h.tracked hitem
    obtain ⟨hset, hother⟩ := ih hafter (fun other hmem ↦ by
      rw [Holds, tracked_events]
      exact hrest other hmem) (canonical_iff_pairwise.mpr hcanonical)
    change (∀ other ∈ item :: rest, ((L.tracked peer context item).trackAll peer context
      rest).remoteHead peer context other.name = some other.head) ∧ ∀ peer' context' name, _ →
        ((L.tracked peer context item).trackAll peer context rest).remoteHead peer' context' name =
          L.remoteHead peer' context' name
    refine ⟨List.forall_mem_cons.mpr ⟨?_, hset⟩, fun peer' context' name hnot ↦ ?_⟩
    · rw [hother peer context item.name, h.remoteHead_tracked, if_pos rfl]
      rintro ⟨-, -, other, hmem, hname⟩
      have hlt := hfirst other hmem
      rw [refKey, refKey, hname] at hlt
      exact lt_irrefl _ hlt
    · rw [hother peer' context' name, h.remoteHead_tracked, if_neg]
      · intro hkey
        simp only [Prod.mk.injEq] at hkey
        exact hnot ⟨hkey.1.symm, hkey.2.1.symm, item, List.mem_cons_self, hkey.2.2⟩
      · rintro ⟨hpeer, hcontext, other, hmem, hname⟩
        exact hnot ⟨hpeer, hcontext, other, List.mem_cons_of_mem _ hmem, hname⟩

/-- Setting remote refs changes nothing else. -/
theorem trackAll_frame (peer : PeerName) (context : ContextId) (refs : List AdvertisedRef) :
    (L.trackAll peer context refs).registrations = L.registrations ∧
      (L.trackAll peer context refs).authors = L.authors ∧
      (L.trackAll peer context refs).events = L.events ∧
      (L.trackAll peer context refs).localRefs = L.localRefs := by
  induction refs generalizing L with
  | nil => exact ⟨rfl, rfl, rfl, rfl⟩
  | cons item rest ih =>
    have hsame : (L.tracked peer context item).registrations = L.registrations ∧
        (L.tracked peer context item).authors = L.authors ∧
        (L.tracked peer context item).events = L.events ∧
        (L.tracked peer context item).localRefs = L.localRefs := by
      unfold tracked
      split_ifs <;> exact ⟨rfl, rfl, rfl, rfl⟩
    obtain ⟨hregistrations, hauthors, hevents, hlocal⟩ := hsame
    rw [← hregistrations, ← hauthors, ← hevents, ← hlocal]
    exact ih

/-- Admitting events touches no ref. -/
theorem admitAll_refs (es : List (StoredEvent B)) :
    (L.admitAll es).authors = L.authors ∧ (L.admitAll es).localRefs = L.localRefs ∧
      (L.admitAll es).remoteRefs = L.remoteRefs := by
  induction es generalizing L with
  | nil => exact ⟨rfl, rfl, rfl⟩
  | cons e rest ih =>
    rw [← L.admitted_authors e, ← L.admitted_localRefs e, ← L.admitted_remoteRefs e]
    exact ih

end Ledger

/-- Importing a bundle refines admitting its events one at a time, as far as it succeeds, as to what
it stores and counts, and as to the refs it sets; and it is all or nothing. -/
theorem importBundle_refines (B : Boundary) (t : Tables) (hreachable : Reachable B t)
    (peer : PeerName) (wire : Bytes) (limits : BundleLimits) (bundle : BundleV1 B)
    (haccepted : Accepts B wire limits bundle)
    (hprovisioned : ∃ row, contextRow t bundle.context = .ok (some row)) :
    ((∃ out, importBundle B peer wire limits t = .ok out) ↔
      ∃ after found, admitEach B bundle.events t = .ok (after, found) ∧
        ∀ item ∈ bundle.refs, after.Holds B bundle.context item.head) ∧
    (∀ out report, importBundle B peer wire limits t = .ok (out, report) →
      ∃ after found, admitEach B bundle.events t = .ok (after, found) ∧
        out.events = after.events ∧ out.parentEdges = after.parentEdges ∧
        out.contexts = after.contexts ∧ out.authorizedAuthors = after.authorizedAuthors ∧
        out.localRefs = t.localRefs ∧
        report.inserted = found.count .inserted ∧
        report.alreadyPresent = found.count .alreadyPresent ∧
        (∀ item ∈ bundle.refs,
          remoteRefId out peer bundle.context item.name = .ok (some item.head)) ∧
        ∀ peer' context' name, ¬ (peer' = peer ∧ context' = bundle.context ∧
          ∃ item ∈ bundle.refs, item.name = name) →
            remoteRefId out peer' context' name = remoteRefId t peer' context' name) ∧
    (∀ error, importBundle B peer wire limits t = .error error → ∀ fault,
      ((Operation.importBundle peer wire limits).execute B fault t).1 = t) := by
  obtain ⟨L, h, rfl⟩ := Ledger.exists_of_reachable hreachable
  obtain ⟨es, hes, hcontext⟩ := haccepted.exists_stored
  have hregistered : L.registration bundle.context ≠ none := by
    obtain ⟨row, hrow⟩ := hprovisioned
    rw [Ledger.contextRow_tables h.toWellKeyed, Except.ok.injEq] at hrow
    intro hnone
    rw [hnone] at hrow
    cases hrow
  have himport {out : Tables} {report : ImportReport} :
      importBundle B peer wire limits L.tables = .ok (out, report) ↔ _ :=
    haccepted.importBundle_eq peer L.tables ▸ Ledger.importBundleValue_eq_ok h hes hcontext
  refine ⟨⟨?_, ?_⟩, ?_, ?_⟩
  · rintro ⟨⟨out, report⟩, hok⟩
    obtain ⟨-, hall, hheld, -, -⟩ := himport.mp hok
    refine ⟨_, _, hes ▸ (Ledger.admitEach_eq_ok h).mpr ⟨hall, rfl, rfl⟩, fun item hitem ↦ ?_⟩
    exact Ledger.holds_tables.mpr (hheld item hitem)
  · rintro ⟨after, found, hadmit, hheld⟩
    obtain ⟨hall, rfl, -⟩ := (Ledger.admitEach_eq_ok h).mp (hes ▸ hadmit)
    exact ⟨_, himport.mpr ⟨hregistered, hall, fun item hitem ↦
      Ledger.holds_tables.mp (hheld item hitem), rfl, rfl⟩⟩
  · intro out report hok
    obtain ⟨-, hall, hheld, rfl, rfl⟩ := himport.mp hok
    have hafter := h.admitAll hall
    obtain ⟨hregistrations, hauthors, hevents, hlocal⟩ :=
      Ledger.trackAll_frame (L := L.admitAll es) peer bundle.context bundle.refs
    obtain ⟨-, hlocal', hremote⟩ := Ledger.admitAll_refs (L := L) es
    obtain ⟨hset, hother⟩ := hafter.remoteHead_trackAll peer hheld bundle.refs_canonical
    have hkeyed := ((Ledger.Steps.trackAll hafter peer hheld).wellFormed hafter).toWellKeyed
    obtain ⟨hinserted, hpresent⟩ := L.count_statuses es
    refine ⟨_, _, hes ▸ (Ledger.admitEach_eq_ok h).mpr ⟨hall, rfl, rfl⟩, ?_, ?_, ?_, ?_, ?_,
      hinserted.symm, hpresent.symm, fun item hitem ↦ ?_, fun peer' context' name hnot ↦ ?_⟩
    · rw [Ledger.tables, Ledger.tables, hevents]
    · rw [Ledger.tables, Ledger.tables, hevents]
    · rw [Ledger.tables, Ledger.tables, hregistrations]
    · rw [Ledger.tables, Ledger.tables, hauthors]
    · rw [Ledger.tables, Ledger.tables, hlocal, hlocal']
    · rw [Ledger.remoteRefId_tables hkeyed, hset item hitem]
    · rw [Ledger.remoteRefId_tables hkeyed, hother peer' context' name hnot,
        Ledger.remoteRefId_tables h.toWellKeyed, Ledger.remoteHead, hremote, Ledger.remoteHead]
  · intro error herror fault
    exact (transact_error herror fault).1

section Golden

open Reference

/-- Every unmarked bundle is accepted from its own wire within the default limits. -/
theorem BundleV1.accepts {bundle : BundleV1 B} (hunmarked : bundle.Unmarked)
    (hsettled : ∀ event ∈ bundle.events, event.settle B = event) {wire : Bytes}
    (h : bundle.toWire = .ok wire) : Accepts B wire .default bundle where
  valid := rfl
  bytes := (BundleV1.toWire_eq_ok.mp h).2.1
  parses := BundleV1.fromWire_of_settled hunmarked hsettled h
  events := (checkParts_eq_ok.mp bundle.parts).1.1
  refs := (checkParts_eq_ok.mp bundle.parts).1.2
  rendered := ⟨wire, h, (BundleV1.toWire_eq_ok.mp h).2.1⟩

theorem goldenBundle_settled : ∀ event ∈ goldenBundle.events, event.settle Golden.B = event := by
  intro event hevent
  simp only [goldenBundle, List.mem_cons, List.not_mem_nil, or_false] at hevent
  rcases hevent with rfl | rfl
  · exact Golden.first.settle_event
  · exact Golden.second.settle_event

theorem goldenBundle_admits : Golden.provisioned.AdmitsAll [Golden.first, Golden.second] := by
  have hrooted : Golden.provisioned.admitted Golden.first = Golden.rooted :=
    if_pos (Ledger.find_eq_none.mpr fun e he ↦ absurd he List.not_mem_nil)
  refine ⟨Golden.first_admits, ?_, trivial⟩
  rw [hrooted]
  exact Golden.second_admits Golden.rooted rfl rfl rfl

theorem importBundle_refines_provisioned : ∃ wire out,
    importBundle Golden.B Golden.peer wire .default Golden.provisioned.tables = .ok out := by
  obtain ⟨wire, hwire⟩ := goldenBundle_wire
  have hrefines := importBundle_refines Golden.B Golden.provisioned.tables provisioned_reachable
    Golden.peer wire .default goldenBundle
    (BundleV1.accepts goldenBundle_unmarked goldenBundle_settled hwire)
    ⟨_, Ledger.contextRow_tables Golden.provisioned_wellFormed.toWellKeyed _⟩
  have hevents : goldenBundle.events = [Golden.first, Golden.second].map StoredEvent.event := rfl
  have hadmit := (Ledger.admitEach_eq_ok Golden.provisioned_wellFormed).mpr
    ⟨goldenBundle_admits, rfl, rfl⟩
  rw [← hevents] at hadmit
  refine ⟨wire, hrefines.1.mpr ⟨_, _, hadmit, fun item hitem ↦ Ledger.holds_tables.mpr ?_⟩⟩
  obtain rfl : item = ⟨.local, Golden.main, Golden.second.id⟩ := List.mem_singleton.mp hitem
  refine ⟨Golden.second, (Ledger.mem_events_admitAll Golden.provisioned_wellFormed
    goldenBundle_admits).mpr (Or.inr ?_), rfl, rfl⟩
  exact List.mem_cons_of_mem _ List.mem_cons_self

end Golden

end ContextMesh.Store
