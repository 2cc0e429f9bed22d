import ContextMesh.Codec.Sizes
import ContextMesh.Ledger.Paging
import Mathlib.Data.List.Permutation

/-!
One page of an export. What the server answers to a page request is a slice of the plan of the
request, with the cursor of the next slice; and it answers whenever the plan exists, the cursor is
one of the plan, and the events at the offset fit the bounds.
-/

set_option autoImplicit false
set_option relaxedAutoImplicit false

namespace ContextMesh.Sync

open Checked Ordered Contract Store Paging

variable {B : Boundary}

/-! ### Cursors -/

theorem writeCursor_eq_some {fingerprint : Fixed 32} {next : Option ℕ} {cursor : String}
    (h : writeCursor B fingerprint next = .ok (some cursor)) :
    ∃ offset, next = some offset ∧ encodeCursor B offset fingerprint = .ok cursor := by
  cases next with
  | none => cases h
  | some offset =>
    obtain ⟨text, htext, h⟩ := bind_eq_ok.mp h
    rw [Except.ok.injEq, Option.some.injEq] at h
    exact ⟨offset, rfl, h ▸ htext⟩

theorem writeCursor_eq_none {fingerprint : Fixed 32} {next : Option ℕ}
    (h : writeCursor B fingerprint next = .ok none) : next = none := by
  cases next with
  | none => rfl
  | some offset =>
    obtain ⟨text, -, h⟩ := bind_eq_ok.mp h
    cases h

theorem readCursor_encodeCursor {offset : ℕ} {fingerprint : Fixed 32} {cursor : String}
    (h : encodeCursor B offset fingerprint = .ok cursor) :
    readCursor B (some cursor) = .ok (offset, some fingerprint) := by
  rw [readCursor, decodeCursor_encodeCursor h, ok_bind]

/-! ### What the server answers -/

variable (B) in
/-- The page that the server cuts off a plan at an offset has so many events. -/
def PageAt (context : ContextId) (limits : PullLimits) (plan : List SignedEventV1)
    (offset count : ℕ) : Prop :=
  ∃ bundle, searchPage B context (plan.drop offset) limits.maxBundleBytes 1
    (min (plan.drop offset).length limits.maxEvents) none = .ok (some (count, bundle))

theorem PageAt.unique {context : ContextId} {limits : PullLimits} {plan : List SignedEventV1}
    {offset count count' : ℕ} (h : PageAt B context limits plan offset count)
    (h' : PageAt B context limits plan offset count') : count = count' := by
  obtain ⟨bundle, hbundle⟩ := h
  obtain ⟨bundle', hbundle'⟩ := h'
  rw [hbundle, Except.ok.injEq, Option.some.injEq, Prod.mk.injEq] at hbundle'
  exact hbundle'.1

theorem PageAt.fits {context : ContextId} {limits : PullLimits} {plan : List SignedEventV1}
    {offset count : ℕ} (h : PageAt B context limits plan offset count) :
    1 ≤ count ∧ offset + count ≤ plan.length := by
  obtain ⟨bundle, hbundle⟩ := h
  have hfits := searchPage_fits le_rfl le_rfl (fun found hfound ↦ absurd hfound
    (Option.not_mem_none found)) hbundle
  have hpositive := hfits.positive
  have hbounded := hfits.bounded
  rw [List.length_drop] at hbounded
  dsimp only at hpositive hbounded
  omega

/-- An answered page of a plan is the page at its offset. -/
theorem exportSyncPage_pageAt {L : Ledger B} (h : L.WellFormed) {context : ContextId}
    {requested known : List EventId} (hrequested : Canonical (EventId.text B) requested)
    (hknown : Canonical (EventId.text B) known) {offset : ℕ} {limits : PullLimits}
    {page : SyncExportPage B} (hok : exportSyncPage B L.tables context requested known offset
      limits.maxEvents limits.maxBundleBytes = .ok page) {plan : List SignedEventV1}
    (hplan : planOn B L.tables context requested (L.heldHeads context known) = .ok plan)
    (hsome : plan ≠ []) :
    PageAt B context limits plan offset page.bundle.events.length := by
  obtain ⟨-, hok⟩ := unit_bind_eq_ok.mp hok
  obtain ⟨normal, hnormal, hok⟩ := bind_eq_ok.mp hok
  obtain ⟨-, hnormal⟩ := unit_bind_eq_ok.mp hnormal
  rw [Except.ok.injEq, normalize_eq_self hrequested] at hnormal
  subst hnormal
  obtain ⟨-, hok⟩ := unit_bind_eq_ok.mp hok
  obtain ⟨-, hok⟩ := unit_bind_eq_ok.mp hok
  rw [Ledger.effectiveKnown_tables h.toWellKeyed, ok_bind, normalize_eq_self hknown, hplan,
    ok_bind] at hok
  obtain ⟨-, hok⟩ := unit_bind_eq_ok.mp hok
  rw [if_neg hsome] at hok
  obtain ⟨best, hbest, hok⟩ := bind_eq_ok.mp hok
  obtain ⟨⟨count, bundle⟩, hfound, hok⟩ := bind_eq_ok.mp hok
  rw [required_eq_ok] at hfound
  rw [hfound] at hbest
  have hfits := searchPage_fits le_rfl le_rfl (fun found hfound ↦ absurd hfound
    (Option.not_mem_none found)) hbest
  obtain ⟨-, hevents, -⟩ := BundleV1.fromParts_eq_ok.mp hfits.parts
  have hcount : bundle.events.length = count := by
    have hbounded := hfits.bounded
    dsimp only at hevents hbounded
    rw [hevents, List.length_take]
    omega
  rw [Except.ok.injEq] at hok
  subst hok
  dsimp only
  rw [hcount]
  exact ⟨bundle, hbest⟩

/-- The response is the page of a plan at an offset, for the known heads that the ledger holds. -/
structure PageOf (L : Ledger B) (request : ExportRequest) (offset count : ℕ)
    (supplied : Option (Fixed 32)) (plan : List SignedEventV1) (fingerprint : Fixed 32)
    (response : ExportResponse B) : Prop where
  reads : readCursor B request.cursor = .ok (offset, supplied)
  active : ∃ r, L.registration request.context = some r ∧ r.active = true
  planned : planOn B L.tables request.context request.requestedHeads
    (L.heldHeads request.context request.knownHeads) = .ok plan
  pinned : planFingerprint B request.context request.requestedHeads
    (L.heldHeads request.context request.knownHeads) request.limits = .ok fingerprint
  agrees : ∀ value ∈ supplied, value = fingerprint
  within : offset + count ≤ plan.length
  bounded : count ≤ request.limits.maxEvents
  positive : plan = [] ∨ 1 ≤ count
  events : response.bundle.events = (plan.drop offset).take count
  nextCursor : writeCursor B fingerprint (position plan (offset + count)) =
    .ok response.nextCursor
  context : response.context = request.context
  heads : requestedHeadFingerprint B request.context request.requestedHeads =
    .ok response.requestedHeadFingerprint
  bundle : response.bundle.context = request.context ∧ response.bundle.refs = []
  complete : response.complete = response.nextCursor.isNone
  fits : plan = [] ∨ ∃ wire, response.bundle.toWire = .ok wire ∧
    wire.length ≤ request.limits.maxBundleBytes

/-- The heads of a request are canonical, so the server uses them as they are. -/
theorem ExportRequest.canonical_heads {body : Bytes} {request : ExportRequest}
    (h : ExportRequest.fromWire B body = .ok request) :
    (request.requestedHeads ≠ [] ∧ Canonical (EventId.text B) request.requestedHeads) ∧
      Canonical (EventId.text B) request.knownHeads := by
  obtain ⟨⟨hrequested, hknown, -⟩, -⟩ :=
    ExportRequest.new_eq_ok.mp (ExportRequest.fromWire_eq_ok h).2.1
  obtain ⟨hnonempty, hrequested⟩ := ensure_eq_ok.mp hrequested
  exact ⟨⟨fun hempty ↦ hnonempty ⟨rfl, hempty⟩, hrequested⟩, (ensure_eq_ok.mp hknown).2⟩

/-- The branches of a context as the server advertises them. -/
def advertised (L : Ledger B) (context : ContextId) : List AdvertisedRef :=
  (L.localRefsOf context).map fun item ↦ ⟨.local, item.name, item.head⟩

theorem mem_advertised {L : Ledger B} {context : ContextId} {item : AdvertisedRef} :
    item ∈ advertised L context ↔ (⟨context, item.name, item.head⟩ : LocalRef) ∈ L.localRefs := by
  rw [advertised, List.mem_map]
  constructor
  · rintro ⟨ref, href, rfl⟩
    obtain ⟨hmem, rfl⟩ := Ledger.mem_localRefsOf.mp href
    exact hmem
  · exact fun hmem ↦ ⟨_, Ledger.mem_localRefsOf.mpr ⟨hmem, rfl⟩, rfl⟩

theorem validateRefs_advertised {L : Ledger B} (h : L.WellFormed) {context : ContextId}
    (hlength : (L.localRefsOf context).length ≤ MAX_BUNDLE_REFS) :
    validateRefs (advertised L context) = .ok () := by
  refine ensure_true ⟨by rwa [advertised, List.length_map], ?_⟩
  have hpairwise := canonical_iff_pairwise.mp (Ledger.localRefsOf_canonical h.toWellKeyed context)
  exact canonical_iff_pairwise.mpr (List.pairwise_map.mpr hpairwise)

/-- What the server answers to a ref request reads back as the branches of the active context. -/
theorem getRefs_eq_ok {L : Ledger B} (h : L.WellFormed) {context : ContextId} {wire : Bytes}
    (hok : getRefs B L.tables context = .ok wire) :
    (∃ r, L.registration context = some r ∧ r.active = true) ∧
      (L.localRefsOf context).length ≤ MAX_BUNDLE_REFS ∧
      ∃ snapshot, RefSnapshot.fromWire B wire = .ok snapshot ∧ snapshot.context = context ∧
        snapshot.refs = advertised L context := by
  obtain ⟨refs, hrefs, hok⟩ := bind_eq_ok.mp hok
  obtain ⟨hactive, hrefs⟩ := unit_bind_eq_ok.mp (mapError_eq_ok.mp hrefs)
  rw [Ledger.listLocalRefs_tables h, ok_bind] at hrefs
  obtain ⟨hlength, hrefs⟩ := unit_bind_eq_ok.mp hrefs
  obtain rfl := Except.ok.inj hrefs
  obtain ⟨snapshot, hnew, hwire⟩ := bind_eq_ok.mp hok
  obtain ⟨-, hcontext, hsame⟩ := RefSnapshot.new_valid hnew
  exact ⟨(Ledger.requireActive_tables h.toWellKeyed).mp hactive, ensure_eq_ok.mp hlength, snapshot,
    RefSnapshot.fromWire_toWire hnew hwire, hcontext, hsame⟩

/-- The server answers a ref request about an active context with few enough branches. -/
theorem getRefs_succeeds {L : Ledger B} (h : L.WellFormed) {context : ContextId}
    (hactive : ∃ r, L.registration context = some r ∧ r.active = true)
    (hlength : (L.localRefsOf context).length ≤ MAX_BUNDLE_REFS) :
    ∃ wire, getRefs B L.tables context = .ok wire := by
  obtain ⟨snapshot, hnew⟩ := RefSnapshot.new_total (B := B) context
    (validateRefs_advertised h hlength)
  obtain ⟨wire, hwire⟩ := snapshot.toWire_total (B := B)
  refine ⟨wire, bind_eq_ok.mpr ⟨L.localRefsOf context, mapError_eq_ok.mpr ?_,
    bind_eq_ok.mpr ⟨snapshot, hnew, hwire⟩⟩⟩
  rw [syncLocalRefSnapshot, (Ledger.requireActive_tables h.toWellKeyed (u := ())).mpr hactive,
    ok_bind, Ledger.listLocalRefs_tables h, ok_bind, ensure_true hlength, ok_bind]

/-- The response to a request is the page of the plan at the offset. -/
theorem exportResponse_eq_ok {L : Ledger B} (h : L.WellFormed) {body : Bytes}
    {request : ExportRequest} (hbody : ExportRequest.fromWire B body = .ok request)
    {response : ExportResponse B} (hok : exportResponse B L.tables request = .ok response) :
    ∃ offset count supplied plan fingerprint,
      PageOf L request offset count supplied plan fingerprint response ∧
        (plan ≠ [] → PageAt B request.context request.limits plan offset
          response.bundle.events.length) := by
  obtain ⟨⟨offset, supplied⟩, hcursor, hok⟩ := bind_eq_ok.mp hok
  obtain ⟨page, hpage, hok⟩ := bind_eq_ok.mp hok
  obtain ⟨fingerprint, hfingerprint, hok⟩ := bind_eq_ok.mp hok
  obtain ⟨hsupplied, hok⟩ := unit_bind_eq_ok.mp hok
  obtain ⟨nextCursor, hnext, hnew⟩ := bind_eq_ok.mp hok
  obtain ⟨⟨-, hrequested⟩, hknown⟩ := ExportRequest.canonical_heads hbody
  obtain ⟨requested, plan, count, hnormal, hactive, heffective, hplan, hbundle, hwithin, hbounded,
    hpositive, hposition, hfits⟩ := Ledger.exportSyncPage_eq_ok h (mapError_eq_ok.mp hpage)
  obtain ⟨-, hnormal⟩ := unit_bind_eq_ok.mp hnormal
  rw [Except.ok.injEq, normalize_eq_self hrequested] at hnormal
  rw [normalize_eq_self hknown] at heffective
  subst hnormal
  rw [heffective] at hplan hfingerprint
  rw [hposition] at hnext
  obtain ⟨-, headsFingerprint, hheads, rfl⟩ := ExportResponse.new_valid hnew
  exact ⟨offset, count, supplied, plan, fingerprint, ⟨hcursor, hactive, hplan, hfingerprint,
    ensure_eq_ok.mp hsupplied, hwithin, hbounded, hpositive, hbundle.2.2, hnext, rfl, hheads,
    ⟨hbundle.1, hbundle.2.1⟩, rfl, hfits⟩,
    exportSyncPage_pageAt h hrequested hknown (mapError_eq_ok.mp hpage) hplan⟩

/-- What the server answers to a page request renders the response to the request. -/
theorem postExport_eq_ok {t : Tables} {limits : TransportLimits} {body wire : Bytes}
    {request : ExportRequest} (hbody : ExportRequest.fromWire B body = .ok request) :
    postExport B limits t body = .ok wire ↔ body.length ≤ limits.maxRequestBodyBytes ∧
      wire.length ≤ limits.maxResponseBodyBytes ∧
      ∃ response, exportResponse B t request = .ok response ∧ response.toWire = .ok wire := by
  rw [postExport, unit_bind_eq_ok, ensure_eq_ok, hbody, ok_bind]
  constructor
  · rintro ⟨hlength, hok⟩
    obtain ⟨response, hresponse, hok⟩ := bind_eq_ok.mp hok
    obtain ⟨rendered, hrendered, hok⟩ := bind_eq_ok.mp hok
    obtain ⟨hshort, hok⟩ := unit_bind_eq_ok.mp hok
    obtain rfl := Except.ok.inj hok
    exact ⟨hlength, ensure_eq_ok.mp hshort, response, hresponse, hrendered⟩
  · rintro ⟨hlength, hshort, response, hresponse, hwire⟩
    rw [hresponse, ok_bind, hwire, ok_bind, ensure_true hshort, ok_bind]
    exact ⟨hlength, rfl⟩

/-- Every event of a page is stored. -/
theorem PageOf.stored {L : Ledger B} (h : L.WellFormed) {request : ExportRequest}
    {offset count : ℕ} {supplied : Option (Fixed 32)} {plan : List SignedEventV1}
    {fingerprint : Fixed 32} {response : ExportResponse B}
    (hpage : PageOf L request offset count supplied plan fingerprint response) :
    ∀ event ∈ response.bundle.events, ∃ e ∈ L.events, e.event = event ∧
      L.Below request.requestedHeads e.id := by
  obtain ⟨-, -, es, hes, hdifference⟩ := Ledger.planOn_tables h hpage.planned
  intro event hevent
  rw [hpage.events, hes] at hevent
  obtain ⟨e, he, rfl⟩ := List.mem_map.mp (List.mem_of_mem_drop (List.mem_of_mem_take hevent))
  obtain ⟨hstored, hbelow, -⟩ := (hdifference.mem_stored h).mp he
  exact ⟨e, hstored, rfl, hbelow⟩

/-- A page of unmarked events reads back as it is. -/
theorem PageOf.fromWire {L : Ledger B} (h : L.WellFormed) {request : ExportRequest}
    {offset count : ℕ} {supplied : Option (Fixed 32)} {plan : List SignedEventV1}
    {fingerprint : Fixed 32} {response : ExportResponse B}
    (hpage : PageOf L request offset count supplied plan fingerprint response)
    (hunmarked : response.bundle.Unmarked) {wire : Bytes} (hwire : response.toWire = .ok wire) :
    ExportResponse.fromWire B wire = .ok response := by
  refine ExportResponse.fromWire_of_settled hunmarked (fun event hevent ↦ ?_)
    ⟨hpage.bundle.1.trans hpage.context.symm, hpage.bundle.2, hpage.complete⟩ hwire
  obtain ⟨e, -, rfl, -⟩ := hpage.stored h event hevent
  exact e.settle_event

/-- A position within the word has a cursor, and the end of a plan has none. -/
theorem writeCursor_total (fingerprint : Fixed 32) {next : Option ℕ}
    (hword : ∀ offset ∈ next, offset < 2 ^ 64) :
    ∃ cursor, writeCursor B fingerprint next = .ok cursor ∧ cursor.isNone = next.isNone ∧
      Rendered B cursor := by
  cases next with
  | none => exact ⟨none, rfl, rfl, fun text htext ↦ absurd htext (Option.not_mem_none text)⟩
  | some offset =>
    obtain ⟨text, hencode⟩ := encodeCursor_total (B := B) fingerprint (hword offset rfl)
    refine ⟨some text, by rw [writeCursor, hencode, ok_bind], rfl, fun value hvalue ↦ ?_⟩
    rw [← Option.mem_some_iff.mp hvalue]
    exact ⟨offset, fingerprint, hencode⟩

/-- The server answers a page request when the plan exists and its events are unmarked, the cursor
is one of the plan and has events left, the windows at the offset have wires, and the first event
there fits the byte bound. -/
theorem postExport_succeeds {L : Ledger B} (h : L.WellFormed) {limits : TransportLimits}
    {body : Bytes} {request : ExportRequest}
    (hbody : ExportRequest.fromWire B body = .ok request)
    (hbounds : body.length ≤ limits.maxRequestBodyBytes ∧
      limits.maxResponseBodyBytes = MAX_SYNC_RESPONSE_BODY_BYTES)
    {offset : ℕ} {supplied : Option (Fixed 32)}
    (hreads : readCursor B request.cursor = .ok (offset, supplied))
    (hactive : ∃ r, L.registration request.context = some r ∧ r.active = true)
    {plan : List SignedEventV1}
    (hplan : planOn B L.tables request.context request.requestedHeads
      (L.heldHeads request.context request.knownHeads) = .ok plan)
    (hunmarked : ∀ event ∈ plan, event.Unmarked B)
    (hoffset : offset < plan.length ∨ plan = [] ∧ offset = 0)
    (hwires : plan ≠ [] → ∀ bundle : BundleV1 B, ∀ count, 1 ≤ count →
      count ≤ request.limits.maxEvents → bundle.events = (plan.drop offset).take count →
      bundle.refs = [] →
        ∃ wire, bundle.toWire = .ok wire ∧
          (count = 1 → wire.length ≤ request.limits.maxBundleBytes))
    (hsupplied : ∀ value ∈ supplied, planFingerprint B request.context request.requestedHeads
      (L.heldHeads request.context request.knownHeads) request.limits = .ok value)
    (hflag : ∀ flag, canonicalLength B (.bool flag) ≤ 5) :
    ∃ wire, postExport B limits L.tables body = .ok wire := by
  obtain ⟨⟨hnonempty, hrequested⟩, hknown⟩ := ExportRequest.canonical_heads hbody
  obtain ⟨-, hnew, hpage⟩ := ExportRequest.fromWire_eq_ok hbody
  obtain ⟨⟨hheads, -, hcount, hknownCount⟩, -⟩ := ExportRequest.new_eq_ok.mp hnew
  obtain ⟨⟨hevents, hbytes, -⟩, -⟩ := PullLimits.new_eq_ok.mp hpage
  obtain ⟨page, hexport⟩ := Ledger.exportSyncPage_succeeds h
    ⟨hevents.1, hevents.2, hbytes.1, hbytes.2⟩ ⟨hnonempty, hcount⟩ hrequested
    ⟨hknownCount, hknown⟩ hactive hplan hoffset hwires
  obtain ⟨requested, plan', count, hnormal, -, heffective, hplan', hbundle, -, -, -, hnext,
    hfits⟩ := Ledger.exportSyncPage_eq_ok h hexport
  obtain ⟨-, hnormal⟩ := unit_bind_eq_ok.mp hnormal
  rw [Except.ok.injEq, normalize_eq_self hrequested] at hnormal
  rw [normalize_eq_self hknown] at heffective
  rw [← hnormal, heffective, hplan, Except.ok.injEq] at hplan'
  subst hplan'
  obtain ⟨bytes, hpinned⟩ := planFingerprint_total (B := B) request.context
    request.requestedHeads page.effectiveKnownHeads request.limits
  have hagrees : ∀ value ∈ supplied, value = bytes := by
    intro value hvalue
    have hsame := hsupplied value hvalue
    rw [← heffective, hpinned, Except.ok.injEq] at hsame
    exact hsame.symm
  -- The cursor of the next page is within the word, as a plan is short.
  have hword : ∀ next ∈ page.nextOffset, next < 2 ^ 64 := by
    intro next hleft
    rw [hnext] at hleft
    obtain ⟨hlt, rfl⟩ := position_eq_some.mp hleft
    have hlength := Ledger.planOn_length h hplan
    have hmax : MAX_PROJECTION_EVENTS < 2 ^ 64 := by decide
    omega
  obtain ⟨nextCursor, hcursor, -, hrendered⟩ := writeCursor_total (B := B) bytes hword
  obtain ⟨response, hresponse⟩ := ExportResponse.new_total hheads hbundle.2.1 nextCursor
  rw [hbundle.1] at hresponse
  obtain ⟨-, fingerprint, hfingerprint, hparts⟩ := ExportResponse.new_valid hresponse
  have hclear : page.bundle.Unmarked := fun event hevent ↦
    hunmarked event (List.mem_of_mem_drop (List.mem_of_mem_take (hbundle.2.2 ▸ hevent)))
  obtain ⟨bundleWire, hbundleWire⟩ : ∃ bundleWire, page.bundle.toWire = .ok bundleWire := by
    rcases hfits with hempty | ⟨bundleWire, hbundleWire, -⟩
    · refine page.bundle.toWire_of_short hclear.passes ?_
      rw [hbundle.2.2, hempty, List.drop_nil, List.take_nil]
      exact Nat.zero_le _
    · exact ⟨bundleWire, hbundleWire⟩
  have hsame : response.bundle = page.bundle := by rw [hparts]
  have hstable : response.bundle.Stable := hsame.symm ▸ hclear.stable
  obtain ⟨wire, hwire⟩ := ExportResponse.toWire_of_stable hstable (hsame.symm ▸ hbundleWire)
  refine ⟨wire, (postExport_eq_ok hbody).mpr ⟨hbounds.1, ?_, response, ?_, hwire⟩⟩
  · rw [hbounds.2]
    rw [hparts] at hwire hstable
    exact ExportResponse.length_toWire_le hstable hwire hfingerprint hrendered (hflag _)
  · rw [exportResponse, hreads, ok_bind]
    dsimp only
    rw [hexport, mapError_ok, ok_bind, hpinned, ok_bind, ensure_true hagrees, ok_bind, hcursor,
      ok_bind, hresponse]

/-- A server of few, unmarked events answers every request for heads it holds, when the page bound
in bytes is the maximum or nothing is left to send. -/
theorem postExport_of_few {L : Ledger B} (h : L.WellFormed) (hfew : L.events.length ≤ 7)
    (hunmarked : ∀ e ∈ L.events, e.event.Unmarked B)
    {limits : TransportLimits} {body : Bytes} {request : ExportRequest}
    (hbody : ExportRequest.fromWire B body = .ok request)
    (hbounds : body.length ≤ limits.maxRequestBodyBytes ∧
      limits.maxResponseBodyBytes = MAX_SYNC_RESPONSE_BODY_BYTES)
    (hbytes : request.limits.maxBundleBytes = MAX_BUNDLE_CANONICAL_BYTES ∨ planOn B L.tables
      request.context request.requestedHeads (L.heldHeads request.context request.knownHeads) =
        .ok [])
    (hactive : ∃ r, L.registration request.context = some r ∧ r.active = true)
    (hheld : ∀ head ∈ request.requestedHeads, L.Holds request.context head)
    {offset : ℕ} {supplied : Option (Fixed 32)}
    (hreads : readCursor B request.cursor = .ok (offset, supplied))
    (hoffset : ∀ plan, planOn B L.tables request.context request.requestedHeads
      (L.heldHeads request.context request.knownHeads) = .ok plan →
        offset < plan.length ∨ plan = [] ∧ offset = 0)
    (hsupplied : ∀ value ∈ supplied, planFingerprint B request.context request.requestedHeads
      (L.heldHeads request.context request.knownHeads) request.limits = .ok value)
    (hflag : ∀ flag, canonicalLength B (.bool flag) ≤ 5) :
    ∃ wire, postExport B limits L.tables body = .ok wire := by
  obtain ⟨⟨hnonempty, -⟩, -⟩ := ExportRequest.canonical_heads hbody
  obtain ⟨-, hnew, -⟩ := ExportRequest.fromWire_eq_ok hbody
  obtain ⟨⟨-, -, hcount, hknownCount⟩, -⟩ := ExportRequest.new_eq_ok.mp hnew
  have hrefs : MAX_BUNDLE_REFS ≤ MAX_BUNDLE_EVENTS := by decide
  have hheldKnown : (L.heldHeads request.context request.knownHeads).length ≤ MAX_BUNDLE_REFS :=
    (List.length_filter_le _ _).trans hknownCount
  obtain ⟨plan, hplan⟩ := Ledger.planOn_of_few h (hfew.trans (by decide)) hnonempty
    ⟨hcount.trans hrefs, hheldKnown.trans hrefs⟩ hheld fun head hhead ↦
      ((Ledger.mem_heldHeads h.toWellKeyed).mp hhead).2
  obtain ⟨-, -, es, hes, hdifference⟩ := Ledger.planOn_tables h hplan
  have hlength : plan.length ≤ 7 := by
    rw [hes, List.length_map]
    exact (List.subperm_of_subset (List.Nodup.of_map _ hdifference.nodup) fun e he ↦
      (hdifference.stored e he).1).length_le.trans hfew
  have hclear : ∀ event ∈ plan, event.Unmarked B := fun event hevent ↦ by
    rw [hes] at hevent
    obtain ⟨e, he, rfl⟩ := List.mem_map.mp hevent
    exact hunmarked e (hdifference.stored e he).1
  refine postExport_succeeds h hbody hbounds hreads hactive hplan hclear (hoffset plan hplan)
    (fun hsome bundle count _ _ hevents _ ↦ ?_) hsupplied hflag
  have hshort : bundle.events.length ≤ 7 := by
    rw [hevents]
    exact ((List.length_take_le' _ _).trans (List.length_drop ▸ Nat.sub_le _ _)).trans hlength
  have hpage : bundle.Unmarked := fun event hevent ↦
    hclear event (List.mem_of_mem_drop (List.mem_of_mem_take (hevents ▸ hevent)))
  obtain ⟨wire, hwire⟩ := bundle.toWire_of_short hpage.passes hshort
  refine ⟨wire, hwire, fun _ ↦ ?_⟩
  have hmax := hbytes.resolve_right fun hnone ↦ hsome (Except.ok.inj (hplan.symm.trans hnone))
  rw [hmax]
  exact (BundleV1.toWire_eq_ok.mp hwire).2.1

section Golden

open Reference

/-- A request for one head of the fixture, one event a page. -/
def goldenRequest (head : EventId) (cursor : Option String) : ExportRequest :=
  ⟨Golden.context, [head], [], cursor, ⟨1, MAX_BUNDLE_CANONICAL_BYTES, MAX_PULL_PAGES⟩⟩

/-- A request for one head with checked bounds reads back. -/
theorem oneHead_fromWire {head : EventId} {cursor : Option String} {maxEvents : ℕ}
    (hlimits : PullLimits.new maxEvents MAX_BUNDLE_CANONICAL_BYTES MAX_PULL_PAGES =
      .ok ⟨maxEvents, MAX_BUNDLE_CANONICAL_BYTES, MAX_PULL_PAGES⟩) {body : Bytes}
    (h : ExportRequest.toWire Golden.B ⟨Golden.context, [head], [], cursor,
      ⟨maxEvents, MAX_BUNDLE_CANONICAL_BYTES, MAX_PULL_PAGES⟩⟩ = .ok body) :
    ExportRequest.fromWire Golden.B body = .ok ⟨Golden.context, [head], [], cursor,
      ⟨maxEvents, MAX_BUNDLE_CANONICAL_BYTES, MAX_PULL_PAGES⟩⟩ := by
  have hheads : validateSortedHeads Golden.B [head] false = .ok () :=
    ensure_true ⟨fun hnil ↦ List.cons_ne_nil _ _ hnil.2, canonical_singleton _ _⟩
  have hknown : validateSortedHeads Golden.B [] true = .ok () :=
    ensure_true ⟨fun hnil ↦ Bool.noConfusion hnil.1, canonical_nil _⟩
  have hone : [head].length ≤ MAX_BUNDLE_REFS := (by decide : 1 ≤ MAX_BUNDLE_REFS)
  exact ExportRequest.fromWire_toWire hlimits
    (ExportRequest.new_eq_ok.mpr ⟨⟨hheads, hknown, hone, Nat.zero_le _⟩, rfl⟩) h

theorem goldenRequest_fromWire {head : EventId} {cursor : Option String} {body : Bytes}
    (h : (goldenRequest head cursor).toWire Golden.B = .ok body) :
    ExportRequest.fromWire Golden.B body = .ok (goldenRequest head cursor) :=
  oneHead_fromWire (PullLimits.new_eq_ok.mpr ⟨by decide, rfl⟩) h

/-- A store of few events answers a request for a head it holds with one event of the plan. -/
theorem goldenRequest_page {L : Ledger Golden.B} (h : L.WellFormed) (hfew : L.events.length ≤ 7)
    (hunmarked : ∀ e ∈ L.events, e.event.Unmarked Golden.B)
    (hactive : ∃ r, L.registration Golden.context = some r ∧ r.active = true) {head : EventId}
    (hheld : L.Holds Golden.context head) {plan : List SignedEventV1}
    (hplan : planOn Golden.B L.tables Golden.context [head] [] = .ok plan)
    {cursor : Option String} {offset : ℕ} {supplied : Option (Fixed 32)}
    (hreads : readCursor Golden.B cursor = .ok (offset, supplied)) (hoffset : offset < plan.length)
    (hsupplied : ∀ value ∈ supplied, planFingerprint Golden.B Golden.context [head] []
      (goldenRequest head cursor).limits = .ok value) {limits : TransportLimits} {body : Bytes}
    (hbody : (goldenRequest head cursor).toWire Golden.B = .ok body)
    (hbounds : body.length ≤ limits.maxRequestBodyBytes ∧
      limits.maxResponseBodyBytes = MAX_SYNC_RESPONSE_BODY_BYTES) :
    ∃ wire response fingerprint, postExport Golden.B limits L.tables body = .ok wire ∧
      exportResponse Golden.B L.tables (goldenRequest head cursor) = .ok response ∧
      PageOf L (goldenRequest head cursor) offset 1 supplied plan fingerprint response := by
  have hparsed := goldenRequest_fromWire hbody
  have hflag (flag : Bool) : canonicalLength Golden.B (.bool flag) ≤ 5 := by
    cases flag with
    | false => decide
    | true => decide
  obtain ⟨wire, hwire⟩ := postExport_of_few h hfew hunmarked hparsed hbounds (Or.inl rfl) hactive
    (fun other hother ↦ List.mem_singleton.mp hother ▸ hheld) hreads
    (fun other hother ↦ by
      obtain rfl : plan = other := Except.ok.inj (hplan.symm.trans hother)
      exact Or.inl hoffset) hsupplied hflag
  obtain ⟨-, -, response, hresponse, -⟩ := (postExport_eq_ok hparsed).mp hwire
  obtain ⟨offset', count, supplied', plan', fingerprint, hpage, -⟩ :=
    exportResponse_eq_ok h hparsed hresponse
  obtain ⟨rfl, rfl⟩ := Prod.mk.inj (Except.ok.inj (hreads.symm.trans hpage.reads))
  obtain rfl : plan = plan' := Except.ok.inj (hplan.symm.trans hpage.planned)
  obtain rfl : count = 1 := by
    have hmore := hpage.positive.resolve_left fun hempty ↦ by simp [hempty] at hoffset
    have hbounded : count ≤ 1 := hpage.bounded
    omega
  exact ⟨wire, response, fingerprint, hwire, hresponse, hpage⟩

/-- The plan for the branch head of the fixture is its two events. -/
theorem golden_plan {L : Ledger Golden.B} (h : L.WellFormed)
    (hevents : L.events = [Golden.first, Golden.second]) :
    planOn Golden.B L.tables Golden.context [Golden.second.id] [] =
      .ok [Golden.first.event, Golden.second.event] := by
  have hfew : L.events.length ≤ 32 := by
    rw [hevents]
    decide
  have hfirst : Golden.first ∈ L.events := hevents ▸ List.mem_cons_self
  have hsecond : Golden.second ∈ L.events :=
    hevents ▸ List.mem_cons_of_mem _ (List.mem_singleton_self _)
  have hheld : ∀ head ∈ [Golden.second.id], L.Holds Golden.context head := fun head hhead ↦
    ⟨Golden.second, hsecond, (List.mem_singleton.mp hhead).symm, rfl⟩
  obtain ⟨plan, hplan⟩ := Ledger.planOn_of_few h hfew (List.cons_ne_nil Golden.second.id [])
    ⟨(by decide : 1 ≤ MAX_BUNDLE_EVENTS), Nat.zero_le _⟩ hheld
    (fun head hhead ↦ absurd hhead List.not_mem_nil)
  obtain ⟨-, -, es, rfl, hdifference⟩ := Ledger.planOn_tables h hplan
  have hmem (e : StoredEvent Golden.B) : e ∈ es ↔ e = Golden.first ∨ e = Golden.second := by
    rw [hdifference.mem_stored h, hevents, List.mem_cons, List.mem_singleton]
    constructor
    · exact fun he ↦ he.1
    · rintro (rfl | rfl)
      · refine ⟨Or.inl rfl, ⟨Golden.second.id, List.mem_singleton_self _, ?_⟩, ?_⟩
        · exact .single ⟨Golden.second, hsecond, rfl, List.mem_singleton_self _⟩
        · rintro ⟨head, hhead, -⟩
          exact List.not_mem_nil hhead
      · refine ⟨Or.inr rfl, ⟨Golden.second.id, List.mem_singleton_self _, .refl⟩, ?_⟩
        rintro ⟨head, hhead, -⟩
        exact List.not_mem_nil hhead
  have hne : Golden.first ≠ Golden.second := fun heq ↦
    Golden.first_ne_second (congrArg StoredEvent.id heq)
  have hperm : es.Perm [Golden.first, Golden.second] := by
    refine (List.perm_ext_iff_of_nodup (List.Nodup.of_map _ hdifference.nodup) ?_).mpr fun e ↦ ?_
    · exact List.nodup_cons.mpr ⟨fun hin ↦ hne (List.mem_singleton.mp hin),
        List.nodup_singleton _⟩
    · rw [hmem, List.mem_cons, List.mem_singleton]
  rw [hplan]
  rcases List.perm_pair.mp hperm with rfl | rfl
  · rfl
  · -- The genesis comes first, as it is the parent of the request.
    rcases hdifference.parentsFirst [] _ _ rfl Golden.first.id (List.mem_singleton_self _) with
      hbefore | ⟨head, hhead, -⟩
    · exact absurd hbefore List.not_mem_nil
    · exact absurd hhead List.not_mem_nil

end Golden

end ContextMesh.Sync
