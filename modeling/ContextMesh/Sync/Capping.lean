import ContextMesh.Ledger.Cutting
import ContextMesh.Sync.Serving

/-!
The bound of the server on its responses. The store cuts a page by its events and the bytes of its
bundle; the handler wraps the page and measures the response only then. A page that is too long for
the response bound is an error, and no shorter page is tried.
-/

set_option autoImplicit false
set_option relaxedAutoImplicit false

namespace ContextMesh.Sync

open Checked Ordered Contract Store Bisection Paging

variable (B : Boundary)

/-- The response around a bundle, with the cursor of what follows it. -/
def wrapPage (request : ExportRequest) (fingerprint : Fixed 32) (next : Option ℕ)
    (bundle : BundleV1 B) : Except SyncError Bytes := do
  let nextCursor ← writeCursor B fingerprint next
  let response ← ExportResponse.new B request.context request.requestedHeads bundle nextCursor
  response.toWire

/-- The complete response around so many events of a plan at an offset. -/
def Responds (request : ExportRequest) (plan : List SignedEventV1) (fingerprint : Fixed 32)
    (offset count : ℕ) (wire : Bytes) : Prop :=
  ∃ bundle : BundleV1 B,
    BundleV1.fromParts B request.context ((plan.drop offset).take count) [] = .ok bundle ∧
      wrapPage B request fingerprint (position plan (offset + count)) bundle = .ok wire

/-- The counts of the nonempty pages at an offset that fit the bounds of the request, and whose
complete responses fit the bound of the server. -/
def ServableCounts (limits : TransportLimits) (request : ExportRequest)
    (plan : List SignedEventV1) (fingerprint : Fixed 32) (offset : ℕ) : Set ℕ :=
  {count | count ∈ PageCounts B request.context (plan.drop offset) request.limits.maxEvents
      request.limits.maxBundleBytes ∧
    ∃ wire, Responds B request plan fingerprint offset count wire ∧
      wire.length ≤ limits.maxResponseBodyBytes}

/-- An answer is the longest page within all the bounds, and it exceeds a limit only where not even
one event is within them. -/
structure ServesLongest (limits : TransportLimits) (request : ExportRequest)
    (plan : List SignedEventV1) (fingerprint : Fixed 32) (offset : ℕ)
    (outcome : Except SyncError Bytes) : Prop where
  longest : 1 ∈ ServableCounts B limits request plan fingerprint offset → ∃ wire count,
    outcome = .ok wire ∧ Responds B request plan fingerprint offset count wire ∧
      IsGreatest (ServableCounts B limits request plan fingerprint offset) count
  refused : ∀ error, outcome = .error error → syncStatus error = 413 →
    1 ∉ ServableCounts B limits request plan fingerprint offset

variable {B} {request : ExportRequest} {plan : List SignedEventV1} {fingerprint : Fixed 32}
  {offset : ℕ}

theorem Responds.unique {count : ℕ} {wire wire' : Bytes}
    (h : Responds B request plan fingerprint offset count wire)
    (h' : Responds B request plan fingerprint offset count wire') : wire = wire' := by
  obtain ⟨bundle, hparts, hwire⟩ := h
  obtain ⟨bundle', hparts', hwire'⟩ := h'
  obtain rfl : bundle = bundle' := Except.ok.inj (hparts.symm.trans hparts')
  exact Except.ok.inj (hwire.symm.trans hwire')

variable (B) in
/-- The bytes of a response around its bundle, at the end of the plan or before it. -/
def wrapBytes (last : Bool) : ℕ :=
  canonicalLength B (.bool last) + (if last then 4 else 64) +
    canonicalLength B (.num (.posInt SYNC_PROTOCOL_VERSION)) + 201

variable (fingerprint) in
/-- A start of the rest of a plan that encodes and is unmarked has a response, of the length of its
bundle and what is around it. -/
theorem responds_total {body : Bytes} (hbody : ExportRequest.fromWire B body = .ok request)
    {count : ℕ} (hword : offset + count < 2 ^ 64)
    (hencodes : Encodes B request.context ((plan.drop offset).take count)
      MAX_BUNDLE_CANONICAL_BYTES)
    (hunmarked : ∀ event ∈ (plan.drop offset).take count, event.Unmarked B) :
    ∃ wire, Responds B request plan fingerprint offset count wire ∧
      wire.length = bundleBytes B ((plan.drop offset).take count) +
        wrapBytes B (position plan (offset + count)).isNone := by
  obtain ⟨-, hnew, -⟩ := ExportRequest.fromWire_eq_ok hbody
  obtain ⟨⟨hheads, -⟩, -⟩ := ExportRequest.new_eq_ok.mp hnew
  obtain ⟨bundle, bytes, hparts, hbytes, -⟩ := hencodes
  obtain ⟨hcontext, hevents, hrefs⟩ := BundleV1.fromParts_eq_ok.mp hparts
  have hclear : bundle.Unmarked := fun event hevent ↦ hunmarked event (hevents ▸ hevent)
  -- the cursor of what follows, and how long it is
  have hnextWord : ∀ next ∈ position plan (offset + count), next < 2 ^ 64 := by
    intro next hnext
    obtain ⟨-, rfl⟩ := position_eq_some.mp hnext
    exact hword
  obtain ⟨nextCursor, hcursor, hflag, hwritten⟩ := writeCursor_total (B := B) fingerprint hnextWord
  have hcursorLength := length_cursorJson hwritten
  obtain ⟨response, hresponse⟩ := ExportResponse.new_total hheads hrefs nextCursor
  rw [hcontext] at hresponse
  obtain ⟨-, headsFingerprint, hheadsFingerprint, hfields⟩ := ExportResponse.new_valid hresponse
  have hstable : response.bundle.Stable := by
    rw [hfields]
    exact hclear.stable
  have hrendered : response.bundle.toWire = .ok bytes := by rwa [hfields]
  obtain ⟨wire, hwire⟩ := ExportResponse.toWire_of_stable hstable hrendered
  refine ⟨wire, ⟨bundle, hparts, ?_⟩, ?_⟩
  · rw [wrapPage, hcursor, ok_bind, hresponse, ok_bind, hwire]
  · have hbundle : canonicalLength B bundle.toJson =
        bundleBytes B ((plan.drop offset).take count) := by
      rw [← length_toWire hparts hbytes]
      exact (canonicalize_length (BundleV1.toWire_eq_ok.mp hbytes).1).symm
    rw [hfields] at hwire hstable
    rw [ExportResponse.length_toWire hstable hwire hheadsFingerprint]
    dsimp only
    rw [hbundle, hcursorLength, hflag, wrapBytes]
    omega

/-- A signed event takes at least the bytes of its signature. -/
theorem length_signature_le (event : SignedEventV1) :
    93 ≤ canonicalLength B (event.toJson B) := by
  have hsignature : canonicalLength B (.str (event.signature.text B)) = 93 := by
    rw [EventSignature.text, canonicalLength_fixedText _ (by decide)]
    decide
  rw [SignedEventV1.toJson, canonicalLength_obj (SignedEventV1.toJson_increasing _)]
  simp only [List.map_cons, List.map_nil, List.sum_cons, List.sum_nil, hsignature]
  omega

/-- A response of two events without a cursor is longer than one of the first event with one. -/
theorem wrapBytes_second (hflag : canonicalLength B (.bool false) ≤ 5)
    {first second : SignedEventV1} (hfirst : (first.reading B).isSome)
    (hread : (second.reading B).isSome) :
    bundleBytes B [first] + wrapBytes B false <
      bundleBytes B [first, second] + wrapBytes B true := by
  have hsecond : 93 ≤ canonicalLength B (second.passed B) := by
    obtain ⟨w, hw⟩ := Option.isSome_iff_exists.mp hread
    obtain ⟨-, -, -, bytes, payload, -, rfl⟩ := SignedEventV1.reading_facts hw
    rw [SignedEventV1.passed, hw, Option.getD_some]
    exact length_signature_le _
  have hone : ∀ event ∈ [first], (event.reading B).isSome := List.forall_mem_singleton.mpr hfirst
  rw [bundleBytes, bundleBytes, if_pos hone]
  simp only [List.map_cons, List.map_nil, canonicalLength_arr, List.sum_cons, List.sum_nil,
    List.length_cons, List.length_nil, wrapBytes, if_true, Bool.false_eq_true, if_false]
  omega

variable (fingerprint) in
/-- Under the largest bound of the server, every unmarked page of the bounds of the request is
served. -/
theorem servable_of_default {body : Bytes} (hbody : ExportRequest.fromWire B body = .ok request)
    (limits : TransportLimits)
    (hlimits : limits.maxResponseBodyBytes = MAX_SYNC_RESPONSE_BODY_BYTES)
    (hflag : ∀ flag, canonicalLength B (.bool flag) ≤ 5) {count : ℕ}
    (hword : offset + count < 2 ^ 64) (hunmarked : ∀ event ∈ plan, event.Unmarked B)
    (hcount : count ∈ PageCounts B request.context (plan.drop offset) request.limits.maxEvents
      request.limits.maxBundleBytes) :
    count ∈ ServableCounts B limits request plan fingerprint offset := by
  obtain ⟨⟨-, hbytes, -⟩, -⟩ := PullLimits.new_eq_ok.mp (ExportRequest.fromWire_eq_ok hbody).2.2
  obtain ⟨bundle, bytes, hparts, hwire, hfits⟩ := hcount.2.2.2
  have hencodes : Encodes B request.context ((plan.drop offset).take count)
      MAX_BUNDLE_CANONICAL_BYTES := ⟨bundle, bytes, hparts, hwire, hfits.trans hbytes.2⟩
  obtain ⟨wire, hresponds, hlength⟩ :=
    responds_total fingerprint hbody hword hencodes fun event hevent ↦
      hunmarked event (List.mem_of_mem_drop (List.mem_of_mem_take hevent))
  rw [encodes_iff hparts le_rfl] at hencodes
  refine ⟨hcount, wire, hresponds, ?_⟩
  have hmax : MAX_BUNDLE_CANONICAL_BYTES = 16777216 ∧ MAX_SYNC_RESPONSE_BODY_BYTES = 16842752 :=
    ⟨rfl, rfl⟩
  have hversion := length_version (B := B)
  have hlast := hflag (position plan (offset + count)).isNone
  rw [hlimits, hlength, hmax.2, wrapBytes]
  rw [hmax.1] at hencodes
  split_ifs <;> omega

/-- What a handler answers once its page is cut. -/
theorem postExport_cut {t : Tables} {limits : TransportLimits} {body : Bytes}
    (hbody : ExportRequest.fromWire B body = .ok request)
    (hlength : body.length ≤ limits.maxRequestBodyBytes)
    (hactive : requireActive t request.context = .ok ()) {supplied : Option (Fixed 32)}
    (hreads : readCursor B request.cursor = .ok (offset, supplied)) {effective : List EventId}
    (heffective : effectiveKnown B t request.context request.knownHeads = .ok effective)
    (hplan : planOn B t request.context request.requestedHeads effective = .ok plan)
    (hoffset : offset < plan.length)
    (hpinned : planFingerprint B request.context request.requestedHeads effective
      request.limits = .ok fingerprint)
    (hagrees : ∀ value ∈ supplied, value = fingerprint) {count : ℕ} {bundle : BundleV1 B}
    (hsearch : search (probePage B request.context (plan.drop offset)
      request.limits.maxBundleBytes) 1 (min (plan.drop offset).length request.limits.maxEvents)
        none = .ok (some (count, bundle))) :
    postExport B limits t body =
      (wrapPage B request fingerprint (position plan (offset + count)) bundle >>= fun wire ↦
        ensure (wire.length ≤ limits.maxResponseBodyBytes) .limitExceeded >>= fun _ ↦
          .ok wire) := by
  obtain ⟨⟨hnonempty, hrequested⟩, hknown⟩ := ExportRequest.canonical_heads hbody
  obtain ⟨-, hnew, hpage⟩ := ExportRequest.fromWire_eq_ok hbody
  obtain ⟨⟨-, -, hcount, hknownCount⟩, -⟩ := ExportRequest.new_eq_ok.mp hnew
  obtain ⟨⟨hevents, hbytes, -⟩, -⟩ := PullLimits.new_eq_ok.mp hpage
  have hnormal : normalizeHeads B request.requestedHeads = .ok request.requestedHeads := by
    rw [normalizeHeads, ensure_true ⟨hnonempty, hcount⟩, ok_bind, normalize_eq_self hrequested]
  rw [← normalize_eq_self hknown] at heffective
  have hexport := exportSyncPage_cut (B := B) ⟨hevents.1, hevents.2, hbytes.1, hbytes.2⟩ hactive
    hnormal hknownCount heffective hplan hoffset
  rw [searchPage_eq_search, hsearch, ok_bind, required_some, ok_bind] at hexport
  rw [postExport, ensure_true hlength, ok_bind, hbody, ok_bind, exportResponse, hreads, ok_bind]
  dsimp only
  rw [hexport, mapError_ok, ok_bind]
  dsimp only
  rw [hpinned, ok_bind, ensure_true hagrees, ok_bind, wrapPage]
  simp only [bind_assoc]

/-- Where every window of a plan encodes, so do all the probes of the search for a page. -/
theorem probesEncode_of_windows {L : Ledger B} (h : L.WellFormed) {context : ContextId}
    {requested effective : List EventId} {maxEvents maxBundleBytes : ℕ}
    (hevents : maxEvents ≤ MAX_BUNDLE_EVENTS)
    (hplan : planOn B L.tables context requested effective = .ok plan)
    (hwindow : Encodes B context ((plan.drop offset).take maxEvents) MAX_BUNDLE_CANONICAL_BYTES) :
    ProbesEncode B context (plan.drop offset) maxEvents maxBundleBytes := by
  rw [Ledger.encodes_plan h offset hevents le_rfl hplan] at hwindow
  intro step _
  have hreach : climb (min (plan.drop offset).length maxEvents) (step + 1) ≤ maxEvents :=
    (climb_le _ _).trans (min_le_right _ _)
  rw [Ledger.encodes_plan h offset (hreach.trans hevents) le_rfl hplan]
  exact (bundleBytes_take_le _ hreach).trans hwindow

/-- Where the first event is within the bounds of the request and the window encodes, the handler
wraps the longest page of the request, and measures the response. -/
theorem postExport_greatest {L : Ledger B} (h : L.WellFormed) (limits : TransportLimits)
    {body : Bytes} (hbody : ExportRequest.fromWire B body = .ok request)
    (hlength : body.length ≤ limits.maxRequestBodyBytes)
    (hactive : requireActive L.tables request.context = .ok ()) {supplied : Option (Fixed 32)}
    (hreads : readCursor B request.cursor = .ok (offset, supplied)) {effective : List EventId}
    (heffective : effectiveKnown B L.tables request.context request.knownHeads = .ok effective)
    (hplan : planOn B L.tables request.context request.requestedHeads effective = .ok plan)
    (hwindow : Encodes B request.context
      ((plan.drop offset).take request.limits.maxEvents) MAX_BUNDLE_CANONICAL_BYTES)
    (hpinned : planFingerprint B request.context request.requestedHeads effective
      request.limits = .ok fingerprint)
    (hagrees : ∀ value ∈ supplied, value = fingerprint)
    (hfirst : 1 ∈ PageCounts B request.context (plan.drop offset) request.limits.maxEvents
      request.limits.maxBundleBytes) :
    ∃ count bundle,
      IsGreatest (PageCounts B request.context (plan.drop offset) request.limits.maxEvents
        request.limits.maxBundleBytes) count ∧
      BundleV1.fromParts B request.context ((plan.drop offset).take count) [] = .ok bundle ∧
      postExport B limits L.tables body =
        (wrapPage B request fingerprint (position plan (offset + count)) bundle >>= fun wire ↦
          ensure (wire.length ≤ limits.maxResponseBodyBytes) .limitExceeded >>= fun _ ↦
            .ok wire) := by
  obtain ⟨-, hremaining, hevent, hencodes⟩ := hfirst
  obtain ⟨⟨hevents, hbytes, -⟩, -⟩ :=
    PullLimits.new_eq_ok.mp (ExportRequest.fromWire_eq_ok hbody).2.2
  have hpos : 1 ≤ min (plan.drop offset).length request.limits.maxEvents :=
    le_min hremaining hevent
  have hoffset : offset < plan.length := by
    rw [List.length_drop] at hremaining
    omega
  have hsized := Ledger.sized_plan h offset hevents.2 hbytes.2 hplan
  have htells (count bound : ℕ) (hcount : count ≤ request.limits.maxEvents)
      (hbound : bound ≤ MAX_BUNDLE_CANONICAL_BYTES) :
      Encodes B request.context ((plan.drop offset).take count) bound ↔
        bundleBytes B ((plan.drop offset).take count) ≤ bound :=
    Ledger.encodes_plan h offset (hcount.trans hevents.2) hbound hplan
  -- the window keeps the search from overshooting
  obtain ⟨found, hfound⟩ := (search_probesEncode hsized htells hpos none).mpr
    (probesEncode_of_windows h hevents.2 hplan hwindow)
  obtain ⟨count, bundle, rfl, hparts, -, hgreatest⟩ :=
    search_longest hsized htells hpos hencodes hfound
  exact ⟨count, bundle, hgreatest, hparts, postExport_cut hbody hlength hactive hreads heffective
    hplan hoffset hpinned hagrees hfound⟩

/-- The server answers with the longest page within all the bounds exactly when not even one event
is within them, or the longest page within the bounds of the request has a response within the bound
of the server. -/
theorem postExport_longest_iff (B : Boundary) (t : Tables) (hreachable : Reachable B t)
    (limits : TransportLimits) (body : Bytes) (request : ExportRequest)
    (hbody : ExportRequest.fromWire B body = .ok request)
    (hlength : body.length ≤ limits.maxRequestBodyBytes)
    (hactive : requireActive t request.context = .ok ()) (offset : ℕ)
    (supplied : Option (Fixed 32)) (hreads : readCursor B request.cursor = .ok (offset, supplied))
    (effective : List EventId)
    (heffective : effectiveKnown B t request.context request.knownHeads = .ok effective)
    (plan : List SignedEventV1)
    (hplan : planOn B t request.context request.requestedHeads effective = .ok plan)
    (hwindows : ∀ start, Encodes B request.context
      ((plan.drop start).take request.limits.maxEvents) MAX_BUNDLE_CANONICAL_BYTES)
    (fingerprint : Fixed 32)
    (hpinned : planFingerprint B request.context request.requestedHeads effective
      request.limits = .ok fingerprint)
    (hagrees : ∀ value ∈ supplied, value = fingerprint) :
    ServesLongest B limits request plan fingerprint offset (postExport B limits t body) ↔
      1 ∉ ServableCounts B limits request plan fingerprint offset ∨
        ∀ count, IsGreatest (PageCounts B request.context (plan.drop offset)
          request.limits.maxEvents request.limits.maxBundleBytes) count →
            count ∈ ServableCounts B limits request plan fingerprint offset := by
  by_cases hfirst : 1 ∈ ServableCounts B limits request plan fingerprint offset
  · rw [or_iff_right (not_not.mpr hfirst)]
    obtain ⟨L, hwell, rfl⟩ := Ledger.exists_of_reachable hreachable
    obtain ⟨count, bundle, hgreatest, hparts, hanswer⟩ := postExport_greatest hwell limits hbody
      hlength hactive hreads heffective hplan (hwindows offset) hpinned hagrees hfirst.1
    constructor
    · intro hserves other hother
      obtain rfl : other = count := hother.unique hgreatest
      obtain ⟨wire, served, hwire, -⟩ := hserves.longest hfirst
      rw [hanswer] at hwire
      obtain ⟨wrapped, hwrapped, hwire⟩ := bind_eq_ok.mp hwire
      obtain ⟨hcap, -⟩ := unit_bind_eq_ok.mp hwire
      exact ⟨hgreatest.1, wrapped, ⟨bundle, hparts, hwrapped⟩, ensure_eq_ok.mp hcap⟩
    · intro hlongest
      obtain ⟨-, wire, hresponds, hcap⟩ := hlongest count hgreatest
      obtain ⟨bundle', hparts', hwrapped⟩ := id hresponds
      obtain rfl : bundle = bundle' := Except.ok.inj (hparts.symm.trans hparts')
      rw [hwrapped, ok_bind, ensure_true hcap, ok_bind] at hanswer
      refine ⟨fun _ ↦ ⟨wire, count, hanswer, hresponds, hlongest count hgreatest, ?_⟩, ?_⟩
      · exact fun other hother ↦ hgreatest.2 hother.1
      · intro error herror
        rw [hanswer] at herror
        cases herror
  · exact iff_of_true ⟨fun h ↦ absurd h hfirst, fun _ _ _ ↦ hfirst⟩ (Or.inl hfirst)

section Golden

open Reference

/-- A request for the branch of the fixture, with room for all of its plan. -/
def wholeRequest : ExportRequest :=
  ⟨Golden.context, [Golden.second.id], [], none, ⟨2, MAX_BUNDLE_CANONICAL_BYTES, MAX_PULL_PAGES⟩⟩

/-- The plan of the request. -/
def wholePlan : List SignedEventV1 := [Golden.first.event, Golden.second.event]

theorem whole_planned : planOn Golden.B Golden.advanced.tables Golden.context
    wholeRequest.requestedHeads [] = .ok wholePlan :=
  golden_plan Golden.advanced_wellFormed rfl

theorem whole_unmarked : ∀ event ∈ wholePlan, event.Unmarked Golden.B := goldenBundle_unmarked

theorem wholeRequest_total : ∃ body, ExportRequest.fromWire Golden.B body = .ok wholeRequest ∧
    body.length ≤ MAX_PULL_REQUEST_BODY_BYTES := by
  obtain ⟨body, hbody⟩ := wholeRequest.toWire_total (B := Golden.B)
  refine ⟨body, oneHead_fromWire (PullLimits.new_eq_ok.mpr ⟨by decide, rfl⟩) hbody, ?_⟩
  exact ExportRequest.length_toWire_le hbody
    (fun text htext ↦ absurd htext (Option.not_mem_none text)) (by decide) (by decide)

theorem whole_active : requireActive Golden.advanced.tables Golden.context = .ok () :=
  (Ledger.requireActive_tables Golden.advanced_wellFormed.toWellKeyed).mpr ⟨_, rfl, rfl⟩

theorem whole_windows (start : ℕ) : Encodes Golden.B Golden.context
    ((wholePlan.drop start).take wholeRequest.limits.maxEvents) MAX_BUNDLE_CANONICAL_BYTES :=
  Ledger.encodes_few Golden.advanced_wellFormed whole_planned whole_unmarked start
    (by decide : 2 ≤ 7)

theorem golden_flag (flag : Bool) : canonicalLength Golden.B (.bool flag) ≤ 5 := by
  cases flag with
  | false => decide
  | true => decide

/-- The server of the fixture answers with all of the plan under its default bounds. -/
theorem postExport_longest_golden : ∃ body fingerprint,
    ServesLongest Golden.B .default wholeRequest wholePlan fingerprint 0
      (postExport Golden.B .default Golden.advanced.tables body) := by
  obtain ⟨body, hbody, hlength⟩ := wholeRequest_total
  obtain ⟨fingerprint, hpinned⟩ := planFingerprint_total (B := Golden.B) Golden.context
    wholeRequest.requestedHeads [] wholeRequest.limits
  refine ⟨body, fingerprint, (postExport_longest_iff Golden.B Golden.advanced.tables
    advanced_reachable .default body wholeRequest hbody hlength whole_active 0 none rfl []
    rfl wholePlan whole_planned whole_windows fingerprint hpinned
    (fun value hvalue ↦ absurd hvalue (Option.not_mem_none value))).mpr (Or.inr ?_)⟩
  intro count hgreatest
  have hword : 0 + count < 2 ^ 64 := by
    have hcount : count ≤ 2 := hgreatest.1.2.2.1
    omega
  exact servable_of_default fingerprint hbody .default rfl golden_flag hword whole_unmarked
    hgreatest.1

/-- The first event of the plan, or all of it, is a page within the bounds of the request. -/
theorem whole_pageCounts {count : ℕ} (hone : 1 ≤ count) (htwo : count ≤ 2) :
    count ∈ PageCounts Golden.B Golden.context (wholePlan.drop 0) wholeRequest.limits.maxEvents
      wholeRequest.limits.maxBundleBytes :=
  ⟨hone, htwo, htwo, Ledger.encodes_few Golden.advanced_wellFormed whole_planned whole_unmarked 0
    (htwo.trans (by decide))⟩

/-- The response bound of the server may be the length of the response around the first event. That
response would fit, and the server answers with the limit error, as it cuts both events. -/
theorem postExport_never_shrinks : ∃ body fingerprint cap,
    Reachable Golden.B Golden.advanced.tables ∧
      ExportRequest.fromWire Golden.B body = .ok wholeRequest ∧
      planOn Golden.B Golden.advanced.tables Golden.context wholeRequest.requestedHeads [] =
        .ok wholePlan ∧
      (∀ start, Encodes Golden.B Golden.context
        ((wholePlan.drop start).take wholeRequest.limits.maxEvents) MAX_BUNDLE_CANONICAL_BYTES) ∧
      planFingerprint Golden.B Golden.context wholeRequest.requestedHeads [] wholeRequest.limits =
        .ok fingerprint ∧
      TransportLimits.new MAX_PULL_REQUEST_BODY_BYTES cap =
        .ok ⟨MAX_PULL_REQUEST_BODY_BYTES, cap⟩ ∧
      1 ∈ ServableCounts Golden.B ⟨MAX_PULL_REQUEST_BODY_BYTES, cap⟩ wholeRequest wholePlan
        fingerprint 0 ∧
      postExport Golden.B ⟨MAX_PULL_REQUEST_BODY_BYTES, cap⟩ Golden.advanced.tables body =
        .error .limitExceeded ∧
      ¬ ServesLongest Golden.B ⟨MAX_PULL_REQUEST_BODY_BYTES, cap⟩ wholeRequest wholePlan
        fingerprint 0 (postExport Golden.B ⟨MAX_PULL_REQUEST_BODY_BYTES, cap⟩
          Golden.advanced.tables body) := by
  obtain ⟨body, hbody, hlength⟩ := wholeRequest_total
  obtain ⟨fingerprint, hpinned⟩ := planFingerprint_total (B := Golden.B) Golden.context
    wholeRequest.requestedHeads [] wholeRequest.limits
  have hfirst := whole_pageCounts (le_refl 1) one_le_two
  -- the responses around the first event and around both
  obtain ⟨-, one, hone, hshort⟩ := servable_of_default fingerprint hbody .default rfl golden_flag
    (by decide : 0 + 1 < 2 ^ 64) whole_unmarked hfirst
  have hclear {count : ℕ} : ∀ event ∈ (wholePlan.drop 0).take count, event.Unmarked Golden.B :=
    fun event hevent ↦ whole_unmarked event (List.mem_of_mem_take hevent)
  obtain ⟨one', hone', honeLength⟩ := responds_total fingerprint hbody
    (by decide : 0 + 1 < 2 ^ 64) (whole_pageCounts (le_refl 1) one_le_two).2.2.2 hclear
  obtain rfl := hone.unique hone'
  obtain ⟨both, hboth, hbothLength⟩ := responds_total fingerprint hbody
    (by decide : 0 + 2 < 2 ^ 64) (whole_pageCounts one_le_two (le_refl 2)).2.2.2 hclear
  have hlonger : one.length < both.length := by
    have htakes : (wholePlan.drop 0).take 1 = [Golden.first.event] ∧
        (wholePlan.drop 0).take 2 = [Golden.first.event, Golden.second.event] := ⟨rfl, rfl⟩
    have hlast : (position wholePlan (0 + 1)).isNone = false ∧
        (position wholePlan (0 + 2)).isNone = true := ⟨rfl, rfl⟩
    rw [honeLength, hbothLength, htakes.1, htakes.2, hlast.1, hlast.2]
    have hreads := goldenBundle_unmarked.readable
    exact wrapBytes_second (golden_flag false) (hreads _ List.mem_cons_self)
      (hreads _ (List.mem_cons_of_mem _ (List.mem_singleton_self _)))
  have hcap : TransportLimits.new MAX_PULL_REQUEST_BODY_BYTES one.length =
      .ok ⟨MAX_PULL_REQUEST_BODY_BYTES, one.length⟩ := by
    have hsome : one.length ≠ 0 := by
      rw [honeLength, wrapBytes]
      omega
    rw [TransportLimits.new, ensure_true, ok_bind]
    rintro (hzero | hlarge | hzero | hlarge)
    · exact absurd hzero (by decide)
    · exact absurd hlarge (lt_irrefl _)
    · exact hsome hzero
    · exact absurd hlarge (Nat.not_lt.mpr hshort)
  have hserves : 1 ∈ ServableCounts Golden.B ⟨MAX_PULL_REQUEST_BODY_BYTES, one.length⟩
      wholeRequest wholePlan fingerprint 0 := ⟨hfirst, one, hone, le_refl _⟩
  have hfails : postExport Golden.B ⟨MAX_PULL_REQUEST_BODY_BYTES, one.length⟩
      Golden.advanced.tables body = .error .limitExceeded := by
    obtain ⟨count, bundle, hgreatest, hparts, hanswer⟩ := postExport_greatest
      Golden.advanced_wellFormed ⟨MAX_PULL_REQUEST_BODY_BYTES, one.length⟩ hbody hlength
      whole_active rfl rfl whole_planned (whole_windows 0) hpinned
      (fun value hvalue ↦ absurd hvalue (Option.not_mem_none value)) hfirst
    obtain rfl : count = 2 := le_antisymm hgreatest.1.2.2.1
      (hgreatest.2 (whole_pageCounts one_le_two (le_refl 2)))
    obtain ⟨bundle', hparts', hwrapped⟩ := hboth
    obtain rfl : bundle = bundle' := Except.ok.inj (hparts.symm.trans hparts')
    rw [hanswer, hwrapped, ok_bind, ensure_false (Nat.not_le.mpr hlonger)]
    rfl
  exact ⟨body, fingerprint, one.length, advanced_reachable, hbody, whole_planned, whole_windows,
    hpinned, hcap, hserves, hfails, fun h ↦ h.refused _ hfails rfl hserves⟩

end Golden

end ContextMesh.Sync
