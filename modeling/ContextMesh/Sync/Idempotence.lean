import ContextMesh.Sync.Convergence
import ContextMesh.Sync.Repetition

/-!
A pull right behind a pull that has succeeded. The client tracks the refs of the server by now, so
it knows every head that it requests: the plan of the second pull is empty, and its one page carries
no event. That page is no longer than the last one of the first pull. The second pull stands or
falls with its known heads, which are others than before: they are the branches of both sides.
-/

set_option autoImplicit false
set_option relaxedAutoImplicit false

namespace ContextMesh.Sync

open Checked Ordered Contract Store Interaction

variable {B : Boundary} {limits : TransportLimits} {responseLimit : ℕ} {config : PullClientConfig}
  {L M N S : Ledger B} {requested known : List EventId} {expectedHeads : String}
  {state : PullState} {offset left : ℕ} {foreign : List EventRow}

/-! ### A page without events -/

/-- Without events a bundle is shortest. -/
theorem bundleBytes_nil_le (events : List SignedEventV1) :
    bundleBytes B [] ≤ bundleBytes B events := by
  have hle := bundleBytes_take_le (B := B) events (Nat.zero_le events.length)
  rwa [List.take_zero, List.take_length] at hle

/-- A bundle without events encodes. -/
theorem encodes_nil (B : Boundary) (context : ContextId) :
    Encodes B context [] MAX_BUNDLE_CANONICAL_BYTES := by
  have hparts : checkParts B context [] [] = .ok () := by
    refine checkParts_eq_ok.mpr ⟨⟨Nat.zero_le _, Nat.zero_le _⟩, List.nodup_nil, ⟨?_, ?_⟩,
      canonical_nil _⟩
    · exact fun event hevent ↦ absurd hevent List.not_mem_nil
    · exact fun before event after hsplit ↦ by simp at hsplit
  obtain ⟨wire, hwire⟩ := @BundleV1.toWire_of_short B ⟨context, [], [], hparts⟩
    (fun event hevent ↦ absurd hevent List.not_mem_nil) (Nat.zero_le 7)
  exact ⟨_, wire, BundleV1.fromParts_eq_ok.mpr ⟨rfl, rfl, rfl⟩, hwire,
    (BundleV1.toWire_eq_ok.mp hwire).2.1⟩

/-- Where the plan is empty, the handler answers a page without events, within its bound. -/
theorem postExport_nothing {t : Tables} {body : Bytes} {request : ExportRequest}
    (hbody : ExportRequest.fromWire B body = .ok request)
    (hlength : body.length ≤ limits.maxRequestBodyBytes)
    (hactive : requireActive t request.context = .ok ())
    (hreads : readCursor B request.cursor = .ok (0, none)) {effective : List EventId}
    (heffective : effectiveKnown B t request.context request.knownHeads = .ok effective)
    (hplan : planOn B t request.context request.requestedHeads effective = .ok []) :
    ∃ wire : Bytes, wire.length = bundleBytes B [] + wrapBytes B true ∧
      postExport B limits t body =
        (ensure (wire.length ≤ limits.maxResponseBodyBytes) .limitExceeded >>= fun _ ↦
          .ok wire) := by
  obtain ⟨⟨hnonempty, hrequested⟩, hknown⟩ := ExportRequest.canonical_heads hbody
  obtain ⟨-, hnew, hpage⟩ := ExportRequest.fromWire_eq_ok hbody
  obtain ⟨⟨-, -, hcount, hknownCount⟩, -⟩ := ExportRequest.new_eq_ok.mp hnew
  obtain ⟨⟨hevents, hbytes, -⟩, -⟩ := PullLimits.new_eq_ok.mp hpage
  obtain ⟨fingerprint, hpinned⟩ := planFingerprint_total (B := B) request.context
    request.requestedHeads effective request.limits
  obtain ⟨wire, ⟨bundle, hparts, hwrapped⟩, hwire⟩ := @responds_total B request [] fingerprint 0
    body hbody 0 (by decide) (encodes_nil B request.context)
    fun event hevent ↦ absurd hevent List.not_mem_nil
  refine ⟨wire, hwire, ?_⟩
  obtain ⟨cursor, hcursor, hwrapped⟩ := bind_eq_ok.mp hwrapped
  obtain ⟨response, hresponse, hwrapped⟩ := bind_eq_ok.mp hwrapped
  replace hparts : BundleV1.fromParts B request.context [] [] = .ok bundle := hparts
  replace hcursor : writeCursor B fingerprint none = .ok cursor := hcursor
  have hpages : request.limits.maxEvents ≠ 0 ∧ request.limits.maxEvents ≤ MAX_BUNDLE_EVENTS ∧
      request.limits.maxBundleBytes ≠ 0 ∧
      request.limits.maxBundleBytes ≤ MAX_BUNDLE_CANONICAL_BYTES :=
    ⟨hevents.1, hevents.2, hbytes.1, hbytes.2⟩
  have hexport : exportSyncPage B t request.context request.requestedHeads request.knownHeads 0
      request.limits.maxEvents request.limits.maxBundleBytes = .ok ⟨bundle, effective, none⟩ := by
    rw [exportSyncPage, ensure_true hpages, ok_bind, normalizeHeads,
      ensure_true ⟨hnonempty, hcount⟩, ok_bind, normalize_eq_self hrequested, ok_bind,
      ensure_true hknownCount, ok_bind, hactive, ok_bind, normalize_eq_self hknown, heffective,
      ok_bind, hplan, ok_bind, ensure_true (by simp), ok_bind, if_pos rfl, hparts, ok_bind]
  rw [postExport, ensure_true hlength, ok_bind, hbody, ok_bind, exportResponse, hreads, ok_bind]
  dsimp only
  rw [hexport, mapError_ok, ok_bind]
  dsimp only
  rw [hpinned, ok_bind, ensure_true (fun value hvalue ↦ absurd hvalue (Option.not_mem_none value)),
    ok_bind, hcursor, ok_bind, hresponse, ok_bind, hwrapped, ok_bind]

variable (B limits responseLimit config) in
/-- A last page without events is within all the bounds of a pull. -/
structure Room : Prop where
  bundle : bundleBytes B [] ≤ config.limits.maxBundleBytes
  response : bundleBytes B [] + wrapBytes B true ≤ limits.maxResponseBodyBytes
  answer : bundleBytes B [] + wrapBytes B true ≤ responseLimit

/-- The bundle of an answered page takes the bytes of its events. -/
theorem Answered.length_bundleWire
    (answered : Answered B limits responseLimit config requested known expectedHeads S state
      offset) : answered.bundleWire.length = bundleBytes B answered.response.bundle.events := by
  obtain ⟨-, -, hrefs, -⟩ := ExportResponse.fromWire_eq_ok answered.reads
  have hnone : canonicalLength B (.arr []) = 2 := canonicalLength_arr []
  obtain ⟨hcanonical, -, hreadable⟩ := BundleV1.toWire_eq_ok.mp answered.bundled
  have hall : ∀ event ∈ answered.response.bundle.events, (event.reading B).isSome := hreadable
  rw [canonicalize_length hcanonical, BundleV1.length_toJson, hrefs, List.map_nil, hnone,
    bundleBytes, if_pos hall, Nat.add_zero]

/-- The response around the last page takes the bytes of its bundle and what is around it. -/
theorem Answered.length_body
    (answered : Answered B limits responseLimit config requested known expectedHeads S state offset)
    (hexpected : requestedHeadFingerprint B config.context requested = .ok expectedHeads)
    (hnext : answered.next = none) : answered.body.length =
      bundleBytes B answered.response.bundle.events + wrapBytes B true := by
  obtain ⟨hwire, -, hrefs, hcomplete⟩ := ExportResponse.fromWire_eq_ok answered.reads
  have hchecks := answered.checks
  rw [hnext] at hchecks
  obtain ⟨hheads, hchecks⟩ := unit_bind_eq_ok.mp hchecks
  obtain ⟨-, hchecks⟩ := unit_bind_eq_ok.mp hchecks
  obtain ⟨hcontext, hheads⟩ := ensure_eq_ok.mp hheads
  have hlast : answered.response.complete = true := by
    by_contra hmore
    rw [if_neg hmore] at hchecks
    obtain ⟨cursor, -, hchecks⟩ := bind_eq_ok.mp hchecks
    obtain ⟨decoded, -, hchecks⟩ := bind_eq_ok.mp hchecks
    obtain ⟨next, -, hchecks⟩ := bind_eq_ok.mp hchecks
    obtain ⟨-, hchecks⟩ := unit_bind_eq_ok.mp hchecks
    cases hchecks
  rw [hlast] at hcomplete
  have hcursor : answered.response.nextCursor = none := Option.isNone_iff_eq_none.mp hcomplete.symm
  have hbundle := answered.length_bundleWire
  rw [canonicalize_length (BundleV1.toWire_eq_ok.mp answered.bundled).1] at hbundle
  have hnull : canonicalLength B (cursorJson none) = 4 := B.toVec_null_length
  have hfingerprint : requestedHeadFingerprint B answered.response.context requested =
      .ok answered.response.requestedHeadFingerprint := by
    rw [hcontext, hheads]
    exact hexpected
  have hstable := (ExportResponse.unmarked_of_fromWire answered.reads).stable
  rw [ExportResponse.length_toWire hstable hwire hfingerprint, hbundle, hlast, hcursor, hnull,
    wrapBytes]
  simp only [if_true]
  omega

/-- Behind a last page there is room for one without events. -/
theorem Round.room
    (round : Round B limits responseLimit config requested known expectedHeads M S state offset)
    (hexpected : requestedHeadFingerprint B config.context requested = .ok expectedHeads)
    (hnext : round.next = none) : Room B limits responseLimit config := by
  have hevents := bundleBytes_nil_le (B := B) round.response.bundle.events
  have hbundle := round.length_bundleWire
  have hbody := round.length_body hexpected hnext
  have hfits := round.fits
  obtain ⟨hpost, hanswer⟩ := serve_postExport.mp round.served
  obtain ⟨-, hresponse⟩ := length_postExport_le hpost
  exact ⟨by omega, by omega, by omega⟩

/-- Where the plan is empty and there is room, the server answers one page without events. -/
theorem Room.answers (h : Room B limits responseLimit config) (hS : S.WellFormed)
    (hlimits : config.limits.Checked) (hheads : Heads B requested known)
    (hexpected : requestedHeadFingerprint B config.context requested = .ok expectedHeads)
    (hactive : ∃ r, S.registration config.context = some r ∧ r.active = true)
    (hplan : planOn B S.tables config.context requested (S.heldHeads config.context known) =
      .ok [])
    (hrequest : ∀ wire, (PullState.start.request config requested known).toWire B = .ok wire →
      wire.length ≤ limits.maxRequestBodyBytes) :
    ∃ answered : Answered B limits responseLimit config requested known expectedHeads S .start 0,
      answered.next = none ∧ answered.response.bundle.events = [] := by
  have hstart : Stands B config requested (S.heldHeads config.context known) 0 .start := .start _
  obtain ⟨-, wire, hwire, -, hreads⟩ := hheads.request hlimits hstart.rendered
  have heffective : effectiveKnown B S.tables config.context known =
      .ok (S.heldHeads config.context known) := Ledger.effectiveKnown_tables hS.toWellKeyed known
  obtain ⟨body, hlength, hanswer⟩ := @postExport_nothing B limits S.tables wire _ hreads
    (hrequest wire hwire) ((Ledger.requireActive_tables hS.toWellKeyed).mpr hactive) rfl _
    heffective hplan
  rw [ensure_true (hlength ▸ h.response), ok_bind] at hanswer
  -- the page has no event, so the client parses it
  obtain ⟨response, hparsed⟩ : ∃ response, ExportResponse.fromWire B body = .ok response := by
    obtain ⟨-, -, response, hexport, hbody⟩ := (postExport_eq_ok hreads).mp hanswer
    obtain ⟨_, _, _, plan, _, hpage, -⟩ := exportResponse_eq_ok hS hreads hexport
    obtain rfl : [] = plan := Except.ok.inj (hplan.symm.trans hpage.planned)
    have hnone := hpage.events
    rw [List.drop_nil, List.take_nil] at hnone
    exact ⟨response, hpage.fromWire hS (fun event hevent ↦
      absurd (hnone ▸ hevent) List.not_mem_nil) hbody⟩
  obtain ⟨answered, -⟩ := Answered.of_served hS hlimits hheads hstart hexpected hwire
    (serve_postExport.mpr ⟨hanswer, hlength ▸ h.answer⟩) hparsed
  have haccepted := answered.accepted
  rw [Except.ok.inj (answered.planned.symm.trans hplan)] at haccepted
  have hevents : answered.response.bundle.events = [] := by
    have hslice := haccepted.slice
    rw [List.drop_nil, List.take_nil] at hslice
    exact List.forall₂_nil_left_iff.mp hslice
  refine ⟨answered, ?_, hevents⟩
  cases hnext : answered.next with
  | none => rfl
  | some next =>
    have hadvances := haccepted.advances
    rw [hnext] at hadvances
    exact absurd hadvances.2.1 (Nat.not_lt_zero _)

/-! ### The first pull -/

variable (B limits responseLimit config) in
/-- Where a pull that succeeds leaves the client. -/
structure Followed (L S N : Ledger B) : Prop where
  wellFormed : N.WellFormed
  localRefs : N.localRefs = L.localRefs
  registered : N.registration config.context ≠ none
  tracks : N.Tracks config.peer config.context (advertised S config.context)
  replaces : replaceRemoteRefSnapshot B config.peer config.context
    (advertised S config.context) N.tables = .ok (N.tables, 0)
  served : ∃ wire, serve B limits responseLimit S.tables (.getRefs config.context) = .ok wire
  room : requestedHeads S config.context ≠ [] → Room B limits responseLimit config
  projects : requestedHeads S config.context ≠ [] → ∃ projected, projectOn B S.tables config.context
    (requestedHeads S config.context) .default = .ok projected

/-- A replaced namespace is not replaced a second time. -/
theorem replaceRemoteRefSnapshot_again (hM : M.WellFormed) {peer : PeerName} {context : ContextId}
    {refs : List AdvertisedRef} {t : Tables} {count : ℕ}
    (hok : replaceRemoteRefSnapshot B peer context refs M.tables = .ok (t, count)) :
    ∃ N : Ledger B, t = N.tables ∧ N.WellFormed ∧ N.localRefs = M.localRefs ∧
      N.registration context ≠ none ∧ N.Tracks peer context refs ∧
      replaceRemoteRefSnapshot B peer context refs N.tables = .ok (N.tables, 0) := by
  obtain ⟨hfew, hcanonical, hactive, hheld, hcount, rfl⟩ :=
    (Ledger.replaceRemoteRefSnapshot_eq_ok hM).mp hok
  -- whichever of the two ledgers it is, it has the events and registrations of the first
  obtain ⟨N, hsame, remoteRefs, rfl, hwell, htracks⟩ : ∃ N : Ledger B,
      (if count = 0 then M.tables else (M.replaced peer context refs).tables) = N.tables ∧
      ∃ remoteRefs, N = { M with remoteRefs := remoteRefs } ∧ N.WellFormed ∧
        N.Tracks peer context refs := by
    by_cases hzero : count = 0
    · refine ⟨M, if_pos hzero, M.remoteRefs, rfl, hM, ?_⟩
      exact hM.toWellKeyed.tracks_iff.mpr (hcount.symm.trans hzero)
    · obtain ⟨remoteRefs, hframe⟩ := Ledger.replaced_frame M peer context refs
      exact ⟨_, if_neg hzero, remoteRefs, hframe, (Ledger.Steps.replaced hheld).wellFormed hM,
        Ledger.replaced_tracks hcanonical⟩
  have hnone := hwell.toWellKeyed.tracks_iff.mp htracks
  obtain ⟨r, hr, -⟩ := id hactive
  refine ⟨_, hsame, hwell, rfl, fun h ↦ ?_, htracks, ?_⟩
  · exact Option.some_ne_none r (hr.symm.trans h)
  · exact (Ledger.replaceRemoteRefSnapshot_eq_ok hwell).mpr
      ⟨hfew, hcanonical, hactive, hheld, hnone.symm, (if_pos rfl).symm⟩

/-- A page loop that succeeds has been through a last page, and leaves the branches alone. -/
theorem pullPages_ends (hM : M.WellFormed) (hS : S.WellFormed) (hlimits : config.limits.Checked)
    (hheads : Heads B requested known)
    (hexpected : requestedHeadFingerprint B config.context requested = .ok expectedHeads)
    (hstands : Stands B config requested (S.heldHeads config.context known) offset state)
    (hpages : state.report.pages + left ≤ MAX_PULL_PAGES) {turns : List MeetingTurn} :
    Keeps (Undisturbed B limits responseLimit) (fun _ ↦ True)
      (pullPages B config requested known expectedHeads left state).run
      (fun result s ↦ ∀ report, result = .ok report → Room B limits responseLimit config ∧
        (∃ projected, projectOn B S.tables config.context requested .default = .ok projected) ∧
        ∃ N : Ledger B, s.now = ⟨N.tables, S.tables, foreign⟩ ∧ N.WellFormed ∧
          N.localRefs = M.localRefs)
      ⟨turns, ⟨M.tables, S.tables, foreign⟩⟩ := by
  induction left generalizing M offset state turns with
  | zero => exact ⟨trivial, fun report h ↦ by cases h⟩
  | succ left ih =>
    apply pullPages_round hM hS hlimits hheads hstands hexpected (by omega)
    · exact fun _ error turns' _ report h ↦ by cases h
    · intro round
      have hwell := hM.admitAll round.admits
      obtain ⟨-, hlocal, -⟩ := Ledger.admitAll_refs (L := M) round.events
      rw [Round.rest]
      cases hnext : round.next with
      | none =>
        refine ⟨trivial, fun report _ ↦ ⟨round.room hexpected hnext, ?_, _, rfl, hwell, hlocal⟩⟩
        obtain ⟨projected, hprojected, -⟩ := bind_eq_ok.mp round.planned
        exact ⟨projected, hprojected⟩
      | some next =>
        obtain ⟨nextOffset, fingerprint, cursor⟩ := next
        have hpaged := round.paged
        refine (ih hwell (round.stands hstands hnext) (by dsimp only; omega)).mono
          fun result s _ hends report hreport ↦ ?_
        obtain ⟨hroom, hprojected, N, hnow, hN, hrefs⟩ := hends report hreport
        exact ⟨hroom, hprojected, N, hnow, hN, hrefs.trans hlocal⟩

theorem publish_follows (hM : M.WellFormed) (hlocal : M.localRefs = L.localRefs)
    (hserved : ∃ wire, serve B limits responseLimit S.tables (.getRefs config.context) = .ok wire)
    (hroom : requestedHeads S config.context ≠ [] → Room B limits responseLimit config)
    (hprojects : requestedHeads S config.context ≠ [] → ∃ projected, projectOn B S.tables
      config.context (requestedHeads S config.context) .default = .ok projected)
    (report : PullReport) {turns : List MeetingTurn} :
    Keeps (Undisturbed B limits responseLimit) (fun _ ↦ True)
      (publish config (advertised S config.context) report).run
      (fun result s ↦ ∀ report, result = .ok report → ∃ N : Ledger B,
        s.now = ⟨N.tables, S.tables, foreign⟩ ∧ Followed B limits responseLimit config L S N)
      ⟨turns, ⟨M.tables, S.tables, foreign⟩⟩ := by
  cases hreplaced : replaceRemoteRefSnapshot B config.peer config.context
    (advertised S config.context) M.tables with
  | error error => exact publish_stops hreplaced fun failed turns' report h ↦ by cases h
  | ok replaced =>
    obtain ⟨t, count⟩ := replaced
    obtain ⟨N, rfl, hN, hrefs, hregistered, htracks, hagain⟩ :=
      replaceRemoteRefSnapshot_again hM hreplaced
    exact publish_ends hreplaced fun report _ ↦
      ⟨N, rfl, hN, hrefs.trans hlocal, hregistered, htracks, hagain, hserved, hroom, hprojects⟩

/-- A pull that succeeds leaves the client behind the server. -/
theorem pull_follows (hL : L.WellFormed) (hS : S.WellFormed) (hlimits : config.limits.Checked)
    {turns : List MeetingTurn} :
    Keeps (Undisturbed B limits responseLimit) (fun _ ↦ True) (pull B config).run
      (fun result s ↦ ∀ report, result = .ok report → ∃ N : Ledger B,
        s.now = ⟨N.tables, S.tables, foreign⟩ ∧ Followed B limits responseLimit config L S N)
      ⟨turns, ⟨L.tables, S.tables, foreign⟩⟩ := by
  obtain ⟨⟨-, -, -, hmax⟩, -⟩ := PullLimits.new_eq_ok.mp hlimits
  apply pull_opens hL hS
  · exact fun _ error turns' _ report h ↦ by cases h
  · intro hopened wire «local» remote _ _ _
    split_ifs with hnone
    · exact publish_follows hL rfl hopened.served (absurd hnone) (absurd hnone) _
    · intro expectedHeads hexpected
      apply Keeps.bindT
      refine (pullPages_ends hL hS hlimits (hopened.heads hS hnone) hexpected (.start _)
        ((Nat.zero_add _).trans_le hmax)).mono fun result s _ hends ↦ ?_
      cases result with
      | error error => exact fun report h ↦ by cases h
      | ok report =>
        obtain ⟨turns', now⟩ := s
        obtain ⟨hroom, hprojected, M, rfl, hM, hrefs⟩ := hends report rfl
        exact publish_follows hM hrefs hopened.served (fun _ ↦ hroom) (fun _ ↦ hprojected) _

/-! ### The second pull -/

/-- The heads that a client knows behind a server: those of the branches of both sides. -/
def followedHeads (L S : Ledger B) (context : ContextId) : List EventId :=
  normalize (EventId.text B) ((L.localRefsOf context).map LocalRef.head ++
    (S.localRefsOf context).map LocalRef.head)

variable (B limits config) in
/-- What the branches of both sides have to be for a second pull: few enough for a request, one that
the server reads, and the server can project those of them that it holds. -/
structure Repeatable (L S : Ledger B) : Prop where
  few : (followedHeads L S config.context).length ≤ MAX_BUNDLE_REFS
  fits : requestedHeads S config.context ≠ [] → ∀ wire,
    (PullState.start.request config (requestedHeads S config.context)
      (followedHeads L S config.context)).toWire B = .ok wire →
        wire.length ≤ limits.maxRequestBodyBytes
  projects : requestedHeads S config.context ≠ [] → ∃ projected, projectOn B S.tables
    config.context (S.heldHeads config.context (followedHeads L S config.context)) .default =
      .ok projected

theorem Followed.knownHeads (h : Followed B limits responseLimit config L S N) :
    knownHeads N config = followedHeads L S config.context := by
  refine normalize_congr EventId.text_injective fun id ↦ ?_
  rw [List.mem_append, List.mem_append, Ledger.localRefsOf, h.localRefs, ← Ledger.localRefsOf]
  refine or_congr_right ⟨fun hid ↦ ?_, fun hid ↦ ?_⟩
  · obtain ⟨⟨peer, context, name, head⟩, href, rfl⟩ := List.mem_map.mp hid
    obtain ⟨hmem, hcontext, hpeer⟩ := Ledger.mem_remoteRefsOf.mp href
    dsimp only at hcontext hpeer
    subst hcontext hpeer
    obtain ⟨item, hitem, -, hhead⟩ := (h.tracks name head).mp hmem
    obtain ⟨branch, hbranch, rfl⟩ := List.mem_map.mp hitem
    exact List.mem_map.mpr ⟨branch, hbranch, hhead⟩
  · obtain ⟨branch, hbranch, rfl⟩ := List.mem_map.mp hid
    have hitem : ⟨.local, branch.name, branch.head⟩ ∈ advertised S config.context :=
      List.mem_map_of_mem hbranch
    have href := (h.tracks branch.name branch.head).mpr ⟨_, hitem, rfl, rfl⟩
    exact List.mem_map.mpr ⟨_, Ledger.mem_remoteRefsOf.mpr ⟨href, rfl, rfl⟩, rfl⟩

/-- The heads of a server are among those that a client behind it knows. -/
theorem requestedHeads_subset (L S : Ledger B) (context : ContextId) :
    ∀ head ∈ requestedHeads S context, head ∈ followedHeads L S context := by
  intro head hhead
  exact mem_normalize.mpr (List.mem_append_right _ (mem_normalize.mp hhead))

/-- Where a plan exists, the known heads are projected. -/
theorem planOn_projects {t : Tables} {context : ContextId} {plan : List SignedEventV1}
    (hplan : planOn B t context requested known = .ok plan) (hsome : known ≠ []) :
    ∃ projected, projectOn B t context known .default = .ok projected := by
  obtain ⟨listed, -, hplan⟩ := bind_eq_ok.mp hplan
  rw [if_neg hsome] at hplan
  obtain ⟨projected, hprojected, -⟩ := bind_eq_ok.mp hplan
  exact ⟨projected, hprojected⟩

/-- The plan of heads that are all known is empty. -/
theorem planOn_known (hS : S.WellFormed) {context : ContextId}
    (hsub : ∀ head ∈ requested, head ∈ known) (hsome : requested ≠ [])
    {projected projected' : List SignedEventV1 × ℕ}
    (hrequested : projectOn B S.tables context requested .default = .ok projected)
    (hknown : projectOn B S.tables context known .default = .ok projected') :
    planOn B S.tables context requested known = .ok [] := by
  obtain ⟨head, hhead⟩ := List.exists_mem_of_ne_nil _ hsome
  have hknownSome : known ≠ [] := List.ne_nil_of_mem (hsub head hhead)
  obtain ⟨plan, hplan⟩ : ∃ plan, planOn B S.tables context requested known = .ok plan := by
    rw [planOn, hrequested, ok_bind, if_neg hknownSome, hknown, ok_bind]
    exact ⟨_, rfl⟩
  obtain ⟨-, -, es, rfl, hdifference⟩ := Ledger.planOn_tables hS hplan
  obtain rfl : es = [] := by
    refine List.eq_nil_iff_forall_not_mem.mpr fun e he ↦ ?_
    obtain ⟨-, ⟨below, hbelow, hancestor⟩, hunknown⟩ := (hdifference.mem_stored hS).mp he
    exact hunknown ⟨below, hsub below hbelow, hancestor⟩
  exact hplan

/-- The server holds the heads that it is requested. -/
theorem Followed.held (h : Followed B limits responseLimit config L S N) (hS : S.WellFormed) :
    ∀ head ∈ requestedHeads S config.context,
      head ∈ S.heldHeads config.context (followedHeads L S config.context) := by
  intro head hhead
  obtain ⟨⟨listed, bytes⟩, hprojected⟩ := h.projects (List.ne_nil_of_mem hhead)
  obtain ⟨hheld, -⟩ := Ledger.projectOn_tables hS hprojected
  exact (Ledger.mem_heldHeads hS.toWellKeyed).mpr
    ⟨requestedHeads_subset L S config.context head hhead, hheld head hhead⟩

/-- Behind a server, a pull whose request the server can serve changes nothing. -/
theorem Followed.repeats (h : Followed B limits responseLimit config L S N) (hS : S.WellFormed)
    (hlimits : config.limits.Checked) (hrepeatable : Repeatable B limits config L S)
    {turns : List MeetingTurn} :
    Keeps (Undisturbed B limits responseLimit) (fun _ ↦ True) (pull B config).run
      (fun result s ↦ ∃ report, result = .ok report ∧ report.inserted = 0 ∧
        report.remoteRefsUpdated = 0 ∧ s.now = ⟨N.tables, S.tables, foreign⟩)
      ⟨turns, ⟨N.tables, S.tables, foreign⟩⟩ := by
  have hopened : Opens B limits responseLimit config N S :=
    ⟨h.served, h.knownHeads ▸ hrepeatable.few⟩
  apply pull_opens h.wellFormed hS
  · exact fun hfails ↦ absurd hopened hfails
  intro _ wire «local» remote _ _ _
  split_ifs with hnone
  · exact publish_ends h.replaces ⟨_, rfl, rfl, rfl, rfl⟩
  intro expectedHeads hexpected
  have hheads := hopened.heads hS hnone
  rw [h.knownHeads] at hheads ⊢
  -- the plan is empty, so the server answers one page without events
  obtain ⟨projected, hprojected⟩ := h.projects hnone
  obtain ⟨projected', hprojected'⟩ := hrepeatable.projects hnone
  have hplan := planOn_known hS (h.held hS) hnone hprojected hprojected'
  obtain ⟨refsWire, hserved⟩ := h.served
  obtain ⟨hactive, -⟩ := getRefs_eq_ok hS (serve_getRefs.mp hserved).1
  obtain ⟨answered, hlast, hempty⟩ := (h.room hnone).answers hS hlimits hheads hexpected hactive
    hplan (hrepeatable.fits hnone)
  -- the client imports it, and no event with it
  have hfits : answered.bundleWire.length ≤ config.limits.maxBundleBytes := by
    rw [answered.length_bundleWire, hempty]
    exact (h.room hnone).bundle
  have hstart : Stands B config (requestedHeads S config.context)
    (S.heldHeads config.context (followedHeads L S config.context)) 0 .start := .start _
  obtain ⟨round, rfl, hkept, hinserted⟩ := answered.held h.wellFormed hS hlimits hstart
    (by decide : 0 < MAX_PULL_PAGES) hfits h.registered fun e he ↦ by
      rw [hempty] at he
      exact absurd he List.not_mem_nil
  have hnothing : round.report.inserted = 0 := by
    obtain ⟨-, hreport⟩ := PullReport.addPage_eq_ok.mp round.adds
    rw [hreport, hinserted]
    rfl
  obtain ⟨⟨-, -, hpages, -⟩, -⟩ := PullLimits.new_eq_ok.mp hlimits
  obtain ⟨left, hleft⟩ := Nat.exists_eq_succ_of_ne_zero hpages
  rw [hleft]
  apply Keeps.bindT
  apply round.completes hlimits hheads hstart.rendered hlast
  dsimp only
  rw [Round.after, hkept]
  exact publish_ends h.replaces ⟨_, rfl, hnothing, rfl, rfl⟩

/-- Behind a server, a pull whose request the server cannot serve fails. -/
theorem Followed.refuses (h : Followed B limits responseLimit config L S N) (hS : S.WellFormed)
    (hlimits : config.limits.Checked) (hrefused : ¬ Repeatable B limits config L S)
    {turns : List MeetingTurn} :
    Keeps (Undisturbed B limits responseLimit) (fun _ ↦ True) (pull B config).run
      (fun result _ ↦ ∃ error, result = .error error)
      ⟨turns, ⟨N.tables, S.tables, foreign⟩⟩ := by
  obtain ⟨⟨-, -, hpages, -⟩, -⟩ := PullLimits.new_eq_ok.mp hlimits
  obtain ⟨left, hleft⟩ := Nat.exists_eq_succ_of_ne_zero hpages
  apply pull_opens h.wellFormed hS
  · exact fun _ error turns' _ ↦ ⟨error, rfl⟩
  intro hopened wire «local» remote _ _ _
  have hfew := hopened.known
  rw [h.knownHeads] at hfew
  split_ifs with hnone
  · exact absurd ⟨hfew, absurd hnone, absurd hnone⟩ hrefused
  intro expectedHeads hexpected
  have hheads := hopened.heads hS hnone
  rw [h.knownHeads] at hheads ⊢
  rw [hleft]
  apply Keeps.bindT
  apply pullPages_round h.wellFormed hS hlimits hheads (.start _) hexpected
    (by decide : 0 < MAX_PULL_PAGES)
  · exact fun _ error turns' _ ↦ ⟨error, rfl⟩
  intro round
  refine absurd ⟨hfew, fun _ other hother ↦ ?_, fun _ ↦ ?_⟩ hrefused
  · obtain rfl : round.wire = other := Except.ok.inj (round.rendered.symm.trans hother)
    exact (length_postExport_le (serve_postExport.mp round.served).1).1
  · obtain ⟨head, hhead⟩ := List.exists_mem_of_ne_nil _ hnone
    exact planOn_projects round.planned (List.ne_nil_of_mem (h.held hS head hhead))

/-- An immediate second pull. Behind a pull that succeeds, another one succeeds exactly when the
branches of both sides are few enough for a request, the server reads the request and can project
the heads in it that it holds. It then inserts no event, updates no ref, and leaves the client as it
is. -/
theorem pull_again (B : Boundary) (L S : Ledger B) (hclient : L.WellFormed)
    (hserver : S.WellFormed) (config : PullClientConfig) (hlimits : config.limits.Checked)
    (limits : TransportLimits) (report : PullReport) (s : MeetingHistory)
    (hrun : Runs (Undisturbed B limits config.transport.maxResponseBodyBytes) (pull B config).run
      ⟨[], ⟨L.tables, S.tables, []⟩⟩ (.done (.ok report)) s) (turns : List MeetingTurn) :
    (∃ result s', Runs (Undisturbed B limits config.transport.maxResponseBodyBytes)
      (pull B config).run ⟨turns, s.now⟩ (.done result) s') ∧
    ∀ (result : Except SyncError PullReport) (s' : MeetingHistory),
      Runs (Undisturbed B limits config.transport.maxResponseBodyBytes) (pull B config).run
        ⟨turns, s.now⟩ (.done result) s' →
      ((∃ again, result = .ok again) ↔ Repeatable B limits config L S) ∧
        ∀ again, result = .ok again →
          again.inserted = 0 ∧ again.remoteRefsUpdated = 0 ∧ s'.now = s.now := by
  obtain ⟨N, hnow, hfollowed⟩ := hrun.post (pull_follows hclient hserver hlimits) report rfl
  refine ⟨Runs.finishes Undisturbed.total _ _, fun result s' hagain ↦ ?_⟩
  rw [hnow] at hagain ⊢
  by_cases hrepeatable : Repeatable B limits config L S
  · obtain ⟨again, rfl, hinserted, hupdated, hsame⟩ :=
      hagain.post (hfollowed.repeats hserver hlimits hrepeatable)
    refine ⟨iff_of_true ⟨again, rfl⟩ hrepeatable, fun other hother ↦ ?_⟩
    obtain rfl : again = other := Except.ok.inj hother
    exact ⟨hinserted, hupdated, hsame⟩
  · obtain ⟨error, rfl⟩ := hagain.post (hfollowed.refuses hserver hlimits hrepeatable)
    refine ⟨iff_of_false ?_ hrepeatable, fun again h ↦ by cases h⟩
    rintro ⟨again, h⟩
    cases h

/-- A pull whose first page is the last succeeds when the client admits the page and can replace the
refs. -/
theorem pull_succeeds (hL : L.WellFormed) (hS : S.WellFormed) (hlimits : config.limits.Checked)
    (hopened : Opens B limits responseLimit config L S)
    (hsome : requestedHeads S config.context ≠ [])
    (hrequested : requestedHeads S config.context = requested)
    (hknown : knownHeads L config = known)
    (hexpected : requestedHeadFingerprint B config.context requested = .ok expectedHeads)
    (round : Round B limits responseLimit config requested known expectedHeads L S .start 0)
    (hlast : round.next = none) {t : Tables} {count : ℕ}
    (hreplaced : replaceRemoteRefSnapshot B config.peer config.context
      (advertised S config.context) (L.admitAll round.events).tables = .ok (t, count)) :
    Keeps (Undisturbed B limits responseLimit) (fun _ ↦ True) (pull B config).run
      (fun result _ ↦ ∃ report, result = .ok report) ⟨[], ⟨L.tables, S.tables, foreign⟩⟩ := by
  subst hrequested hknown
  obtain ⟨⟨-, -, hnonzero, -⟩, -⟩ := PullLimits.new_eq_ok.mp hlimits
  obtain ⟨left, hleft⟩ := Nat.exists_eq_succ_of_ne_zero hnonzero
  apply hopened.pull hL hS hsome
  intro wire «local» remote expectedHeads' _ _ _ hexpected'
  obtain rfl : expectedHeads = expectedHeads' := Except.ok.inj (hexpected.symm.trans hexpected')
  rw [hleft]
  apply round.completes hlimits (hopened.heads hS hsome) (rendered_start B) hlast
  exact publish_ends hreplaced ⟨_, rfl⟩

section Golden

open Reference

/-- A client that holds the genesis, and no branch, follows the fixture when the server reads its
request. -/
theorem rooted_follows (limits : TransportLimits) (hrequest : ∀ wire, (PullState.start.request
      (onePagePull MAX_BUNDLE_CANONICAL_BYTES) [Golden.second.id] []).toWire Golden.B = .ok wire →
        wire.length ≤ limits.maxRequestBodyBytes)
    (hresponse : limits.maxResponseBodyBytes = MAX_SYNC_RESPONSE_BODY_BYTES) :
    ∃ (report : PullReport) (s : MeetingHistory),
      Runs (Undisturbed Golden.B limits MAX_SYNC_RESPONSE_BODY_BYTES)
        (pull Golden.B (onePagePull MAX_BUNDLE_CANONICAL_BYTES)).run
        ⟨[], ⟨Golden.rooted.tables, Golden.advanced.tables, []⟩⟩ (.done (.ok report)) s := by
  have hclient := Golden.rooted_wellFormed
  have hserver := Golden.advanced_wellFormed
  have hchecked : (onePagePull MAX_BUNDLE_CANONICAL_BYTES).limits.Checked :=
    onePagePull_checked (by decide)
  have hknown : knownHeads Golden.rooted (onePagePull MAX_BUNDLE_CANONICAL_BYTES) = [] := rfl
  have hrequested := onePagePull_requested MAX_BUNDLE_CANONICAL_BYTES
  obtain ⟨hopened, hsome, hheads, expectedHeads, hexpected⟩ :=
    advanced_ready limits hknown (Nat.zero_le _)
  obtain ⟨answered, hlast, hplan, -⟩ := advanced_answers limits hchecked hheads hrequest hresponse
    (Or.inl ⟨rfl, rfl⟩) hexpected
  -- the page is all of the plan
  have hlisted : answered.response.bundle.events =
      [Golden.first, Golden.second].map StoredEvent.event := by
    have haccepted := answered.accepted
    rw [hlast, hplan rfl] at haccepted
    have hend : 0 + answered.response.bundle.events.length = 2 := haccepted.advances
    have hevents := haccepted.events hserver whole_planned whole_unmarked
    rw [Nat.zero_add] at hend
    rwa [hend] at hevents
  obtain ⟨hfirst, hkept, -⟩ :=
    @Ledger.WellFormed.admitAll_stored _ _ [Golden.first] hclient fun e he ↦ he
  have hadmits : Golden.rooted.AdmitsAll ([Golden.first] ++ [Golden.second]) := by
    refine Ledger.admitsAll_append.mpr ⟨hfirst, ?_, trivial⟩
    rw [hkept]
    exact Golden.second_admits Golden.rooted rfl rfl rfl
  obtain ⟨round, rfl, hevents, -⟩ := answered.admitted hclient hserver hchecked (.start _)
    (by decide : 0 < MAX_PULL_PAGES) (BundleV1.toWire_eq_ok.mp answered.bundled).2.1
    (Option.some_ne_none _) hlisted hadmits
  have hwell := hclient.admitAll hadmits
  have hstored : Golden.second ∈ (Golden.rooted.admitAll [Golden.first, Golden.second]).events :=
    (Ledger.mem_events_admitAll hclient hadmits).mpr (Or.inr (List.mem_of_mem_getLast? rfl))
  have hreplaced : ∃ replaced, replaceRemoteRefSnapshot Golden.B Golden.peer Golden.context
      (advertised Golden.advanced Golden.context)
      (Golden.rooted.admitAll [Golden.first, Golden.second]).tables = .ok replaced := by
    refine ⟨⟨_, _⟩, (Ledger.replaceRemoteRefSnapshot_eq_ok hwell).mpr
      ⟨(by decide : 1 ≤ MAX_BUNDLE_REFS), canonical_singleton _ _,
        hwell.registration_of_mem hstored, ?_, rfl, rfl⟩⟩
    intro item hitem
    have hbranch : (⟨Golden.context, item.name, item.head⟩ : LocalRef) =
        ⟨Golden.context, Golden.main, Golden.second.id⟩ :=
      List.mem_singleton.mp (mem_advertised.mp hitem)
    rw [(LocalRef.mk.inj hbranch).2.2]
    exact ⟨Golden.second, hstored, rfl, rfl⟩
  obtain ⟨⟨t, count⟩, hreplaced⟩ := hreplaced
  rw [← hevents] at hreplaced
  obtain ⟨result, s, hrun⟩ := Runs.finishes Undisturbed.total
    (pull Golden.B (onePagePull MAX_BUNDLE_CANONICAL_BYTES)).run
    ⟨[], ⟨Golden.rooted.tables, Golden.advanced.tables, []⟩⟩
  obtain ⟨report, rfl⟩ := hrun.post (pull_succeeds hclient hserver hchecked hopened hsome
    hrequested hknown hexpected round hlast hreplaced)
  exact ⟨report, s, hrun⟩

/-- Behind the fixture the client knows its one head. -/
theorem rooted_followed : followedHeads Golden.rooted Golden.advanced Golden.context =
    [Golden.second.id] :=
  normalize_eq_self (canonical_singleton _ _)

theorem rooted_heads {known : List EventId} (hfew : known.length ≤ 1)
    (hcanonical : Canonical (EventId.text Golden.B) known) :
    Heads Golden.B [Golden.second.id] known :=
  ⟨List.cons_ne_nil _ _, canonical_singleton _ _, hcanonical, (by decide : 1 ≤ MAX_BUNDLE_REFS),
    hfew.trans (by decide)⟩

theorem rooted_repeatable : Repeatable Golden.B .default (onePagePull MAX_BUNDLE_CANONICAL_BYTES)
    Golden.rooted Golden.advanced := by
  have hchecked : (onePagePull MAX_BUNDLE_CANONICAL_BYTES).limits.Checked :=
    onePagePull_checked (by decide)
  have hfollowed : followedHeads Golden.rooted Golden.advanced
      (onePagePull MAX_BUNDLE_CANONICAL_BYTES).context = [Golden.second.id] := rooted_followed
  have hfew : [Golden.second.id].length ≤ MAX_BUNDLE_REFS := (by decide : 1 ≤ MAX_BUNDLE_REFS)
  refine ⟨by rwa [hfollowed], fun _ wire hwire ↦ ?_, fun _ ↦ ?_⟩
  · rw [onePagePull_requested, hfollowed] at hwire
    exact (rooted_heads le_rfl (canonical_singleton _ _)).length_request_le hchecked
      (rendered_start _) wire hwire
  · rw [hfollowed]
    obtain ⟨plan, hplan, -⟩ := advanced_planned hfew (Or.inr (List.mem_singleton_self _))
    have hheld : Golden.second.id ∈ Golden.advanced.heldHeads Golden.context [Golden.second.id] :=
      (Ledger.mem_heldHeads Golden.advanced_wellFormed.toWellKeyed).mpr
        ⟨List.mem_singleton_self _, Golden.second, second_stored, rfl, rfl⟩
    exact planOn_projects hplan (List.ne_nil_of_mem hheld)

theorem pull_again_rooted : ∃ (report : PullReport) (s : MeetingHistory),
    Runs (Undisturbed Golden.B .default MAX_SYNC_RESPONSE_BODY_BYTES)
      (pull Golden.B (onePagePull MAX_BUNDLE_CANONICAL_BYTES)).run
      ⟨[], ⟨Golden.rooted.tables, Golden.advanced.tables, []⟩⟩ (.done (.ok report)) s ∧
    ∃ (again : PullReport) (s' : MeetingHistory),
      Runs (Undisturbed Golden.B .default MAX_SYNC_RESPONSE_BODY_BYTES)
        (pull Golden.B (onePagePull MAX_BUNDLE_CANONICAL_BYTES)).run s (.done (.ok again)) s' ∧
      again.inserted = 0 ∧ again.remoteRefsUpdated = 0 ∧ s'.now = s.now := by
  have hchecked : (onePagePull MAX_BUNDLE_CANONICAL_BYTES).limits.Checked :=
    onePagePull_checked (by decide)
  have hheads : Heads Golden.B [Golden.second.id] [] :=
    rooted_heads (Nat.zero_le 1) (canonical_nil _)
  obtain ⟨report, s, hrun⟩ := rooted_follows .default
    (hheads.length_request_le hchecked (rendered_start _)) rfl
  obtain ⟨⟨result, s', hagain⟩, hexact⟩ := pull_again Golden.B Golden.rooted Golden.advanced
    Golden.rooted_wellFormed Golden.advanced_wellFormed _ hchecked .default report s hrun s.turns
  obtain ⟨hiff, hnothing⟩ := hexact result s' hagain
  obtain ⟨again, rfl⟩ := hiff.mpr rooted_repeatable
  exact ⟨report, s, hrun, again, s', hagain, hnothing again rfl⟩

/-- A server that reads requests just as long as the first one answers the first pull. The second
request lists a known head and is longer, so the second pull fails. -/
theorem rooted_refused : ∃ (limits : TransportLimits) (report : PullReport) (s s' : MeetingHistory)
    (error : SyncError),
    TransportLimits.new limits.maxRequestBodyBytes limits.maxResponseBodyBytes = .ok limits ∧
    Runs (Undisturbed Golden.B limits MAX_SYNC_RESPONSE_BODY_BYTES)
      (pull Golden.B (onePagePull MAX_BUNDLE_CANONICAL_BYTES)).run
      ⟨[], ⟨Golden.rooted.tables, Golden.advanced.tables, []⟩⟩ (.done (.ok report)) s ∧
    Runs (Undisturbed Golden.B limits MAX_SYNC_RESPONSE_BODY_BYTES)
      (pull Golden.B (onePagePull MAX_BUNDLE_CANONICAL_BYTES)).run s (.done (.error error)) s' := by
  have hchecked : (onePagePull MAX_BUNDLE_CANONICAL_BYTES).limits.Checked :=
    onePagePull_checked (by decide)
  have hheads : Heads Golden.B [Golden.second.id] [] :=
    rooted_heads (Nat.zero_le 1) (canonical_nil _)
  obtain ⟨wire, hwire⟩ := (PullState.start.request (onePagePull MAX_BUNDLE_CANONICAL_BYTES)
    [Golden.second.id] []).toWire_total (B := Golden.B)
  have hlength := ExportRequest.length_toWire hwire
  have hshort := hheads.length_request_le hchecked (rendered_start _) wire hwire
  have hlimits : TransportLimits.new wire.length MAX_SYNC_RESPONSE_BODY_BYTES =
      .ok ⟨wire.length, MAX_SYNC_RESPONSE_BODY_BYTES⟩ := by
    rw [TransportLimits.new, ensure_true, ok_bind]
    rintro (hzero | hlarge | hzero | hlarge)
    · omega
    · exact absurd hlarge (Nat.not_lt.mpr hshort)
    · exact absurd hzero (by decide)
    · exact absurd hlarge (lt_irrefl _)
  obtain ⟨report, s, hrun⟩ := rooted_follows ⟨wire.length, MAX_SYNC_RESPONSE_BODY_BYTES⟩
    (fun other hother ↦ by rw [Except.ok.inj (hother.symm.trans hwire)]) rfl
  -- the second request is longer by the known head
  have hrefused : ¬ Repeatable Golden.B ⟨wire.length, MAX_SYNC_RESPONSE_BODY_BYTES⟩
      (onePagePull MAX_BUNDLE_CANONICAL_BYTES) Golden.rooted Golden.advanced := by
    intro hrepeatable
    have hfits := hrepeatable.fits
    have hfollowed : followedHeads Golden.rooted Golden.advanced
        (onePagePull MAX_BUNDLE_CANONICAL_BYTES).context = [Golden.second.id] := rooted_followed
    rw [onePagePull_requested, hfollowed] at hfits
    obtain ⟨longer, hlonger⟩ := (PullState.start.request
      (onePagePull MAX_BUNDLE_CANONICAL_BYTES) [Golden.second.id]
      [Golden.second.id]).toWire_total (B := Golden.B)
    have hle := hfits (List.cons_ne_nil _ _) longer hlonger
    rw [ExportRequest.length_toWire hlonger, hlength] at hle
    simp only [PullState.request, length_headsValue, List.length_cons, List.length_nil] at hle
    omega
  obtain ⟨N, hnow, hfollowed⟩ := hrun.post
    (pull_follows Golden.rooted_wellFormed Golden.advanced_wellFormed hchecked) report rfl
  obtain ⟨result, s', hagain⟩ := Runs.finishes Undisturbed.total
    (pull Golden.B (onePagePull MAX_BUNDLE_CANONICAL_BYTES)).run s
  obtain ⟨turns, now⟩ := s
  dsimp only at hnow
  subst hnow
  obtain ⟨error, rfl⟩ := hagain.post
    (hfollowed.refuses Golden.advanced_wellFormed hchecked hrefused)
  exact ⟨_, report, _, s', error, hlimits, hrun, hagain⟩

end Golden

end ContextMesh.Sync
