import ContextMesh.Sync.Safety

/-!
One round of a pull from an honest server. The page loop stands somewhere in a plan; its request is
one the server reads, the page it is answered is what the next slice of the plan reads as, and the
checks of the client let it pass and move on by exactly that slice.
-/

set_option autoImplicit false
set_option relaxedAutoImplicit false

namespace ContextMesh.Sync

open Checked Ordered Contract Store Paging

variable {B : Boundary}

/-! ### The pages of a plan -/

variable (B) in
/-- So many pages lead from one offset of a plan to another. -/
inductive Pages (context : ContextId) (limits : PullLimits) (plan : List SignedEventV1) :
    ℕ → ℕ → ℕ → Prop
  | refl (offset : ℕ) : Pages context limits plan offset 0 offset
  | page {offset count pages stop : ℕ} (first : PageAt B context limits plan offset count)
      (rest : Pages context limits plan (offset + count) pages stop) :
      Pages context limits plan offset (pages + 1) stop

theorem Pages.le {context : ContextId} {limits : PullLimits} {plan : List SignedEventV1}
    {start pages stop : ℕ} (h : Pages B context limits plan start pages stop) :
    start + pages ≤ stop := by
  induction h with
  | refl => exact le_rfl
  | page first rest ih =>
    have := first.fits.1
    omega

/-- More pages lead further. -/
theorem Pages.mono {context : ContextId} {limits : PullLimits} {plan : List SignedEventV1}
    {start pages pages' stop stop' : ℕ} (h : Pages B context limits plan start pages stop)
    (h' : Pages B context limits plan start pages' stop') (hle : pages ≤ pages') :
    stop ≤ stop' := by
  induction h generalizing pages' with
  | refl => exact Nat.le_of_add_right_le h'.le
  | page first rest ih =>
    cases h' with
    | refl => exact absurd hle (Nat.not_succ_le_zero _)
    | page first' rest' =>
      rw [← first.unique first'] at rest'
      exact ih rest' (Nat.le_of_succ_le_succ hle)

/-- One more page at the end. -/
theorem Pages.snoc {context : ContextId} {limits : PullLimits} {plan : List SignedEventV1}
    {start pages stop count : ℕ} (h : Pages B context limits plan start pages stop)
    (last : PageAt B context limits plan stop count) :
    Pages B context limits plan start (pages + 1) (stop + count) := by
  induction h with
  | refl => exact .page last (.refl _)
  | page first rest ih => exact .page first (ih last)

/-! ### The request -/

/-- The heads of a pull: sorted, and few enough for a request. -/
structure Heads (B : Boundary) (requested known : List EventId) : Prop where
  nonempty : requested ≠ []
  sortedRequested : Canonical (EventId.text B) requested
  sortedKnown : Canonical (EventId.text B) known
  fewRequested : requested.length ≤ MAX_BUNDLE_REFS
  fewKnown : known.length ≤ MAX_BUNDLE_REFS

/-- The limits of a client as the server reads them: the page bound is not on the wire. -/
def PullLimits.carried (limits : PullLimits) : PullLimits :=
  { limits with maxPages := MAX_PULL_PAGES }

/-- The limits of a client were checked when they were made. -/
def PullLimits.Checked (limits : PullLimits) : Prop :=
  PullLimits.new limits.maxEvents limits.maxBundleBytes limits.maxPages = .ok limits

/-- The request that the page loop makes in a state. -/
def PullState.request (config : PullClientConfig) (requested known : List EventId)
    (state : PullState) : ExportRequest :=
  ⟨config.context, requested, known, state.cursor, config.limits⟩

/-- The request as the server reads it. -/
def PullState.carried (config : PullClientConfig) (requested known : List EventId)
    (state : PullState) : ExportRequest :=
  ⟨config.context, requested, known, state.cursor, config.limits.carried⟩

variable {config : PullClientConfig} {requested known : List EventId} {state : PullState}

theorem Heads.validated (h : Heads B requested known) :
    validateSortedHeads B requested false = .ok () ∧ validateSortedHeads B known true = .ok () := by
  constructor
  · exact ensure_true ⟨fun hnone ↦ h.nonempty hnone.2, h.sortedRequested⟩
  · exact ensure_true ⟨fun hnone ↦ Bool.noConfusion hnone.1, h.sortedKnown⟩

/-- A request of the page loop has a wire within the bound of the client. The server reads it back
without the page bound. -/
theorem Heads.request (h : Heads B requested known) (hlimits : config.limits.Checked)
    (hcursor : Rendered B state.cursor) :
    ExportRequest.new B config.context requested known state.cursor config.limits =
        .ok (state.request config requested known) ∧
      ∃ wire, (state.request config requested known).toWire B = .ok wire ∧
        wire.length ≤ MAX_PULL_REQUEST_BODY_BYTES ∧
        ExportRequest.fromWire B wire = .ok (state.carried config requested known) := by
  have hnew : ExportRequest.new B config.context requested known state.cursor config.limits =
      .ok (state.request config requested known) :=
    ExportRequest.new_eq_ok.mpr
      ⟨⟨h.validated.1, h.validated.2, h.fewRequested, h.fewKnown⟩, rfl⟩
  obtain ⟨wire, hwire⟩ := (state.request config requested known).toWire_total (B := B)
  obtain ⟨⟨hevents, hbytes, -⟩, -⟩ := PullLimits.new_eq_ok.mp hlimits
  refine ⟨hnew, wire, hwire, ?_, ExportRequest.fromWire_toWire hlimits hnew hwire⟩
  exact ExportRequest.length_toWire_le hwire hcursor ⟨h.fewRequested, h.fewKnown⟩
    ⟨hevents.2, hbytes.2⟩

variable (B) in
theorem rendered_start : Rendered B PullState.start.cursor := fun text htext ↦
  absurd htext (Option.not_mem_none text)

theorem Heads.length_request_le (h : Heads B requested known) (hlimits : config.limits.Checked)
    (hcursor : Rendered B state.cursor) : ∀ wire,
      (state.request config requested known).toWire B = .ok wire →
        wire.length ≤ MAX_PULL_REQUEST_BODY_BYTES := by
  intro wire hwire
  obtain ⟨-, wire', hwire', hsize, -⟩ := h.request hlimits hcursor
  rwa [Except.ok.inj (hwire.symm.trans hwire')]

/-! ### The answer -/

/-- The page loop stands at an offset of a plan, and has counted every event up to there. -/
structure Stands (B : Boundary) (config : PullClientConfig) (requested effective : List EventId)
    (offset : ℕ) (state : PullState) : Prop where
  expected : state.expectedOffset = offset
  received : state.report.received = offset
  counted : state.report.inserted + state.report.alreadyPresent = offset
  reads : readCursor B state.cursor = .ok (offset, state.cursorFingerprint)
  rendered : Rendered B state.cursor
  pinned : ∀ fingerprint ∈ state.cursorFingerprint,
    planFingerprint B config.context requested effective config.limits.carried = .ok fingerprint

theorem Stands.start (effective : List EventId) :
    Stands B config requested effective 0 .start where
  expected := rfl
  received := rfl
  counted := rfl
  reads := rfl
  rendered text htext := absurd htext (Option.not_mem_none text)
  pinned fingerprint hmem := absurd hmem (Option.not_mem_none fingerprint)

/-- What the client makes of a page: it stops at the end of the plan, or goes on behind the page
with a cursor of the plan. -/
def Advances (B : Boundary) (config : PullClientConfig) (requested effective : List EventId)
    (plan : List SignedEventV1) (offset : ℕ) : Option (ℕ × Fixed 32 × String) → Prop
  | none => offset = plan.length
  | some (next, fingerprint, cursor) => next = offset ∧ offset < plan.length ∧
    encodeCursor B offset fingerprint = .ok cursor ∧
    planFingerprint B config.context requested effective config.limits.carried = .ok fingerprint

/-- The answer of an honest server is a page that the client accepts: what the next slice of the
plan reads as. -/
structure Accepted (B : Boundary) (config : PullClientConfig) (requested effective : List EventId)
    (plan : List SignedEventV1) (offset : ℕ) (response : ExportResponse B)
    (next : Option (ℕ × Fixed 32 × String)) : Prop where
  context : response.context = config.context
  slice : List.Forall₂ (SignedEventV1.ReadsAs B)
    ((plan.drop offset).take response.bundle.events.length) response.bundle.events
  within : offset + response.bundle.events.length ≤ plan.length
  bounded : response.bundle.events.length ≤ config.limits.maxEvents
  page : plan ≠ [] → PageAt B config.context config.limits plan offset
    response.bundle.events.length
  fits : plan = [] ∨ ∃ wire, response.bundle.toWire = .ok wire ∧
    wire.length ≤ config.limits.maxBundleBytes
  advances : Advances B config requested effective plan (offset + response.bundle.events.length)
    next

/-- The client accepts what the server answers, once it has parsed it. -/
theorem Stands.accepts {S : Ledger B} (hS : S.WellFormed) {limits : TransportLimits}
    {wire body : Bytes} {plan : List SignedEventV1} {offset : ℕ} {expectedHeads : String}
    {response : ExportResponse B}
    (h : Stands B config requested (S.heldHeads config.context known) offset state)
    (hreads : ExportRequest.fromWire B wire = .ok (state.carried config requested known))
    (hanswer : postExport B limits S.tables wire = .ok body)
    (hparsed : ExportResponse.fromWire B body = .ok response)
    (hplan : planOn B S.tables config.context requested (S.heldHeads config.context known) =
      .ok plan)
    (hexpected : requestedHeadFingerprint B config.context requested = .ok expectedHeads) :
    ∃ next, checkPage B config expectedHeads state response = .ok next ∧
      Accepted B config requested (S.heldHeads config.context known) plan offset response next := by
  obtain ⟨-, -, served, hserved, hwire⟩ := (postExport_eq_ok hreads).mp hanswer
  obtain ⟨offset', count, supplied, plan', fingerprint, hpage, hpageAt⟩ :=
    exportResponse_eq_ok hS hreads hserved
  -- what is parsed has the fields of what was served, and the events that its own read as
  obtain ⟨⟨hcontext, hfingerprint, hsameCursor, hsameComplete⟩, bytes, hbytes, hbytes', hbundle⟩ :=
    ExportResponse.fromWire_reading hwire hparsed
  have hevents := BundleV1.fromWire_reads hbytes hbundle
  obtain ⟨rfl, rfl⟩ := Prod.mk.inj (Except.ok.inj (h.reads.symm.trans hpage.reads))
  obtain rfl : plan = plan' := Except.ok.inj (hplan.symm.trans hpage.planned)
  have hwithin := hpage.within
  have hlength : response.bundle.events.length = count := by
    rw [← hevents.length_eq, hpage.events, List.length_take, List.length_drop]
    omega
  have hcontext' : response.context = config.context := hcontext.trans hpage.context
  have hheads : response.requestedHeadFingerprint = expectedHeads :=
    hfingerprint.trans (Except.ok.inj (hpage.heads.symm.trans hexpected))
  have hnext := hpage.nextCursor
  have hcomplete := hsameComplete.trans hpage.complete
  rw [← hsameCursor] at hnext hcomplete
  have hfits : plan = [] ∨ ∃ wire, response.bundle.toWire = .ok wire ∧
      wire.length ≤ config.limits.maxBundleBytes := by
    refine hpage.fits.imp_right ?_
    rintro ⟨wire, hwire, hshort⟩
    exact ⟨bytes, hbytes', Except.ok.inj (hwire.symm.trans hbytes) ▸ hshort⟩
  have haccepted {next : Option (ℕ × Fixed 32 × String)} (hadvances : Advances B config requested
      (S.heldHeads config.context known) plan (offset + count) next) :
      Accepted B config requested (S.heldHeads config.context known) plan offset response next :=
    ⟨hcontext', by rwa [hlength, ← hpage.events], hlength ▸ hwithin, hlength ▸ hpage.bounded,
      hevents.length_eq ▸ hpageAt, hfits, hlength ▸ hadvances⟩
  cases hposition : position plan (offset + count) with
  | none =>
    rw [hposition, writeCursor, Except.ok.injEq] at hnext
    rw [← hnext, Option.isNone_none] at hcomplete
    have hend : offset + count = plan.length :=
      le_antisymm hwithin (position_eq_none.mp hposition)
    exact ⟨none, checkPage_last ⟨hcontext', hheads⟩ hcomplete, haccepted hend⟩
  | some next =>
    obtain ⟨hmore, rfl⟩ := position_eq_some.mp hposition
    rw [hposition] at hnext
    obtain ⟨cursor, hencode, hcursor⟩ := bind_eq_ok.mp hnext
    rw [Except.ok.injEq] at hcursor
    rw [← hcursor, Option.isNone_some] at hcomplete
    have hpositive : 1 ≤ count := hpage.positive.resolve_left fun hempty ↦ by
      rw [hempty] at hmore
      exact absurd hmore (Nat.not_lt_zero _)
    have hsome : response.bundle.events ≠ [] := fun hnone ↦ by
      rw [hnone, List.length_nil] at hlength
      omega
    have hword : state.expectedOffset + response.bundle.events.length < 2 ^ 64 := by
      have hshort := Ledger.planOn_length hS hplan
      have hmax : MAX_PROJECTION_EVENTS < 2 ^ 64 := by decide
      rw [h.expected, hlength]
      omega
    have hoffset : state.expectedOffset + response.bundle.events.length = offset + count := by
      rw [h.expected, hlength]
    have hdecode := decodeCursor_encodeCursor hencode
    rw [← hoffset] at hdecode
    refine ⟨some (offset + count, fingerprint, cursor), ?_,
      haccepted ⟨rfl, hmore, hencode, hpage.pinned⟩⟩
    rw [← hoffset]
    exact checkPage_more ⟨hcontext', hheads⟩ hcomplete hsome hcursor.symm hdecode hword hpage.agrees

/-- Behind an accepted page the loop stands at the end of the page. -/
theorem Stands.next {effective : List EventId} {plan : List SignedEventV1} {offset : ℕ}
    {response : ExportResponse B} {next : ℕ} {fingerprint : Fixed 32} {cursor : String}
    (h : Stands B config requested effective offset state)
    (haccepted : Accepted B config requested effective plan offset response
      (some (next, fingerprint, cursor))) {report : PullReport} {imported : ImportReport}
    (hreport : state.report.addPage response imported = .ok report)
    (hcount : imported.inserted + imported.alreadyPresent = response.bundle.events.length) :
    Stands B config requested effective (offset + response.bundle.events.length)
      ⟨report, some cursor, next, some fingerprint⟩ := by
  obtain ⟨rfl, -, hencode, hpinned⟩ := haccepted.advances
  obtain ⟨-, rfl⟩ := PullReport.addPage_eq_ok.mp hreport
  have hreceived := h.received
  have hcounted := h.counted
  exact {
    expected := rfl
    received := congrArg (· + _) hreceived
    counted := by
      dsimp only
      omega
    reads := readCursor_encodeCursor hencode
    rendered := fun text htext ↦ by
      rw [← Option.mem_some_iff.mp htext]
      exact ⟨_, fingerprint, hencode⟩
    pinned := fun value hvalue ↦ by
      rw [← Option.mem_some_iff.mp hvalue]
      exact hpinned }

/-- The counters of a pull stay within the word. -/
theorem Stands.addPage {effective : List EventId} {plan : List SignedEventV1} {offset : ℕ}
    {response : ExportResponse B} {next : Option (ℕ × Fixed 32 × String)}
    (h : Stands B config requested effective offset state)
    (haccepted : Accepted B config requested effective plan offset response next)
    (hplan : plan.length ≤ MAX_PROJECTION_EVENTS) (hpages : state.report.pages < MAX_PULL_PAGES)
    {imported : ImportReport}
    (hcount : imported.inserted + imported.alreadyPresent = response.bundle.events.length) :
    ∃ report, state.report.addPage response imported = .ok report ∧
      report.pages = state.report.pages + 1 := by
  have hwithin := haccepted.within
  have hreceived := h.received
  have hcounted := h.counted
  have hword : MAX_PROJECTION_EVENTS < 2 ^ 64 ∧ MAX_PULL_PAGES < 2 ^ 64 := by decide
  exact ⟨_, PullReport.addPage_eq_ok.mpr ⟨⟨by omega, by omega, by omega, by omega⟩, rfl⟩, rfl⟩

end ContextMesh.Sync
