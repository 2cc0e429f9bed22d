import ContextMesh.Sync.Pull
import ContextMesh.Sync.Serving
import ContextMesh.Ledger.Batch

/-!
A pull from any server. Whatever the peer answers and wherever the run stops, the pull only appends
events of its context, and it touches the refs of its peer only at the end, when every head of the
snapshot is stored with all its ancestors.
-/

set_option autoImplicit false
set_option relaxedAutoImplicit false

namespace ContextMesh.Sync

open Checked Ordered Contract Store Interaction

variable {B : Boundary}

/-! ### The import of a page -/

/-- The import of an accepted page succeeds within the limits, exactly when the ledger admits its
events in order. -/
theorem importPage_eq_ok {L : Ledger B} (h : L.WellFormed) {input : Bytes}
    {response : ExportResponse B} (hresponse : ExportResponse.fromWire B input = .ok response)
    {wire : Bytes} (hwire : response.bundle.toWire = .ok wire) {peer : PeerName}
    {limits : BundleLimits} {t : Tables} {report : ImportReport} :
    importBundle B peer wire limits L.tables = .ok (t, report) ↔
      (validateBundleLimits limits = .ok () ∧ wire.length ≤ limits.maxCanonicalBytes ∧
        response.bundle.events.length ≤ limits.maxEvents) ∧
      L.registration response.context ≠ none ∧ ∃ es : List (StoredEvent B),
        response.bundle.events = es.map StoredEvent.event ∧
        (∀ e ∈ es, e.context = response.context) ∧ L.AdmitsAll es ∧
        t = (L.admitAll es).tables ∧
        report = ⟨L.newCount es, es.length - L.newCount es, 0⟩ := by
  obtain ⟨-, hcontext, hrefs, -⟩ := ExportResponse.fromWire_eq_ok hresponse
  obtain ⟨source, hsource⟩ := ExportResponse.bundle_of_fromWire hresponse
  obtain ⟨-, hsettled, -⟩ := BundleV1.fromWire_eq_ok hsource
  have hparse :=
    BundleV1.fromWire_of_settled (ExportResponse.unmarked_of_fromWire hresponse) hsettled hwire
  obtain ⟨es, hes⟩ := exists_stored (BundleV1.fromWire_authentic hsource)
  have hcontexts : ∀ e ∈ es, e.context = response.bundle.context := fun e he ↦
    response.bundle.event_context e.event (hes ▸ List.mem_map_of_mem he)
  have hvalue :=
    @Ledger.importBundleValue_eq_ok B L h peer response.bundle es hes hcontexts t report
  rw [hrefs, hcontext] at hvalue
  rw [importBundle_eq_ok, ← hcontext]
  constructor
  · rintro ⟨hlimits, hlength, bundle, hbundle, hevents, -, -, hok⟩
    obtain rfl : response.bundle = bundle := Except.ok.inj (hparse.symm.trans hbundle)
    obtain ⟨hregistered, hadmits, -, ht, hreport⟩ := hvalue.mp hok
    exact ⟨⟨hlimits, hlength, hevents⟩, hcontext ▸ hregistered, es, hes, hcontexts, hadmits, ht,
      hreport⟩
  · rintro ⟨⟨hlimits, hlength, hevents⟩, hregistered, fs, hfs, -, hadmits, rfl, rfl⟩
    have hsame : fs = es := List.map_injective_iff.mpr (fun _ _ ↦ StoredEvent.ext_event)
      (hfs.symm.trans hes)
    subst hsame
    refine ⟨hlimits, hlength, _, hparse, hevents, ?_, ⟨wire, hwire, hlength⟩, ?_⟩
    · rw [hrefs]
      exact Nat.zero_le _
    · refine hvalue.mpr ⟨hcontext ▸ hregistered, hadmits, fun item hitem ↦ ?_, rfl, rfl⟩
      exact absurd hitem List.not_mem_nil

/-! ### A client alone with its peer -/

/-- What a pull has done to its store, and what it was answered. -/
abbrev PullHistory := History (Action PeerRequest) (Action.Answer PeerRequest.Reply) Tables

abbrev PullTurn := Turn (Action PeerRequest) (Action.Answer PeerRequest.Reply) Tables

/-- No one else writes to the store and the peer answers what it likes. A transaction that reports
an error has not committed. -/
abbrev Alone (B : Boundary) :
    Effect (Action PeerRequest) (Action.Answer PeerRequest.Reply) PullHistory :=
  History.Occurs (Action.Occurs B (· ≠ Fault.unacknowledged) PeerRequest.Reply) fun _ _ ↦ False

def requestsPage : Action PeerRequest → Bool
  | .ask (.postExport _) => true
  | _ => false

/-- The number of pages requested so far. -/
def pagesRequested (s : PullHistory) : ℕ := s.turns.countP fun turn ↦ requestsPage turn.action

theorem Alone.turn {action : Action PeerRequest} {answer : action.Answer PeerRequest.Reply}
    {s s' : PullHistory} (h : Alone B action s answer s') :
    Action.Occurs B (· ≠ Fault.unacknowledged) PeerRequest.Reply action s.now answer s'.now ∧
      s'.turns = s.turns ++ [⟨[], s.now, action, answer, s'.now⟩] :=
  History.occurs_alone h

/-! ### What a pull keeps -/

/-- Events of one context are appended, and allowlists and branches stay. -/
structure Appends (L L' : Ledger B) (context : ContextId) : Prop where
  wellFormed : L'.WellFormed
  events : ∃ added, L'.events = L.events ++ added ∧ ∀ e ∈ added, e.context = context
  authors : L'.authors = L.authors
  localRefs : L'.localRefs = L.localRefs

theorem Appends.refl {L : Ledger B} (h : L.WellFormed) (context : ContextId) :
    Appends L L context :=
  ⟨h, ⟨[], (List.append_nil _).symm, fun _ he ↦ absurd he List.not_mem_nil⟩, rfl, rfl⟩

theorem events_admitAll {L : Ledger B} (es : List (StoredEvent B)) :
    ∃ added, (L.admitAll es).events = L.events ++ added ∧ ∀ e ∈ added, e ∈ es := by
  induction es generalizing L with
  | nil => exact ⟨[], (List.append_nil _).symm, fun _ he ↦ he⟩
  | cons e rest ih =>
    obtain ⟨added, hadded, hmem⟩ := ih (L := L.admitted e)
    have hrest : ∀ f ∈ added, f ∈ e :: rest := fun f hf ↦ List.mem_cons_of_mem _ (hmem f hf)
    change ∃ added, ((L.admitted e).admitAll rest).events = _ ∧ _
    rw [hadded, Ledger.admitted]
    split_ifs
    · refine ⟨e :: added, List.append_assoc _ _ _, List.forall_mem_cons.mpr ⟨?_, hrest⟩⟩
      exact List.mem_cons_self
    · exact ⟨added, rfl, hrest⟩

/-- Admitting events of the context appends them. -/
theorem Appends.admitAll {L M : Ledger B} {context : ContextId} (h : Appends L M context)
    {es : List (StoredEvent B)} (hcontext : ∀ e ∈ es, e.context = context)
    (hadmits : M.AdmitsAll es) : Appends L (M.admitAll es) context := by
  obtain ⟨added, hevents, hadded⟩ := h.events
  obtain ⟨more, hmore, hmem⟩ := events_admitAll (L := M) es
  obtain ⟨hauthors, hlocal, -⟩ := Ledger.admitAll_refs (L := M) es
  refine ⟨h.wellFormed.admitAll hadmits, ⟨added ++ more, ?_, fun e he ↦ ?_⟩,
    hauthors.trans h.authors, hlocal.trans h.localRefs⟩
  · rw [hmore, hevents, List.append_assoc]
  · rcases List.mem_append.mp he with he | he
    · exact hadded e he
    · exact hcontext e (hmem e he)

/-- The store before the refs of the peer are replaced, with the opening turn and a bound on the
pages requested so far. -/
def Transferring (L : Ledger B) (config : PullClientConfig) (opening : PullTurn) (pages : ℕ)
    (s : PullHistory) : Prop :=
  ∃ L' : Ledger B, s.now = L'.tables ∧ Appends L L' config.context ∧
    L'.remoteRefs = L.remoteRefs ∧ opening ∈ s.turns ∧ pagesRequested s ≤ pages

/-- What holds at every moment of a pull. -/
def Safe (L : Ledger B) (config : PullClientConfig) (s : PullHistory) : Prop :=
  ∃ L' : Ledger B, s.now = L'.tables ∧ Appends L L' config.context ∧
    (∀ ref : RemoteRef, ¬ (ref.peer = config.peer ∧ ref.context = config.context) →
      (ref ∈ L'.remoteRefs ↔ ref ∈ L.remoteRefs)) ∧
    pagesRequested s ≤ config.limits.maxPages

variable {L : Ledger B} {config : PullClientConfig} {opening : PullTurn} {pages : ℕ}
  {s s' : PullHistory}

theorem Transferring.safe (h : Transferring L config opening pages s)
    (hpages : pages ≤ config.limits.maxPages) : Safe L config s := by
  obtain ⟨L', hnow, happends, hremote, -, hrequested⟩ := h
  refine ⟨L', hnow, happends, fun ref _ ↦ ?_, hrequested.trans hpages⟩
  rw [hremote]

theorem Transferring.mono (h : Transferring L config opening pages s) {pages' : ℕ}
    (hpages : pages ≤ pages') : Transferring L config opening pages' s := by
  obtain ⟨L', hnow, happends, hremote, hopening, hrequested⟩ := h
  exact ⟨L', hnow, happends, hremote, hopening, hrequested.trans hpages⟩

/-- A turn that leaves the tables alone. -/
theorem Transferring.turn (h : Transferring L config opening pages s) {turn : PullTurn}
    (hnow : s'.now = s.now) (hturns : s'.turns = s.turns ++ [turn]) :
    Transferring L config opening (pages + if requestsPage turn.action then 1 else 0) s' := by
  obtain ⟨L', htables, happends, hremote, hopening, hrequested⟩ := h
  refine ⟨L', hnow.trans htables, happends, hremote, ?_, ?_⟩
  · rw [hturns]
    exact List.mem_append_left _ hopening
  · rw [pagesRequested, hturns, List.countP_append, List.countP_singleton]
    exact Nat.add_le_add_right hrequested _

/-- A failed import leaves the store alone, and a successful one appends the events of the page. -/
theorem Transferring.imported (h : Transferring L config opening pages s) {input wire : Bytes}
    {response : ExportResponse B} (hresponse : ExportResponse.fromWire B input = .ok response)
    (hcontext : response.context = config.context) (hwire : response.bundle.toWire = .ok wire)
    {limits : BundleLimits} {answer : Except StoreError ImportReport}
    (occurs : Alone B (.call (.importBundle config.peer wire limits)) s answer s') :
    Transferring L config opening pages s' ∧ ∀ report, answer = .ok report →
      response.bundle.events.length = report.inserted + report.alreadyPresent := by
  obtain ⟨hoccurs, hturns⟩ := occurs.turn
  cases answer with
  | error error =>
    exact ⟨h.turn (occurs_failed hoccurs) hturns, fun report hreport ↦ by cases hreport⟩
  | ok report =>
    obtain ⟨L', htables, happends, hremote, hopening, hrequested⟩ := h
    have hbody := occurs_acknowledged hoccurs
    rw [htables] at hbody
    obtain ⟨-, -, es, hes, hcontexts, hadmits, ht, rfl⟩ :=
      (importPage_eq_ok happends.wellFormed hresponse hwire).mp hbody
    rw [hcontext] at hcontexts
    refine ⟨⟨_, ht, happends.admitAll hcontexts hadmits, ?_, ?_, ?_⟩, ?_⟩
    · exact (Ledger.admitAll_refs es).2.2.trans hremote
    · rw [hturns]
      exact List.mem_append_left _ hopening
    · rw [pagesRequested, hturns, List.countP_append]
      exact hrequested
    · intro report hreport
      rw [← Except.ok.inj hreport, hes, List.length_map]
      exact (Nat.add_sub_cancel' (Ledger.newCount_le L' es)).symm

/-- The store after the refs of the peer were replaced. -/
def Published (L : Ledger B) (config : PullClientConfig) (opening : PullTurn) (pages : ℕ)
    (refs : List AdvertisedRef) (s : PullHistory) : Prop :=
  ∃ L' : Ledger B, s.now = L'.tables ∧ Appends L L' config.context ∧
    (∀ ref : RemoteRef, ¬ (ref.peer = config.peer ∧ ref.context = config.context) →
      (ref ∈ L'.remoteRefs ↔ ref ∈ L.remoteRefs)) ∧
    opening ∈ s.turns ∧ pagesRequested s ≤ pages ∧
    L'.Tracks config.peer config.context refs ∧
    ∀ item ∈ refs, ∀ id, L'.Ancestor item.head id → L'.Holds config.context id

theorem Published.safe {refs : List AdvertisedRef}
    (h : Published L config opening config.limits.maxPages refs s) : Safe L config s := by
  obtain ⟨L', hnow, happends, hothers, -, hrequested, -⟩ := h
  exact ⟨L', hnow, happends, hothers, hrequested⟩

/-- The replacement publishes the refs or leaves the store alone. -/
theorem Transferring.replaced (h : Transferring L config opening pages s)
    {refs : List AdvertisedRef} {answer : Except StoreError ℕ}
    (occurs : Alone B (.call (.replaceRemoteRefSnapshot config.peer config.context refs)) s answer
      s') :
    (∀ error, answer = .error error → Transferring L config opening pages s') ∧
      ∀ count, answer = .ok count → Published L config opening pages refs s' := by
  obtain ⟨hoccurs, hturns⟩ := occurs.turn
  refine ⟨?_, ?_⟩
  · rintro error rfl
    exact h.turn (occurs_failed hoccurs) hturns
  · rintro count rfl
    obtain ⟨L', htables, happends, hremote, hopening, hrequested⟩ := h
    have hbody := occurs_acknowledged hoccurs
    rw [htables] at hbody
    obtain ⟨-, hcanonical, -, hheld, hcount, ht⟩ :=
      (Ledger.replaceRemoteRefSnapshot_eq_ok happends.wellFormed).mp hbody
    have hancestors : ∀ item ∈ refs, ∀ id, L'.Ancestor item.head id →
        L'.Holds config.context id := fun item hitem id hid ↦
      happends.wellFormed.holds_ancestor (hheld item hitem) hid
    have hopened : opening ∈ s'.turns := by
      rw [hturns]
      exact List.mem_append_left _ hopening
    have hpages : pagesRequested s' ≤ pages := by
      rw [pagesRequested, hturns, List.countP_append]
      exact hrequested
    by_cases hzero : count = 0
    · -- Nothing changes, as the namespace holds the refs already.
      rw [if_pos hzero] at ht
      refine ⟨L', ht, happends, fun ref _ ↦ by rw [hremote], hopened, hpages, ?_, hancestors⟩
      exact happends.wellFormed.toWellKeyed.tracks_iff.mpr (hcount.symm.trans hzero)
    · rw [if_neg hzero] at ht
      obtain ⟨remoteRefs, hframe⟩ := Ledger.replaced_frame L' config.peer config.context refs
      have hwell : (L'.replaced config.peer config.context refs).WellFormed :=
        (Ledger.Steps.replaced hheld).wellFormed happends.wellFormed
      refine ⟨_, ht, ⟨hwell, ?_, ?_, ?_⟩, fun ref hother ↦ ?_, hopened, hpages,
        Ledger.replaced_tracks hcanonical, ?_⟩
      · rw [hframe]
        exact happends.events
      · rw [hframe]
        exact happends.authors
      · rw [hframe]
        exact happends.localRefs
      · rw [Ledger.mem_replaced hcanonical, hremote]
        constructor
        · rintro (⟨item, -, rfl⟩ | hold)
          · exact absurd ⟨rfl, rfl⟩ hother
          · exact hold.1
        · exact fun hold ↦ Or.inr ⟨hold, hother⟩
      · rw [hframe]
        exact hancestors

/-! ### The run -/

/-- What a pull ends with. -/
def Ends (L : Ledger B) (config : PullClientConfig) (result : Except SyncError PullReport)
    (s : PullHistory) : Prop :=
  match result with
  | .error _ => ∃ opening, Transferring L config opening config.limits.maxPages s
  | .ok report => report.received = report.inserted + report.alreadyPresent ∧
    ∃ wire snapshot, RefSnapshot.fromWire B wire = .ok snapshot ∧
      Published L config ⟨[], L.tables, .ask (.getRefs config.context), .ok wire, L.tables⟩
        config.limits.maxPages snapshot.refs s

theorem checked_eq_ok {left right sum : ℕ} :
    checked left right = .ok sum ↔ left + right < 2 ^ 64 ∧ sum = left + right := by
  rw [checked, unit_bind_eq_ok, ensure_eq_ok, Except.ok.injEq, eq_comm (b := sum)]

section Checks

variable {config : PullClientConfig} {expectedHeads : String} {state : PullState}
  {response : ExportResponse B}

/-- A complete page of the heads that were asked for is the last one. -/
theorem checkPage_last (hheads : response.context = config.context ∧
      response.requestedHeadFingerprint = expectedHeads) (hcomplete : response.complete = true) :
    checkPage B config expectedHeads state response = .ok none := by
  have hgood : ¬ (response.bundle.events = [] ∧ response.complete = false) := fun hnone ↦
    Bool.noConfusion (hcomplete.symm.trans hnone.2)
  rw [checkPage, ensure_true hheads, ok_bind, ensure_true hgood, ok_bind, if_pos hcomplete]

/-- An incomplete page that is not empty leads to its cursor, when the cursor stands at the end of
the page and belongs to the same plan as the one before it. -/
theorem checkPage_more (hheads : response.context = config.context ∧
      response.requestedHeadFingerprint = expectedHeads) (hcomplete : response.complete = false)
    (hpage : response.bundle.events ≠ []) {nextCursor : String} {fingerprint : Fixed 32}
    (hcursor : response.nextCursor = some nextCursor)
    (hdecode : decodeCursor B nextCursor =
      .ok (state.expectedOffset + response.bundle.events.length, fingerprint))
    (hword : state.expectedOffset + response.bundle.events.length < 2 ^ 64)
    (hagrees : ∀ value ∈ state.cursorFingerprint, value = fingerprint) :
    checkPage B config expectedHeads state response =
      .ok (some (state.expectedOffset + response.bundle.events.length, fingerprint,
        nextCursor)) := by
  have hgood : ¬ (response.bundle.events = [] ∧ response.complete = false) := fun hnone ↦
    hpage hnone.1
  have hpositive : 0 < response.bundle.events.length := List.length_pos_iff.mpr hpage
  have hfollows : ¬ (state.expectedOffset + response.bundle.events.length ≠
        state.expectedOffset + response.bundle.events.length ∨
      state.expectedOffset + response.bundle.events.length ≤ state.expectedOffset ∨
      ∃ value ∈ state.cursorFingerprint, value ≠ fingerprint) := by
    rintro (hother | hback | ⟨value, hvalue, hne⟩)
    · exact hother rfl
    · omega
    · exact hne (hagrees value hvalue)
  rw [checkPage, ensure_true hheads, ok_bind, ensure_true hgood, ok_bind,
    if_neg (hcomplete ▸ Bool.false_ne_true), hcursor, required_some, ok_bind, hdecode, ok_bind]
  dsimp only
  rw [checked_eq_ok.mpr ⟨hword, rfl⟩, ok_bind, ensure_true hfollows, ok_bind]

end Checks

theorem PullReport.addPage_eq_ok {report next : PullReport} {response : ExportResponse B}
    {imported : ImportReport} : report.addPage response imported = .ok next ↔
      (report.pages + 1 < 2 ^ 64 ∧
        report.received + response.bundle.events.length < 2 ^ 64 ∧
        report.inserted + imported.inserted < 2 ^ 64 ∧
        report.alreadyPresent + imported.alreadyPresent < 2 ^ 64) ∧
      next = { report with
        pages := report.pages + 1
        received := report.received + response.bundle.events.length
        inserted := report.inserted + imported.inserted
        alreadyPresent := report.alreadyPresent + imported.alreadyPresent } := by
  rw [addPage]
  simp only [bind_eq_ok, checked_eq_ok, Except.ok.injEq]
  constructor
  · rintro ⟨_, ⟨hpages, rfl⟩, _, ⟨hreceived, rfl⟩, _, ⟨hinserted, rfl⟩, _, ⟨hpresent, rfl⟩, rfl⟩
    exact ⟨⟨hpages, hreceived, hinserted, hpresent⟩, rfl⟩
  · rintro ⟨⟨hpages, hreceived, hinserted, hpresent⟩, rfl⟩
    exact ⟨_, ⟨hpages, rfl⟩, _, ⟨hreceived, rfl⟩, _, ⟨hinserted, rfl⟩, _, ⟨hpresent, rfl⟩, rfl⟩

/-- The request of a page goes on with the answer of the peer. -/
theorem requestPage_keeps {wire : Bytes} {f : Bytes → Pulling PullReport}
    {post : Except SyncError PullReport → PullHistory → Prop}
    (h : Transferring L config opening pages s) (hpages : pages + 1 ≤ config.limits.maxPages)
    (herror : ∀ error s', Transferring L config opening (pages + 1) s' → post (.error error) s')
    (hvalue : ∀ answer s', Transferring L config opening (pages + 1) s' →
      Keeps (Alone B) (Safe L config) (f answer).run post s') :
    Keeps (Alone B) (Safe L config) (requestPage wire >>= f).run post s := by
  have hsafe : Safe L config s := h.safe ((Nat.le_succ pages).trans hpages)
  apply Keeps.bindT
  apply Keeps.ofExcept hsafe
  · exact fun error _ ↦ herror error s (h.mono (Nat.le_succ pages))
  · intro _ _
    refine ⟨hsafe, fun answer s' occurs ↦ ?_⟩
    obtain ⟨hnow, hturns⟩ := occurs.turn
    have hasked : Transferring L config opening (pages + 1) s' := h.turn hnow hturns
    refine ⟨hasked.safe hpages, ?_⟩
    cases answer with
    | error error => exact herror error s' hasked
    | ok wire => exact hvalue wire s' hasked

/-- The page loop transfers events and counts them; it requests one page for each round. -/
theorem pullPages_keeps {requestedHeads knownHeads : List EventId} {expectedHeads : String}
    {left : ℕ} {state : PullState} (h : Transferring L config opening pages s)
    (hpages : pages + left = config.limits.maxPages)
    (hcount : state.report.received = state.report.inserted + state.report.alreadyPresent) :
    Keeps (Alone B) (Safe L config)
      (pullPages B config requestedHeads knownHeads expectedHeads left state).run
      (fun result s' ↦ Transferring L config opening config.limits.maxPages s' ∧
        ∀ report, result = .ok report → report.received = report.inserted + report.alreadyPresent)
      s := by
  induction left generalizing pages state s with
  | zero =>
    rw [Nat.add_zero] at hpages
    subst hpages
    exact ⟨h.safe le_rfl, h, fun report hreport ↦ by cases hreport⟩
  | succ left ih =>
    have hle : pages + 1 ≤ config.limits.maxPages := by omega
    have hstops {s : PullHistory} {pages' : ℕ} {error : SyncError}
        (h : Transferring L config opening pages' s) (hpages' : pages' ≤ config.limits.maxPages) :
        Transferring L config opening config.limits.maxPages s ∧ ∀ report : PullReport,
          Except.error error = Except.ok report →
            report.received = report.inserted + report.alreadyPresent :=
      ⟨h.mono hpages', fun report hreport ↦ by cases hreport⟩
    have hpages' : pages ≤ config.limits.maxPages := (Nat.le_succ pages).trans hle
    rw [pullPages]
    apply Keeps.ofExcept (h.safe hpages') fun error _ ↦ hstops h hpages'
    intro request _
    apply Keeps.ofExcept (h.safe hpages') fun error _ ↦ hstops h hpages'
    intro requestWire _
    apply requestPage_keeps h hle fun error s' h' ↦ hstops h' hle
    clear h s
    intro responseWire s h
    apply Keeps.ofExcept (h.safe hle) fun error _ ↦ hstops h hle
    intro response hresponse
    apply Keeps.ofExcept (h.safe hle) fun error _ ↦ hstops h hle
    intro next hnext
    have hcontext : response.context = config.context :=
      (ensure_eq_ok.mp (unit_bind_eq_ok.mp hnext).1).1
    apply Keeps.ofExcept (h.safe hle) fun error _ ↦ hstops h hle
    intro bundleWire hbundle
    apply Keeps.ofExcept (h.safe hle) fun error _ ↦ hstops h hle
    intro limits _
    apply Keeps.attempt (h.safe hle)
    · intro answer s' error occurs hread
      obtain ⟨hafter, -⟩ := h.imported hresponse hcontext (mapError_eq_ok.mp hbundle) occurs
      exact ⟨hafter.safe hle, hstops hafter hle⟩
    · intro answer s' imported occurs hread
      obtain ⟨hafter, hsum⟩ := h.imported hresponse hcontext (mapError_eq_ok.mp hbundle) occurs
      have himported := hsum imported (mapError_eq_ok.mp hread)
      apply Keeps.ofExcept (hafter.safe hle) fun error _ ↦ hstops hafter hle
      intro report hreport
      obtain ⟨-, rfl⟩ := PullReport.addPage_eq_ok.mp hreport
      have hcounted : state.report.received + response.bundle.events.length =
          state.report.inserted + imported.inserted +
            (state.report.alreadyPresent + imported.alreadyPresent) := by omega
      cases next with
      | none =>
        refine ⟨hafter.safe hle, hafter.mono hle, fun report hreport ↦ ?_⟩
        rw [← Except.ok.inj hreport]
        exact hcounted
      | some next => exact ih hafter (by omega) hcounted

/-- A read of the store in front of a program. -/
theorem read_keeps {α : Type} {action : Action PeerRequest}
    {read : action.Answer PeerRequest.Reply → Except SyncError α} {f : α → Pulling PullReport}
    {post : Except SyncError PullReport → PullHistory → Prop}
    (h : Transferring L config opening 0 s) (hkind : requestsPage action = false)
    (hquiet : ∀ answer s', Alone B action s answer s' → s'.now = s.now)
    (herror : ∀ error s', Transferring L config opening 0 s' → post (.error error) s')
    (hvalue : ∀ value s', Transferring L config opening 0 s' →
      Keeps (Alone B) (Safe L config) (f value).run post s') :
    Keeps (Alone B) (Safe L config) (Fallible.attempt action read >>= f).run post s := by
  have hread {answer : action.Answer PeerRequest.Reply} {s' : PullHistory}
      (occurs : Alone B action s answer s') : Transferring L config opening 0 s' := by
    have hturn := h.turn (hquiet answer s' occurs) occurs.turn.2
    rwa [hkind] at hturn
  apply Keeps.attempt (h.safe (Nat.zero_le _))
  · intro answer s' error occurs _
    exact ⟨(hread occurs).safe (Nat.zero_le _), herror error s' (hread occurs)⟩
  · exact fun answer s' value occurs _ ↦ hvalue value s' (hread occurs)

/-- The replacement of the refs ends a pull. -/
theorem publish_keeps {wire : Bytes} {snapshot : RefSnapshot}
    (hsnapshot : RefSnapshot.fromWire B wire = .ok snapshot)
    (h : Transferring L config
      ⟨[], L.tables, .ask (.getRefs config.context), .ok wire, L.tables⟩ config.limits.maxPages s)
    (report : PullReport) (hcount : report.received = report.inserted + report.alreadyPresent) :
    Keeps (Alone B) (Safe L config)
      (call (.replaceRemoteRefSnapshot config.peer config.context snapshot.refs) .store >>=
        fun updated ↦ Fallible.ofExcept (.ok { report with remoteRefsUpdated := updated }) :
          Pulling PullReport).run (Ends L config) s := by
  apply Keeps.attempt (h.safe le_rfl)
  · intro answer s' error occurs hread
    cases answer with
    | error failed =>
      have hfailed := (h.replaced occurs).1 failed rfl
      exact ⟨hfailed.safe le_rfl, _, hfailed⟩
    | ok count => cases hread
  · intro answer s' updated occurs hread
    have hpublished := (h.replaced occurs).2 updated (mapError_eq_ok.mp hread)
    exact ⟨hpublished.safe, hcount, wire, snapshot, hsnapshot, hpublished⟩

/-- A pull is safe at every moment and in what it ends with. -/
theorem pull_keeps (h : L.WellFormed) (config : PullClientConfig) :
    Keeps (Alone B) (Safe L config) (pull B config).run (Ends L config) ⟨[], L.tables⟩ := by
  have hstart : Safe L config ⟨[], L.tables⟩ :=
    ⟨L, rfl, .refl h _, fun ref _ ↦ Iff.rfl, Nat.zero_le _⟩
  have hopened {answer : Except SyncError Bytes} {s : PullHistory}
      (occurs : Alone B (.ask (.getRefs config.context)) ⟨[], L.tables⟩ answer s) :
      Transferring L config ⟨[], L.tables, .ask (.getRefs config.context), answer, L.tables⟩ 0
        s := by
    obtain ⟨hnow, hturns⟩ := occurs.turn
    have hnow : s.now = L.tables := hnow
    rw [hnow] at hturns
    refine ⟨L, hnow, .refl h _, rfl, ?_, ?_⟩
    · rw [hturns]
      exact List.mem_singleton_self _
    · rw [pagesRequested, hturns]
      exact le_rfl
  have hzero : 0 ≤ config.limits.maxPages := Nat.zero_le _
  rw [pull]
  apply Keeps.attempt hstart
  · intro answer s error occurs _
    exact ⟨(hopened occurs).safe hzero, _, (hopened occurs).mono hzero⟩
  intro answer s refsWire occurs hread
  have hread : answer = .ok refsWire := hread
  subst hread
  have hopening := hopened occurs
  have hstops {s : PullHistory} {opening : PullTurn} {error : SyncError}
      (h : Transferring L config opening 0 s) : Ends L config (.error error) s :=
    ⟨_, h.mono hzero⟩
  apply Keeps.ofExcept (hopening.safe hzero) fun error _ ↦ hstops hopening
  intro snapshot hsnapshot
  apply Keeps.ofExcept (hopening.safe hzero) fun error _ ↦ hstops hopening
  intro _ _
  have hlocalRead (answer) (s' : PullHistory) (occurs : Alone B (.listLocalRefs config.context) s
      answer s') : s'.now = s.now := occurs.turn.1.1
  apply read_keeps hopening rfl hlocalRead
  · exact fun error s' hread ↦ hstops hread
  intro «local» s₁ hlocal
  have hremoteRead (answer) (s' : PullHistory)
      (occurs : Alone B (.listRemoteRefs config.peer config.context) s₁ answer s') :
      s'.now = s₁.now := occurs.turn.1.1
  apply read_keeps hlocal rfl hremoteRead
  · exact fun error s' hread ↦ hstops hread
  intro remote s₂ hremote
  apply Keeps.ofExcept (hremote.safe hzero) fun error _ ↦ hstops hremote
  intro _ _
  split_ifs with hnone
  · exact publish_keeps hsnapshot (hremote.mono hzero) ⟨0, 0, 0, 0, 0⟩ rfl
  · apply Keeps.ofExcept (hremote.safe hzero) fun error _ ↦ hstops hremote
    intro expectedHeads _
    apply Keeps.bindT
    refine (pullPages_keeps hremote (Nat.zero_add _) rfl).mono fun result s' _ hpulled ↦ ?_
    obtain ⟨htransferred, hcount⟩ := hpulled
    cases result with
    | error error => exact ⟨_, htransferred⟩
    | ok report => exact publish_keeps hsnapshot htransferred report (hcount report rfl)

/-- A pull is safe against any server. Whatever bytes the peer answers and wherever the run stops,
the store is well formed, it has the old events and after them events of the pulled context, and its
branches and the remote refs of other peers and contexts are the old ones; at most the configured
number of pages was requested. A pull that fails leaves the refs of the peer alone. A pull that
succeeds leaves exactly the refs of the snapshot that the peer answered, with every ancestor of
every head stored in the context, and has counted each received event once. -/
theorem pull_safe (B : Boundary) (L : Ledger B) (hwell : L.WellFormed) (config : PullClientConfig)
    (p : Program (Action PeerRequest) (Action.Answer PeerRequest.Reply)
      (Except SyncError PullReport)) (s : PullHistory)
    (hrun : Runs (Alone B) (pull B config).run ⟨[], L.tables⟩ p s) :
    ∃ L' : Ledger B, s.now = L'.tables ∧ Appends L L' config.context ∧
      (∀ ref : RemoteRef, ¬ (ref.peer = config.peer ∧ ref.context = config.context) →
        (ref ∈ L'.remoteRefs ↔ ref ∈ L.remoteRefs)) ∧
      pagesRequested s ≤ config.limits.maxPages ∧
      (∀ error, p = .done (.error error) → L'.remoteRefs = L.remoteRefs) ∧
      ∀ report, p = .done (.ok report) →
        report.received = report.inserted + report.alreadyPresent ∧
        ∃ wire snapshot,
          ⟨[], L.tables, .ask (.getRefs config.context), .ok wire, L.tables⟩ ∈ s.turns ∧
          RefSnapshot.fromWire B wire = .ok snapshot ∧
          L'.Tracks config.peer config.context snapshot.refs ∧
          ∀ item ∈ snapshot.refs, ∀ id, L'.Ancestor item.head id →
            L'.Holds config.context id := by
  have hkept := hrun.keeps (pull_keeps hwell config)
  cases p with
  | perform action next =>
    obtain ⟨L', hnow, happends, hothers, hpages⟩ := hkept.invariant
    refine ⟨L', hnow, happends, hothers, hpages, ?_, ?_⟩
    · exact fun error h ↦ nomatch h
    · exact fun report h ↦ nomatch h
  | done result =>
    obtain ⟨-, hends⟩ := hkept
    cases result with
    | error error =>
      obtain ⟨opening, L', hnow, happends, hremote, -, hpages⟩ := hends
      refine ⟨L', hnow, happends, fun ref _ ↦ by rw [hremote], hpages, fun _ _ ↦ hremote, ?_⟩
      exact fun report h ↦ nomatch h
    | ok report =>
      obtain ⟨hcount, wire, snapshot, hsnapshot, L', hnow, happends, hothers, hopening, hpages,
        htracks, hheld⟩ := hends
      refine ⟨L', hnow, happends, hothers, hpages, (fun error h ↦ nomatch h), fun other h ↦ ?_⟩
      obtain rfl : report = other := Except.ok.inj (Program.done.inj h)
      exact ⟨hcount, wire, snapshot, hopening, hsnapshot, htracks, hheld⟩

section Golden

open Reference

theorem Alone.listsLocal {turns : List PullTurn} {t : Tables} {context : ContextId}
    {refs : List LocalRef} (h : listLocalRefs B t context = .ok refs) :
    Alone B (.listLocalRefs context) ⟨turns, t⟩ (Except.ok refs)
      ⟨turns ++ [⟨[], t, .listLocalRefs context, Except.ok refs, t⟩], t⟩ := by
  apply History.occurs_now (h := ⟨turns, t⟩)
  exact ⟨rfl, Or.inl h.symm⟩

theorem Alone.listsRemote {turns : List PullTurn} {t : Tables} {peer : PeerName}
    {context : ContextId} {refs : List RemoteRef} (h : listRemoteRefs B t peer context = .ok refs) :
    Alone B (.listRemoteRefs peer context) ⟨turns, t⟩ (Except.ok refs)
      ⟨turns ++ [⟨[], t, .listRemoteRefs peer context, Except.ok refs, t⟩], t⟩ := by
  apply History.occurs_now (h := ⟨turns, t⟩)
  exact ⟨rfl, Or.inl h.symm⟩

theorem Alone.calls {turns : List PullTurn} {t t' : Tables} {operation : Operation}
    {result : operation.Result} (h : operation.body B t = .ok (t', result)) :
    Alone B (.call operation) ⟨turns, t⟩ (Except.ok result)
      ⟨turns ++ [⟨[], t, .call operation, Except.ok result, t'⟩], t'⟩ := by
  apply History.occurs_now (h := ⟨turns, t⟩)
  exact ⟨none, (fun fault hfault ↦ nomatch hfault), (transact_ok h).1⟩

/-- The fixture with a remote ref that its peer no longer has. -/
def trackedGolden : Ledger Golden.B :=
  Golden.rooted.setRemote ⟨Golden.peer, Golden.context, Golden.side, Golden.first.id⟩

theorem trackedGolden_wellFormed : trackedGolden.WellFormed :=
  Golden.rooted_wellFormed.setRemote ⟨Golden.first, List.mem_singleton_self _, rfl, rfl⟩

def goldenConfig : PullClientConfig :=
  ⟨Golden.peer, Golden.context, .default, .default⟩

/-- The refs of a peer whose branch is at the last event of the fixture. -/
theorem golden_refs : ∃ wire snapshot, RefSnapshot.fromWire Golden.B wire = .ok snapshot ∧
    snapshot.context = Golden.context ∧
      snapshot.refs = [⟨.local, Golden.main, Golden.second.id⟩] := by
  have hactive : ∃ r, Golden.advanced.registration Golden.context = some r ∧ r.active = true :=
    ⟨_, rfl, rfl⟩
  obtain ⟨wire, hwire⟩ := getRefs_succeeds Golden.advanced_wellFormed hactive
    (by decide : 1 ≤ MAX_BUNDLE_REFS)
  obtain ⟨-, -, snapshot, hsnapshot, hcontext, hrefs⟩ :=
    getRefs_eq_ok Golden.advanced_wellFormed hwire
  exact ⟨wire, snapshot, hsnapshot, hcontext, hrefs⟩

theorem golden_requested : validateSortedHeads Golden.B [Golden.second.id] false = .ok () :=
  ensure_true ⟨fun h ↦ List.cons_ne_nil _ _ h.2, canonical_singleton _ _⟩

/-- The page of both events of the fixture, the last one. -/
theorem golden_answer (fingerprint : String) : ∃ wire, ExportResponse.fromWire Golden.B wire =
    .ok ⟨Golden.context, fingerprint, goldenPage, none, true⟩ := by
  obtain ⟨bytes, hbytes⟩ := goldenPage.toWire_of_short goldenPage_unmarked.passes (by decide)
  obtain ⟨wire, hwire⟩ : ∃ wire, ExportResponse.toWire
      ⟨Golden.context, fingerprint, goldenPage, none, true⟩ = .ok wire :=
    ExportResponse.toWire_of_stable goldenPage_unmarked.stable hbytes
  exact ⟨wire, ExportResponse.fromWire_of_settled goldenPage_unmarked goldenBundle_settled
    ⟨rfl, rfl, rfl⟩ hwire⟩

/-- The page adds the last event to a client that holds the genesis. -/
theorem trackedGolden_admits : trackedGolden.AdmitsAll [Golden.first, Golden.second] ∧
    trackedGolden.admitAll [Golden.first, Golden.second] = trackedGolden.record Golden.second ∧
      trackedGolden.newCount [Golden.first, Golden.second] = 1 := by
  have hheld : trackedGolden.find Golden.first.id ≠ none := fun hnone ↦
    Ledger.find_eq_none.mp hnone _ (List.mem_singleton_self _) rfl
  have hsame : trackedGolden.admitted Golden.first = trackedGolden := if_neg hheld
  have hfresh : trackedGolden.find Golden.second.id = none :=
    Ledger.find_eq_none.mpr fun e he ↦ List.mem_singleton.mp he ▸ Golden.first_ne_second
  have hnew : trackedGolden.admitted Golden.second = trackedGolden.record Golden.second :=
    if_pos hfresh
  obtain ⟨r, hr, -, hgenesis⟩ := Golden.first_admits.registered
  obtain rfl := List.mem_singleton.mp hr
  refine ⟨⟨?_, ?_, trivial⟩, ?_, ?_⟩
  · exact {
      registered := ⟨_, List.mem_singleton_self _, rfl, Or.inl hgenesis⟩
      authorized := List.mem_singleton_self _
      parents := fun parent hparent ↦ by
        rw [Golden.first_parents] at hparent
        exact absurd hparent List.not_mem_nil
      sameWire := fun f hf _ ↦ by rw [List.mem_singleton.mp hf] }
  · rw [hsame]
    exact Golden.second_admits trackedGolden rfl rfl rfl
  · rw [Ledger.admitAll, List.foldl_cons, hsame, List.foldl_cons, hnew, List.foldl_nil]
  · rw [Ledger.newCount, if_neg hheld, hsame, Ledger.newCount, if_pos hfresh, Ledger.newCount]

theorem trackedGolden_imports : ∃ wire, goldenPage.toWire = .ok wire ∧
    importBundle Golden.B Golden.peer wire .default trackedGolden.tables =
      .ok ((trackedGolden.record Golden.second).tables, ⟨1, 1, 0⟩) := by
  obtain ⟨fingerprint, -⟩ := requestedHeadFingerprint_total Golden.context golden_requested
  obtain ⟨_, hresponse⟩ := golden_answer fingerprint
  obtain ⟨hadmits, hadmitted, hnew⟩ := trackedGolden_admits
  obtain ⟨wire, hwire⟩ := goldenPage.toWire_of_short goldenPage_unmarked.passes (by decide)
  have hcontexts : ∀ e ∈ [Golden.first, Golden.second], e.context = Golden.context := by
    intro e he
    rcases List.mem_pair.mp he with rfl | rfl
    · rfl
    · rfl
  refine ⟨wire, hwire, (importPage_eq_ok trackedGolden_wellFormed hresponse hwire).mpr
    ⟨⟨rfl, (BundleV1.toWire_eq_ok.mp hwire).2.1, (by decide : 2 ≤ MAX_BUNDLE_EVENTS)⟩,
      Option.some_ne_none _, [Golden.first, Golden.second], rfl, hcontexts, hadmits, ?_, ?_⟩⟩
  · rw [hadmitted]
  · rw [hnew]
    rfl

/-- The page loop of a client that knows few heads ends with the first page. -/
theorem trackedGolden_pages {known : List EventId} (expectedHeads : String)
    (hknown : Canonical (EventId.text Golden.B) known) (hfew : known.length ≤ MAX_BUNDLE_REFS)
    (left : ℕ) (turns : List PullTurn) :
    ∃ turns', Runs (Alone Golden.B)
      (pullPages Golden.B goldenConfig [Golden.second.id] known expectedHeads (left + 1)
        .start).run ⟨turns, trackedGolden.tables⟩ (.done (.ok ⟨1, 2, 1, 1, 0⟩))
      ⟨turns', (trackedGolden.record Golden.second).tables⟩ := by
  obtain ⟨pageWire, hresponse⟩ := golden_answer expectedHeads
  obtain ⟨bundleWire, hbundle, himport⟩ := trackedGolden_imports
  let request : ExportRequest := ⟨Golden.context, [Golden.second.id], known, none, .default⟩
  have hknowns : validateSortedHeads Golden.B known true = .ok () :=
    ensure_true ⟨fun h ↦ Bool.noConfusion h.1, hknown⟩
  have hfits : [Golden.second.id].length ≤ MAX_BUNDLE_REFS := (by decide : 1 ≤ MAX_BUNDLE_REFS)
  have hrequest : ExportRequest.new Golden.B Golden.context [Golden.second.id] known none
      .default = .ok request :=
    ExportRequest.new_eq_ok.mpr ⟨⟨golden_requested, hknowns, hfits, hfew⟩, rfl⟩
  obtain ⟨requestWire, hrequestWire⟩ := request.toWire_total (B := Golden.B)
  have hshort : requestWire.length ≤ MAX_PULL_REQUEST_BODY_BYTES :=
    ExportRequest.length_toWire_le hrequestWire (fun text htext ↦ nomatch htext) ⟨hfits, hfew⟩
      ⟨le_rfl, le_rfl⟩
  have hasked : Alone Golden.B (.ask (.postExport requestWire)) ⟨turns, trackedGolden.tables⟩
      (Except.ok pageWire) _ := History.occurs_now rfl
  have hanswered : Runs (Alone Golden.B) (requestPage requestWire).run
      ⟨turns, trackedGolden.tables⟩ (.done (.ok pageWire)) _ :=
    Runs.ofExcept (ensure_true hshort) (Runs.attempt hasked rfl (.refl _ _))
  have hlast : checkPage Golden.B goldenConfig expectedHeads .start
      ⟨Golden.context, expectedHeads, goldenPage, none, true⟩ = .ok none :=
    checkPage_last ⟨rfl, rfl⟩ rfl
  have hcalled : (Operation.importBundle Golden.peer bundleWire .default).body Golden.B
    trackedGolden.tables =
      .ok ((trackedGolden.record Golden.second).tables, (⟨1, 1, 0⟩ : ImportReport)) := himport
  rw [pullPages]
  apply Exists.intro
  apply Runs.ofExcept hrequest
  apply Runs.ofExcept hrequestWire
  apply Runs.bindT hanswered
  apply Runs.ofExcept hresponse
  apply Runs.ofExcept hlast
  apply Runs.ofExcept (congrArg (Except.mapError _) hbundle)
  apply Runs.ofExcept rfl
  apply Runs.attempt (Alone.calls hcalled) rfl
  apply Runs.ofExcept rfl
  exact .refl _ _

/-- A client that holds the genesis and a remote ref of old pulls a page of two events: one is new,
and the refs of the peer are replaced. -/
theorem pull_safe_followed : ∃ s : PullHistory, ∃ L' : Ledger Golden.B,
    Runs (Alone Golden.B) (pull Golden.B goldenConfig).run ⟨[], trackedGolden.tables⟩
      (.done (.ok ⟨1, 2, 1, 1, 2⟩)) s ∧
    s.now = L'.tables ∧ Appends trackedGolden L' Golden.context ∧
      ∃ snapshot : RefSnapshot, L'.Tracks Golden.peer Golden.context snapshot.refs := by
  have hwell := trackedGolden_wellFormed
  obtain ⟨refsWire, snapshot, hsnapshot, hcontext, hrefs⟩ := golden_refs
  obtain ⟨expectedHeads, hexpected⟩ :=
    requestedHeadFingerprint_total Golden.context golden_requested
  obtain ⟨remote, hremote, hmem⟩ :=
    Ledger.listRemoteRefs_tables hwell Golden.peer Golden.context
  have hlocal := Ledger.listLocalRefs_tables hwell Golden.context
  have hrequested : normalize (EventId.text Golden.B) (snapshot.refs.map AdvertisedRef.head) =
      [Golden.second.id] := by
    rw [hrefs]
    exact normalize_eq_self (canonical_singleton _ _)
  have hfew : (normalize (EventId.text Golden.B)
      ((trackedGolden.localRefsOf Golden.context).map LocalRef.head ++
        remote.map RemoteRef.head)).length ≤ MAX_BUNDLE_REFS := by
    have hheld : ∀ head ∈ remote.map RemoteRef.head,
        trackedGolden.Holds Golden.context head := by
      intro head hhead
      obtain ⟨ref, href, rfl⟩ := List.mem_map.mp hhead
      obtain ⟨htracked, hcontext, -⟩ := (hmem ref).mp href
      exact hcontext ▸ hwell.remoteTargets ref htracked
    exact (Ledger.length_normalize_held hheld).trans (by decide : 1 ≤ MAX_BUNDLE_REFS)
  have hreplaced : replaceRemoteRefSnapshot Golden.B Golden.peer Golden.context snapshot.refs
      (trackedGolden.record Golden.second).tables = .ok
        (((trackedGolden.record Golden.second).replaced Golden.peer Golden.context
          [⟨.local, Golden.main, Golden.second.id⟩]).tables, 2) := by
    obtain ⟨hadmits, hadmitted, -⟩ := trackedGolden_admits
    have hgrown : (trackedGolden.record Golden.second).WellFormed :=
      hadmitted ▸ hwell.admitAll hadmits
    have hheld : (trackedGolden.record Golden.second).Holds Golden.context Golden.second.id :=
      ⟨Golden.second, List.mem_append_right _ (List.mem_singleton_self _), rfl, rfl⟩
    rw [Ledger.replaceRemoteRefSnapshot_eq_ok hgrown, hrefs]
    exact ⟨(by decide : 1 ≤ MAX_BUNDLE_REFS), canonical_singleton _ _, ⟨_, rfl, rfl⟩,
      fun item hitem ↦ List.mem_singleton.mp hitem ▸ hheld, by decide, rfl⟩
  have hcalled : (Operation.replaceRemoteRefSnapshot Golden.peer Golden.context
      snapshot.refs).body Golden.B (trackedGolden.record Golden.second).tables = .ok
        (((trackedGolden.record Golden.second).replaced Golden.peer Golden.context
          [⟨.local, Golden.main, Golden.second.id⟩]).tables, (2 : ℕ)) := hreplaced
  obtain ⟨s, hrun⟩ : ∃ s, Runs (Alone Golden.B) (pull Golden.B goldenConfig).run
      ⟨[], trackedGolden.tables⟩ (.done (.ok ⟨1, 2, 1, 1, 2⟩)) s := by
    have hopened : Alone Golden.B (.ask (.getRefs Golden.context)) ⟨[], trackedGolden.tables⟩
        (Except.ok refsWire) _ := History.occurs_now rfl
    have hpages (turns : List PullTurn) := trackedGolden_pages expectedHeads
      (normalize_canonical EventId.text_injective _) hfew (MAX_PULL_PAGES - 1) turns
    choose after hpaged using hpages
    apply Exists.intro
    apply Runs.attempt hopened rfl
    apply Runs.ofExcept hsnapshot
    apply Runs.ofExcept (ensure_true hcontext)
    apply Runs.attempt (Alone.listsLocal hlocal) rfl
    apply Runs.attempt (Alone.listsRemote hremote) rfl
    apply Runs.ofExcept (ensure_true hfew)
    rw [hrequested, if_neg (List.cons_ne_nil _ _)]
    apply Runs.ofExcept hexpected
    apply Runs.bindT (hpaged _)
    apply Runs.attempt (Alone.calls hcalled) rfl
    exact .refl _ _
  obtain ⟨L', hnow, happends, -, -, -, hdone⟩ := pull_safe Golden.B trackedGolden hwell
    goldenConfig _ s hrun
  obtain ⟨-, wire', snapshot', -, -, htracks, -⟩ := hdone _ rfl
  exact ⟨s, L', hrun, hnow, happends, snapshot', htracks⟩

end Golden

end ContextMesh.Sync
