import ContextMesh.Sync.Capping
import ContextMesh.Sync.Meeting

/-!
A pull while no one else writes to either store. The server answers from the same store all the
time, so the run is determined: it opens, it imports one page after another as long as the server
answers and the client admits the page, and it publishes the refs of the server.
-/

set_option autoImplicit false
set_option relaxedAutoImplicit false

namespace ContextMesh.Sync

open Checked Ordered Contract Store Interaction

/-- The actions of a pull, with no moves of others in between. -/
abbrev Undisturbed (B : Boundary) (limits : TransportLimits) (responseLimit : ℕ) :
    Effect (Action PeerRequest) (Action.Answer PeerRequest.Reply) MeetingHistory :=
  History.Occurs (Exchange.Occurs B limits responseLimit) fun _ _ ↦ False

/-- The import of a page, acknowledged. -/
def importsPage : (action : Action PeerRequest) → action.Answer PeerRequest.Reply → Bool
  | .call (.importBundle _ _ _), .ok _ => true
  | _, _ => false

/-- The number of pages imported so far. -/
def pagesImported (turns : List MeetingTurn) : ℕ :=
  turns.countP fun turn ↦ importsPage turn.action turn.answer

variable {B : Boundary} {limits : TransportLimits} {responseLimit : ℕ}

theorem Exchange.occurs_unique {action : Action PeerRequest}
    {answer answer' : action.Answer PeerRequest.Reply} {w after after' : Exchange}
    (h : Exchange.Occurs B limits responseLimit action w answer after)
    (h' : Exchange.Occurs B limits responseLimit action w answer' after') :
    answer' = answer ∧ after' = after := by
  cases action with
  | call operation =>
    obtain ⟨t, hexecute, rfl⟩ := h
    obtain ⟨t', hexecute', rfl⟩ := h'
    obtain ⟨rfl, rfl⟩ := Prod.mk.inj (hexecute.symm.trans hexecute')
    exact ⟨rfl, rfl⟩
  | _ => exact ⟨h'.2.trans h.2.symm, h'.1.trans h.1.symm⟩

theorem Undisturbed.turn {action : Action PeerRequest} {answer : action.Answer PeerRequest.Reply}
    {s s' : MeetingHistory} (h : Undisturbed B limits responseLimit action s answer s') :
    Exchange.Occurs B limits responseLimit action s.now answer s'.now ∧
      s'.turns = s.turns ++ [⟨[], s.now, action, answer, s'.now⟩] :=
  History.occurs_alone h

theorem Undisturbed.total (action : Action PeerRequest) (s : MeetingHistory) :
    ∃ answer s', Undisturbed B limits responseLimit action s answer s' := by
  obtain ⟨answer, w, occurs⟩ := Exchange.occurs_total action s.now
  exact ⟨answer, _, History.occurs_now occurs⟩

theorem Undisturbed.meets {action : Action PeerRequest} {answer : action.Answer PeerRequest.Reply}
    {s s' : MeetingHistory} (h : Undisturbed B limits responseLimit action s answer s') :
    Meets B limits responseLimit action s answer s' := by
  obtain ⟨occurs, hturns⟩ := h.turn
  exact ⟨[], s.now, .refl _, occurs, hturns⟩

section Actions

variable {α β : Type} {action : Action PeerRequest} {answer : action.Answer PeerRequest.Reply}
  {read : action.Answer PeerRequest.Reply → Except SyncError α} {f : α → Pulling β}
  {post : Except SyncError β → MeetingHistory → Prop} {turns : List MeetingTurn} {w w' : Exchange}

theorem Undisturbed.eq (occurs : Exchange.Occurs B limits responseLimit action w answer w')
    {answer' : action.Answer PeerRequest.Reply} {s : MeetingHistory}
    (h : Undisturbed B limits responseLimit action ⟨turns, w⟩ answer' s) :
    answer' = answer ∧ s = ⟨turns ++ [⟨[], w, action, answer, w'⟩], w'⟩ := by
  obtain ⟨hoccurs, hturns⟩ := h.turn
  obtain ⟨turns', now⟩ := s
  obtain ⟨rfl, rfl⟩ := Exchange.occurs_unique occurs hoccurs
  exact ⟨rfl, congrArg (History.mk · now) hturns⟩

/-- The program goes on with the answer to its first action. -/
theorem Undisturbed.value {value : α}
    (occurs : Exchange.Occurs B limits responseLimit action w answer w')
    (hread : read answer = .ok value)
    (h : Keeps (Undisturbed B limits responseLimit) (fun _ ↦ True) (f value).run post
      ⟨turns ++ [⟨[], w, action, answer, w'⟩], w'⟩) :
    Keeps (Undisturbed B limits responseLimit) (fun _ ↦ True)
      (Fallible.attempt action read >>= f).run post ⟨turns, w⟩ := by
  apply Keeps.attemptOk trivial
  intro answer' s' occurs'
  obtain ⟨rfl, rfl⟩ := occurs'.eq occurs
  exact ⟨value, hread, h⟩

/-- The program ends with the error that its first action is answered. -/
theorem Undisturbed.error {error : SyncError}
    (occurs : Exchange.Occurs B limits responseLimit action w answer w')
    (hread : read answer = .error error)
    (h : post (.error error) ⟨turns ++ [⟨[], w, action, answer, w'⟩], w'⟩) :
    Keeps (Undisturbed B limits responseLimit) (fun _ ↦ True)
      (Fallible.attempt action read >>= f).run post ⟨turns, w⟩ := by
  apply Keeps.attempt trivial
  · intro answer' s' error' occurs' hread'
    obtain ⟨rfl, rfl⟩ := occurs'.eq occurs
    rw [Except.error.inj (hread'.symm.trans hread)]
    exact ⟨trivial, h⟩
  · intro answer' s' value occurs' hread'
    obtain ⟨rfl, rfl⟩ := occurs'.eq occurs
    cases hread.symm.trans hread'

end Actions

theorem readResponse_eq_ok {limit : ℕ} {answer : Except SyncError Bytes} {body : Bytes} :
    readResponse limit answer = .ok body ↔ answer = .ok body ∧ body.length ≤ limit := by
  cases answer with
  | error error => exact iff_of_false nofun nofun
  | ok served =>
    rw [readResponse, unit_bind_eq_ok, ensure_eq_ok, Except.ok.injEq, and_comm]
    exact and_congr_right fun hsame ↦ hsame ▸ Iff.rfl

theorem serve_getRefs {t : Tables} {context : ContextId} {wire : Bytes} :
    serve B limits responseLimit t (.getRefs context) = .ok wire ↔
      getRefs B t context = .ok wire ∧ wire.length ≤ responseLimit := readResponse_eq_ok

theorem serve_postExport {t : Tables} {body wire : Bytes} :
    serve B limits responseLimit t (.postExport body) = .ok wire ↔
      postExport B limits t body = .ok wire ∧ wire.length ≤ responseLimit := readResponse_eq_ok

theorem length_getRefs_le {t : Tables} {context : ContextId} {wire : Bytes}
    (h : getRefs B t context = .ok wire) : wire.length ≤ MAX_SYNC_RESPONSE_BODY_BYTES := by
  obtain ⟨refs, -, h⟩ := bind_eq_ok.mp h
  obtain ⟨snapshot, hnew, hwire⟩ := bind_eq_ok.mp h
  exact RefSnapshot.length_toWire_le hnew hwire

theorem length_postExport_le {t : Tables} {body wire : Bytes}
    (h : postExport B limits t body = .ok wire) :
    body.length ≤ limits.maxRequestBodyBytes ∧ wire.length ≤ limits.maxResponseBodyBytes := by
  obtain ⟨hbody, h⟩ := unit_bind_eq_ok.mp h
  obtain ⟨request, -, h⟩ := bind_eq_ok.mp h
  obtain ⟨response, -, h⟩ := bind_eq_ok.mp h
  obtain ⟨rendered, -, h⟩ := bind_eq_ok.mp h
  obtain ⟨hrendered, h⟩ := unit_bind_eq_ok.mp h
  exact ⟨ensure_eq_ok.mp hbody, Except.ok.inj h ▸ ensure_eq_ok.mp hrendered⟩

/-! ### The opening -/

/-- The heads that a client knows in a pull. -/
def knownHeads (M : Ledger B) (config : PullClientConfig) : List EventId :=
  normalize (EventId.text B) ((M.localRefsOf config.context).map LocalRef.head ++
    (M.remoteRefsOf config.peer config.context).map RemoteRef.head)

/-- The heads that a client requests of a server. -/
def requestedHeads (S : Ledger B) (context : ContextId) : List EventId :=
  normalize (EventId.text B) ((S.localRefsOf context).map LocalRef.head)

variable (B limits responseLimit) in
/-- A pull gets past its opening. -/
structure Opens (config : PullClientConfig) (M S : Ledger B) : Prop where
  served : ∃ wire, serve B limits responseLimit S.tables (.getRefs config.context) = .ok wire
  known : (knownHeads M config).length ≤ MAX_BUNDLE_REFS

/-- The refs of the server are published and the pull ends. -/
def publish (config : PullClientConfig) (refs : List AdvertisedRef) (report : PullReport) :
    Pulling PullReport := do
  let updated ← call (.replaceRemoteRefSnapshot config.peer config.context refs) .store
  Fallible.ofExcept (.ok { report with remoteRefsUpdated := updated })

variable {config : PullClientConfig} {M S : Ledger B} {foreign : List EventRow}

/-- The turns of an opening. -/
def openingTurns (config : PullClientConfig) (w : Exchange) (wire : Bytes)
    («local» : List LocalRef) (remote : List RemoteRef) : List MeetingTurn :=
  [⟨[], w, .ask (.getRefs config.context), Except.ok wire, w⟩,
    ⟨[], w, .listLocalRefs config.context, Except.ok «local», w⟩,
    ⟨[], w, .listRemoteRefs config.peer config.context, Except.ok remote, w⟩]

theorem Opens.heads (h : Opens B limits responseLimit config M S) (hS : S.WellFormed)
    (hsome : requestedHeads S config.context ≠ []) :
    Heads B (requestedHeads S config.context) (knownHeads M config) where
  nonempty := hsome
  sortedRequested := normalize_canonical EventId.text_injective _
  sortedKnown := normalize_canonical EventId.text_injective _
  fewRequested := by
    obtain ⟨wire, hserved⟩ := h.served
    obtain ⟨-, hfew, -⟩ := getRefs_eq_ok hS (serve_getRefs.mp hserved).1
    refine (length_normalize_le _ _).trans ?_
    rwa [List.length_map]
  fewKnown := h.known

theorem pagesImported_append (turns turns' : List MeetingTurn) :
    pagesImported (turns ++ turns') = pagesImported turns + pagesImported turns' :=
  List.countP_append

theorem pagesImported_opening (w : Exchange) (wire : Bytes) («local» : List LocalRef)
    (remote : List RemoteRef) : pagesImported (openingTurns config w wire «local» remote) = 0 := rfl

/-- The heads that a client lists are those it knows. -/
theorem knownHeads_listed (hM : M.WellFormed) {«local» : List LocalRef} {remote : List RemoteRef}
    (hlocal : Store.listLocalRefs B M.tables config.context = .ok «local»)
    (hremote : Store.listRemoteRefs B M.tables config.peer config.context = .ok remote) :
    normalize (EventId.text B) («local».map LocalRef.head ++ remote.map RemoteRef.head) =
      knownHeads M config := by
  obtain ⟨remote', hlisted, hmem⟩ := Ledger.listRemoteRefs_tables hM config.peer config.context
  obtain rfl : remote' = remote := Except.ok.inj (hlisted.symm.trans hremote)
  obtain rfl : M.localRefsOf config.context = «local» :=
    Except.ok.inj ((Ledger.listLocalRefs_tables hM config.context).symm.trans hlocal)
  refine normalize_congr EventId.text_injective fun id ↦ ?_
  simp only [List.mem_append, List.mem_map, hmem, Ledger.mem_remoteRefsOf]

/-- A pull stops in its opening, or it opens and publishes at once, or it opens and requests
pages. -/
theorem pull_opens (hM : M.WellFormed) (hS : S.WellFormed)
    {post : Except SyncError PullReport → MeetingHistory → Prop} {turns : List MeetingTurn}
    (hstops : ¬ Opens B limits responseLimit config M S → ∀ error turns',
      pagesImported turns' = 0 → post (.error error)
        ⟨turns ++ turns', ⟨M.tables, S.tables, foreign⟩⟩)
    (hopens : Opens B limits responseLimit config M S → ∀ wire «local» remote,
      getRefs B S.tables config.context = .ok wire →
      Store.listLocalRefs B M.tables config.context = .ok «local» →
      Store.listRemoteRefs B M.tables config.peer config.context = .ok remote →
      if requestedHeads S config.context = [] then
        Keeps (Undisturbed B limits responseLimit) (fun _ ↦ True)
          (publish config (advertised S config.context) ⟨0, 0, 0, 0, 0⟩).run post
          ⟨turns ++ openingTurns config ⟨M.tables, S.tables, foreign⟩ wire «local» remote,
            ⟨M.tables, S.tables, foreign⟩⟩
      else ∀ expectedHeads,
        requestedHeadFingerprint B config.context (requestedHeads S config.context) =
          .ok expectedHeads →
        Keeps (Undisturbed B limits responseLimit) (fun _ ↦ True)
          (pullPages B config (requestedHeads S config.context) (knownHeads M config) expectedHeads
            config.limits.maxPages .start >>= publish config (advertised S config.context)).run post
          ⟨turns ++ openingTurns config ⟨M.tables, S.tables, foreign⟩ wire «local» remote,
            ⟨M.tables, S.tables, foreign⟩⟩) :
    Keeps (Undisturbed B limits responseLimit) (fun _ ↦ True) (pull B config).run post
      ⟨turns, ⟨M.tables, S.tables, foreign⟩⟩ := by
  rw [pull]
  -- the refs of the server
  have hasks : Exchange.Occurs B limits responseLimit (.ask (.getRefs config.context))
      ⟨M.tables, S.tables, foreign⟩
      (serve B limits responseLimit S.tables (.getRefs config.context))
      ⟨M.tables, S.tables, foreign⟩ := ⟨rfl, rfl⟩
  cases hserved : serve B limits responseLimit S.tables (.getRefs config.context) with
  | error error =>
    rw [hserved] at hasks
    apply Undisturbed.error hasks rfl
    refine hstops (fun hopened ↦ ?_) _ _ rfl
    obtain ⟨wire, hwire⟩ := hopened.served
    cases hserved.symm.trans hwire
  | ok wire =>
    rw [hserved] at hasks
    obtain ⟨hrefs, -⟩ := serve_getRefs.mp hserved
    obtain ⟨-, -, snapshot, hsnapshot, hcontext, hadvertised⟩ := getRefs_eq_ok hS hrefs
    apply Undisturbed.value hasks rfl
    apply Keeps.ofOk hsnapshot
    apply Keeps.ofOk (ensure_true hcontext)
    -- the heads of the client
    have hlocal := Ledger.listLocalRefs_tables hM config.context
    obtain ⟨remote, hremote, -⟩ := Ledger.listRemoteRefs_tables hM config.peer config.context
    have hlists : Exchange.Occurs B limits responseLimit (.listLocalRefs config.context)
        ⟨M.tables, S.tables, foreign⟩ (Except.ok (M.localRefsOf config.context))
        ⟨M.tables, S.tables, foreign⟩ := ⟨rfl, hlocal.symm⟩
    have hlistsRemote : Exchange.Occurs B limits responseLimit
        (.listRemoteRefs config.peer config.context) ⟨M.tables, S.tables, foreign⟩
        (Except.ok remote) ⟨M.tables, S.tables, foreign⟩ := ⟨rfl, hremote.symm⟩
    apply Undisturbed.value hlists
    · rfl
    apply Undisturbed.value hlistsRemote
    · rfl
    have hknown := knownHeads_listed hM hlocal hremote
    have hrequested : normalize (EventId.text B) (snapshot.refs.map AdvertisedRef.head) =
        requestedHeads S config.context := by
      rw [hadvertised, advertised, List.map_map]
      rfl
    have hturns (a b c : MeetingTurn) : turns ++ [a] ++ [b] ++ [c] = turns ++ [a, b, c] := by
      rw [List.append_assoc, List.append_assoc]
      rfl
    dsimp only
    rw [hknown, hrequested, hadvertised, hturns]
    by_cases hfew : (knownHeads M config).length ≤ MAX_BUNDLE_REFS
    · have hopened : Opens B limits responseLimit config M S := ⟨⟨wire, hserved⟩, hfew⟩
      have hrest := hopens hopened wire _ remote hrefs hlocal hremote
      apply Keeps.ofOk (ensure_true hfew)
      by_cases hnone : requestedHeads S config.context = []
      · rw [if_pos hnone] at hrest ⊢
        exact hrest
      · rw [if_neg hnone] at hrest ⊢
        obtain ⟨expectedHeads, hexpected⟩ := requestedHeadFingerprint_total (B := B)
          config.context (hopened.heads hS hnone).validated.1
        apply Keeps.ofOk hexpected
        exact hrest expectedHeads hexpected
    · have hrefused : ensure ((knownHeads M config).length ≤ MAX_BUNDLE_REFS)
          SyncError.limitExceeded = .error .limitExceeded := ensure_false hfew
      rw [hrefused]
      exact ⟨trivial, hstops (fun hopened ↦ hfew hopened.known) _ _ rfl⟩

/-- A pull that opens goes on with its page loop. -/
theorem Opens.pull (hM : M.WellFormed) (hS : S.WellFormed)
    (hopened : Opens B limits responseLimit config M S)
    (hsome : requestedHeads S config.context ≠ [])
    {post : Except SyncError PullReport → MeetingHistory → Prop} {turns : List MeetingTurn}
    (h : ∀ wire «local» remote expectedHeads, getRefs B S.tables config.context = .ok wire →
      Store.listLocalRefs B M.tables config.context = .ok «local» →
      Store.listRemoteRefs B M.tables config.peer config.context = .ok remote →
      requestedHeadFingerprint B config.context (requestedHeads S config.context) =
        .ok expectedHeads →
      Keeps (Undisturbed B limits responseLimit) (fun _ ↦ True)
        (pullPages B config (requestedHeads S config.context) (knownHeads M config) expectedHeads
          config.limits.maxPages .start).run
        (fun
          | .ok report => Keeps (Undisturbed B limits responseLimit) (fun _ ↦ True)
            (publish config (advertised S config.context) report).run post
          | .error error => post (.error error))
        ⟨turns ++ openingTurns config ⟨M.tables, S.tables, foreign⟩ wire «local» remote,
          ⟨M.tables, S.tables, foreign⟩⟩) :
    Keeps (Undisturbed B limits responseLimit) (fun _ ↦ True) (pull B config).run post
      ⟨turns, ⟨M.tables, S.tables, foreign⟩⟩ := by
  apply pull_opens hM hS
  · exact fun hfails ↦ absurd hopened hfails
  intro _ wire «local» remote hwire hlocal hremote
  rw [if_neg hsome]
  intro expectedHeads hexpected
  apply Keeps.bindT
  refine (h wire «local» remote expectedHeads hwire hlocal hremote hexpected).mono
    fun result s _ hpost ↦ ?_
  cases result with
  | ok report => exact hpost
  | error error => exact hpost

/-! ### A round -/

variable (B limits responseLimit) in
/-- A page that the server answers to the page loop, and that the loop lets pass. -/
structure Answered (config : PullClientConfig) (requested known : List EventId)
    (expectedHeads : String) (S : Ledger B) (state : PullState) (offset : ℕ) where
  wire : Bytes
  body : Bytes
  plan : List SignedEventV1
  response : ExportResponse B
  next : Option (ℕ × Fixed 32 × String)
  bundleWire : Bytes
  rendered : (state.request config requested known).toWire B = .ok wire
  served : serve B limits responseLimit S.tables (.postExport wire) = .ok body
  planned : planOn B S.tables config.context requested (S.heldHeads config.context known) =
    .ok plan
  reads : ExportResponse.fromWire B body = .ok response
  checks : checkPage B config expectedHeads state response = .ok next
  accepted : Accepted B config requested (S.heldHeads config.context known) plan offset response
    next
  bundled : response.bundle.toWire = .ok bundleWire

variable (B limits responseLimit) in
/-- A round of the page loop: the client admits the page that the server has answered. -/
structure Round (config : PullClientConfig) (requested known : List EventId)
    (expectedHeads : String) (M S : Ledger B) (state : PullState) (offset : ℕ) extends
    Answered B limits responseLimit config requested known expectedHeads S state offset where
  events : List (StoredEvent B)
  imported : ImportReport
  report : PullReport
  fits : bundleWire.length ≤ config.limits.maxBundleBytes
  listed : response.bundle.events = events.map StoredEvent.event
  admits : M.AdmitsAll events
  imports : importBundle B config.peer bundleWire
    ⟨config.limits.maxEvents, config.limits.maxBundleBytes, MAX_BUNDLE_REFS⟩ M.tables =
      .ok ((M.admitAll events).tables, imported)
  inserted : imported.inserted = M.newCount events
  counted : imported.inserted + imported.alreadyPresent = response.bundle.events.length
  adds : state.report.addPage response imported = .ok report
  paged : report.pages = state.report.pages + 1

variable {requested known : List EventId} {expectedHeads : String} {state : PullState}
  {offset left : ℕ}

/-- The bounds of a client on a bundle are checked. -/
theorem PullLimits.Checked.bundleLimits {limits : PullLimits} (h : limits.Checked) :
    BundleLimits.new limits.maxEvents limits.maxBundleBytes MAX_BUNDLE_REFS =
      .ok ⟨limits.maxEvents, limits.maxBundleBytes, MAX_BUNDLE_REFS⟩ := by
  obtain ⟨⟨hevents, hbytes, -⟩, -⟩ := PullLimits.new_eq_ok.mp h
  rw [BundleLimits.new, ensure_true, ok_bind]
  exact ⟨hevents.1, hevents.2, hbytes.1, hbytes.2, (by decide : MAX_BUNDLE_REFS ≠ 0), le_rfl⟩

/-- The world after a round. -/
def Round.after (round : Round B limits responseLimit config requested known expectedHeads M S
    state offset) (foreign : List EventRow) : Exchange :=
  ⟨(M.admitAll round.events).tables, S.tables, foreign⟩

/-- The turns of a round. -/
def Round.turns (round : Round B limits responseLimit config requested known expectedHeads M S
    state offset) (foreign : List EventRow) : List MeetingTurn :=
  [⟨[], ⟨M.tables, S.tables, foreign⟩, .ask (.postExport round.wire), Except.ok round.body,
      ⟨M.tables, S.tables, foreign⟩⟩,
    ⟨[], ⟨M.tables, S.tables, foreign⟩, .call (.importBundle config.peer round.bundleWire
      ⟨config.limits.maxEvents, config.limits.maxBundleBytes, MAX_BUNDLE_REFS⟩),
      Except.ok round.imported, round.after foreign⟩]

theorem pagesImported_turns (round : Round B limits responseLimit config requested known
    expectedHeads M S state offset) : pagesImported (round.turns foreign) = 1 := rfl

/-- What is left of the page loop after a round. -/
def Round.rest (round : Round B limits responseLimit config requested known expectedHeads M S
    state offset) (left : ℕ) : Pulling PullReport :=
  match round.next with
  | none => Fallible.ofExcept (.ok round.report)
  | some (nextOffset, fingerprint, nextCursor) =>
    pullPages B config requested known expectedHeads left
      ⟨round.report, some nextCursor, nextOffset, some fingerprint⟩

/-- What the page loop does with an answered page. -/
def Answered.handled
    (answered : Answered B limits responseLimit config requested known expectedHeads S state offset)
    (left : ℕ) : Pulling PullReport := do
  let imported ← call (.importBundle config.peer answered.bundleWire
    ⟨config.limits.maxEvents, config.limits.maxBundleBytes, MAX_BUNDLE_REFS⟩) .store
  let report ← Fallible.ofExcept (state.report.addPage answered.response imported)
  match answered.next with
  | none => Fallible.ofExcept (.ok report)
  | some (nextOffset, fingerprint, nextCursor) =>
    pullPages B config requested known expectedHeads left
      ⟨report, some nextCursor, nextOffset, some fingerprint⟩

/-- The page loop asks for a page and goes on with the answer. -/
theorem Answered.asks (hlimits : config.limits.Checked) (hheads : Heads B requested known)
    (hcursor : Rendered B state.cursor)
    (answered : Answered B limits responseLimit config requested known expectedHeads S state offset)
    {turns : List MeetingTurn} {post : Except SyncError PullReport → MeetingHistory → Prop}
    (h : Keeps (Undisturbed B limits responseLimit) (fun _ ↦ True) (answered.handled left).run post
      ⟨turns ++ [⟨[], ⟨M.tables, S.tables, foreign⟩, .ask (.postExport answered.wire),
        Except.ok answered.body, ⟨M.tables, S.tables, foreign⟩⟩],
        ⟨M.tables, S.tables, foreign⟩⟩) :
    Keeps (Undisturbed B limits responseLimit) (fun _ ↦ True)
      (pullPages B config requested known expectedHeads (left + 1) state).run post
      ⟨turns, ⟨M.tables, S.tables, foreign⟩⟩ := by
  obtain ⟨hnew, wire, hwire, hsize, -⟩ := hheads.request hlimits hcursor
  obtain rfl : answered.wire = wire := Except.ok.inj (answered.rendered.symm.trans hwire)
  have hasks : Exchange.Occurs B limits responseLimit (.ask (.postExport answered.wire))
      ⟨M.tables, S.tables, foreign⟩ (Except.ok answered.body) ⟨M.tables, S.tables, foreign⟩ :=
    ⟨rfl, answered.served.symm⟩
  rw [pullPages]
  apply Keeps.ofOk hnew
  apply Keeps.ofOk hwire
  apply Keeps.bindT
  apply Keeps.ofOk (ensure_true hsize)
  refine ⟨trivial, fun answer s' occurs ↦ ?_⟩
  obtain ⟨rfl, rfl⟩ := occurs.eq hasks
  refine ⟨trivial, ?_⟩
  apply Keeps.ofOk answered.reads
  apply Keeps.ofOk answered.checks
  apply Keeps.ofOk (mapError_eq_ok.mpr answered.bundled)
  apply Keeps.ofOk (mapError_eq_ok.mpr hlimits.bundleLimits)
  exact h

/-- The page loop goes through a round. -/
theorem Round.goesOn (round : Round B limits responseLimit config requested known expectedHeads M S
      state offset) (hlimits : config.limits.Checked) (hheads : Heads B requested known)
    (hcursor : Rendered B state.cursor) {turns : List MeetingTurn}
    {post : Except SyncError PullReport → MeetingHistory → Prop}
    (h : Keeps (Undisturbed B limits responseLimit) (fun _ ↦ True) (round.rest left).run post
      ⟨turns ++ round.turns foreign, round.after foreign⟩) :
    Keeps (Undisturbed B limits responseLimit) (fun _ ↦ True)
      (pullPages B config requested known expectedHeads (left + 1) state).run post
      ⟨turns, ⟨M.tables, S.tables, foreign⟩⟩ := by
  have hcalls : Exchange.Occurs B limits responseLimit (.call (.importBundle config.peer
      round.bundleWire ⟨config.limits.maxEvents, config.limits.maxBundleBytes, MAX_BUNDLE_REFS⟩))
      ⟨M.tables, S.tables, foreign⟩ (Except.ok round.imported) (round.after foreign) :=
    ⟨_, (transact_ok round.imports).1, rfl⟩
  apply round.asks hlimits hheads hcursor
  apply Undisturbed.value hcalls
  · rfl
  apply Keeps.ofOk round.adds
  rw [List.append_assoc]
  exact h

/-- The page loop stops behind the last round that the page bound allows, when more is left. -/
theorem Round.overruns
    (round : Round B limits responseLimit config requested known expectedHeads M S state offset)
    (hlimits : config.limits.Checked) (hheads : Heads B requested known)
    (hcursor : Rendered B state.cursor) (hnext : round.next ≠ none) {turns : List MeetingTurn}
    {post : Except SyncError PullReport → MeetingHistory → Prop}
    (h : post (.error .limitExceeded) ⟨turns ++ round.turns foreign, round.after foreign⟩) :
    Keeps (Undisturbed B limits responseLimit) (fun _ ↦ True)
      (pullPages B config requested known expectedHeads 1 state).run post
      ⟨turns, ⟨M.tables, S.tables, foreign⟩⟩ := by
  obtain ⟨next, hnext⟩ := Option.ne_none_iff_exists'.mp hnext
  apply round.goesOn hlimits hheads hcursor
  rw [Round.rest, hnext]
  exact ⟨trivial, h⟩

/-- The page loop ends behind the round of the last page. -/
theorem Round.completes (round : Round B limits responseLimit config requested known expectedHeads M
      S state offset) (hlimits : config.limits.Checked) (hheads : Heads B requested known)
    (hcursor : Rendered B state.cursor) (hnext : round.next = none) {turns : List MeetingTurn}
    {post : Except SyncError PullReport → MeetingHistory → Prop}
    (h : post (.ok round.report) ⟨turns ++ round.turns foreign, round.after foreign⟩) :
    Keeps (Undisturbed B limits responseLimit) (fun _ ↦ True)
      (pullPages B config requested known expectedHeads (left + 1) state).run post
      ⟨turns, ⟨M.tables, S.tables, foreign⟩⟩ := by
  apply round.goesOn hlimits hheads hcursor
  rw [Round.rest, hnext]
  exact ⟨trivial, h⟩

/-- What the server answers, the loop lets pass once it has parsed it. -/
theorem Answered.of_served (hS : S.WellFormed) (hlimits : config.limits.Checked)
    (hheads : Heads B requested known)
    (hstands : Stands B config requested (S.heldHeads config.context known) offset state)
    (hexpected : requestedHeadFingerprint B config.context requested = .ok expectedHeads)
    {wire body : Bytes} (hrendered : (state.request config requested known).toWire B = .ok wire)
    (hserved : serve B limits responseLimit S.tables (.postExport wire) = .ok body)
    {response : ExportResponse B} (hparsed : ExportResponse.fromWire B body = .ok response) :
    ∃ answered : Answered B limits responseLimit config requested known expectedHeads S state
      offset, answered.wire = wire ∧ answered.body = body := by
  obtain ⟨-, wire', hwire, -, hread⟩ := hheads.request hlimits hstands.rendered
  obtain rfl : wire = wire' := Except.ok.inj (hrendered.symm.trans hwire)
  obtain ⟨hpost, -⟩ := serve_postExport.mp hserved
  obtain ⟨-, -, page, hpage, -⟩ := (postExport_eq_ok hread).mp hpost
  obtain ⟨_, _, _, plan, _, hpage, -⟩ := exportResponse_eq_ok hS hread hpage
  obtain ⟨next, hcheck, haccepted⟩ :=
    hstands.accepts hS hread hpost hparsed hpage.planned hexpected
  obtain ⟨hbody, -⟩ := ExportResponse.fromWire_eq_ok hparsed
  obtain ⟨bundleWire, -, hbundle, -⟩ := ExportResponse.toWire_iff.mp hbody
  exact ⟨⟨wire, body, plan, response, next, bundleWire, hrendered, hserved, hpage.planned,
    hparsed, hcheck, haccepted, hbundle⟩, rfl, rfl⟩

/-- A server of few, unmarked events answers every page under the largest bounds. -/
theorem Answered.of_few (hS : S.WellFormed) (hfew : S.events.length ≤ 7)
    (hunmarked : ∀ e ∈ S.events, e.event.Unmarked B)
    (hlimits : config.limits.Checked) (hheads : Heads B requested known)
    (hstands : Stands B config requested (S.heldHeads config.context known) offset state)
    (hexpected : requestedHeadFingerprint B config.context requested = .ok expectedHeads)
    (hbounds : (∀ wire, (state.request config requested known).toWire B = .ok wire →
        wire.length ≤ limits.maxRequestBodyBytes) ∧
      limits.maxResponseBodyBytes = MAX_SYNC_RESPONSE_BODY_BYTES ∧
      limits.maxResponseBodyBytes ≤ responseLimit ∧
      (config.limits.maxBundleBytes = MAX_BUNDLE_CANONICAL_BYTES ∨ planOn B S.tables
        config.context requested (S.heldHeads config.context known) = .ok []))
    (hactive : ∃ r, S.registration config.context = some r ∧ r.active = true)
    (hheld : ∀ head ∈ requested, S.Holds config.context head)
    (hoffset : ∀ plan, planOn B S.tables config.context requested
      (S.heldHeads config.context known) = .ok plan → offset < plan.length ∨ plan = [] ∧ offset = 0)
    (hflag : ∀ flag, canonicalLength B (.bool flag) ≤ 5) :
    Nonempty (Answered B limits responseLimit config requested known expectedHeads S state
      offset) := by
  obtain ⟨hrequest, hresponse, hlimit, hbytes⟩ := hbounds
  obtain ⟨-, wire, hwire, -, hread⟩ := hheads.request hlimits hstands.rendered
  obtain ⟨body, hbody⟩ := postExport_of_few hS hfew hunmarked hread
    ⟨hrequest wire hwire, hresponse⟩ hbytes hactive hheld hstands.reads hoffset hstands.pinned hflag
  obtain ⟨-, -, response, hexport, hbodyWire⟩ := (postExport_eq_ok hread).mp hbody
  obtain ⟨_, _, _, _, _, hpage, -⟩ := exportResponse_eq_ok hS hread hexport
  have hclear : response.bundle.Unmarked := fun event hevent ↦ by
    obtain ⟨e, he, rfl, -⟩ := hpage.stored hS event hevent
    exact hunmarked e he
  have hshort := (length_postExport_le hbody).2
  have hserved : serve B limits responseLimit S.tables (.postExport wire) = .ok body :=
    serve_postExport.mpr ⟨hbody, hshort.trans hlimit⟩
  obtain ⟨answered, -⟩ := Answered.of_served hS hlimits hheads hstands hexpected hwire hserved
    (hpage.fromWire hS hclear hbodyWire)
  exact ⟨answered⟩

/-- An answered page that the client imports makes a round. -/
theorem Answered.round (hM : M.WellFormed) (hS : S.WellFormed)
    (hstands : Stands B config requested (S.heldHeads config.context known) offset state)
    (hpages : state.report.pages < MAX_PULL_PAGES)
    (answered : Answered B limits responseLimit config requested known expectedHeads S state offset)
    {t : Tables} {imported : ImportReport} (himports : importBundle B config.peer
      answered.bundleWire ⟨config.limits.maxEvents, config.limits.maxBundleBytes, MAX_BUNDLE_REFS⟩
        M.tables = .ok (t, imported)) :
    ∃ round : Round B limits responseLimit config requested known expectedHeads M S state offset,
      round.toAnswered = answered ∧ round.imported = imported := by
  obtain ⟨⟨-, hfits, -⟩, -, es, hlisted, -, hadmits, rfl, rfl⟩ :=
    (importPage_eq_ok hM answered.reads answered.bundled).mp himports
  have hlength := Ledger.planOn_length hS answered.planned
  have hcounted : (⟨M.newCount es, es.length - M.newCount es, 0⟩ : ImportReport).inserted +
      (⟨M.newCount es, es.length - M.newCount es, 0⟩ : ImportReport).alreadyPresent =
        answered.response.bundle.events.length := by
    rw [hlisted, List.length_map]
    exact Nat.add_sub_cancel' (Ledger.newCount_le M es)
  obtain ⟨report, hadds, hpaged⟩ := hstands.addPage answered.accepted hlength hpages hcounted
  exact ⟨⟨answered, es, _, report, hfits, hlisted, hadmits, himports, rfl, hcounted, hadds,
    hpaged⟩, rfl, rfl⟩

/-- An answered page whose events the client admits makes a round. -/
theorem Answered.admitted (hM : M.WellFormed) (hS : S.WellFormed) (hlimits : config.limits.Checked)
    (hstands : Stands B config requested (S.heldHeads config.context known) offset state)
    (hpages : state.report.pages < MAX_PULL_PAGES)
    (answered : Answered B limits responseLimit config requested known expectedHeads S state offset)
    (hfits : answered.bundleWire.length ≤ config.limits.maxBundleBytes)
    (hregistered : M.registration config.context ≠ none) {es : List (StoredEvent B)}
    (hlisted : answered.response.bundle.events = es.map StoredEvent.event)
    (hadmits : M.AdmitsAll es) :
    ∃ round : Round B limits responseLimit config requested known expectedHeads M S state offset,
      round.toAnswered = answered ∧ round.events = es ∧
        round.imported.inserted = M.newCount es := by
  have hbundle : validateBundleLimits ⟨config.limits.maxEvents, config.limits.maxBundleBytes,
      MAX_BUNDLE_REFS⟩ = .ok () := by
    rw [validateBundleLimits, hlimits.bundleLimits, ok_bind]
  have hcontexts : ∀ e ∈ es, e.context = answered.response.context := by
    intro e he
    obtain ⟨-, hcontext, -⟩ := ExportResponse.fromWire_eq_ok answered.reads
    rw [← hcontext]
    exact answered.response.bundle.event_context e.event
      (hlisted ▸ List.mem_map_of_mem he)
  rw [← answered.accepted.context] at hregistered
  have himports : importBundle B config.peer answered.bundleWire
      ⟨config.limits.maxEvents, config.limits.maxBundleBytes, MAX_BUNDLE_REFS⟩ M.tables =
        .ok ((M.admitAll es).tables, _) :=
    (importPage_eq_ok hM answered.reads answered.bundled).mpr
      ⟨⟨hbundle, hfits, answered.accepted.bounded⟩, hregistered, es, hlisted, hcontexts, hadmits,
        rfl, rfl⟩
  obtain ⟨round, rfl, himported⟩ := answered.round hM hS hstands hpages himports
  have hsame : round.events = es := List.map_injective_iff.mpr (fun _ _ ↦ StoredEvent.ext_event)
    (round.listed.symm.trans hlisted)
  exact ⟨round, rfl, hsame, congrArg ImportReport.inserted himported⟩

/-- The page loop stops at an answered page whose import fails. -/
theorem Answered.stops (hlimits : config.limits.Checked) (hheads : Heads B requested known)
    (hcursor : Rendered B state.cursor)
    (answered : Answered B limits responseLimit config requested known expectedHeads S state offset)
    {error : StoreError} (himports : importBundle B config.peer answered.bundleWire
      ⟨config.limits.maxEvents, config.limits.maxBundleBytes, MAX_BUNDLE_REFS⟩ M.tables =
        .error error) {turns : List MeetingTurn}
    {post : Except SyncError PullReport → MeetingHistory → Prop}
    (h : ∀ failed, post (.error (.store failed)) ⟨turns ++
      [⟨[], ⟨M.tables, S.tables, foreign⟩, .ask (.postExport answered.wire),
          Except.ok answered.body, ⟨M.tables, S.tables, foreign⟩⟩,
        ⟨[], ⟨M.tables, S.tables, foreign⟩, .call (.importBundle config.peer answered.bundleWire
          ⟨config.limits.maxEvents, config.limits.maxBundleBytes, MAX_BUNDLE_REFS⟩),
          Except.error failed, ⟨M.tables, S.tables, foreign⟩⟩],
      ⟨M.tables, S.tables, foreign⟩⟩) :
    Keeps (Undisturbed B limits responseLimit) (fun _ ↦ True)
      (pullPages B config requested known expectedHeads (left + 1) state).run post
      ⟨turns, ⟨M.tables, S.tables, foreign⟩⟩ := by
  obtain ⟨hsame, failed, hfailed⟩ := transact_error himports none
  have hcalls : Exchange.Occurs B limits responseLimit (.call (.importBundle config.peer
      answered.bundleWire ⟨config.limits.maxEvents, config.limits.maxBundleBytes,
        MAX_BUNDLE_REFS⟩)) ⟨M.tables, S.tables, foreign⟩ (Except.error failed)
      ⟨M.tables, S.tables, foreign⟩ := ⟨_, Prod.ext hsame hfailed, rfl⟩
  apply answered.asks hlimits hheads hcursor
  apply Undisturbed.error hcalls rfl
  rw [List.append_assoc]
  exact h failed

/-- The page loop stops, or it goes through a round. -/
theorem pullPages_round (hM : M.WellFormed) (hS : S.WellFormed) (hlimits : config.limits.Checked)
    (hheads : Heads B requested known)
    (hstands : Stands B config requested (S.heldHeads config.context known) offset state)
    (hexpected : requestedHeadFingerprint B config.context requested = .ok expectedHeads)
    (hpages : state.report.pages < MAX_PULL_PAGES) {turns : List MeetingTurn}
    {post : Except SyncError PullReport → MeetingHistory → Prop}
    (hstops : IsEmpty (Round B limits responseLimit config requested known expectedHeads M S state
      offset) → ∀ error turns', pagesImported turns' = 0 → post (.error error)
        ⟨turns ++ turns', ⟨M.tables, S.tables, foreign⟩⟩)
    (hround : ∀ round : Round B limits responseLimit config requested known expectedHeads M S state
      offset, Keeps (Undisturbed B limits responseLimit) (fun _ ↦ True) (round.rest left).run post
        ⟨turns ++ round.turns foreign, round.after foreign⟩) :
    Keeps (Undisturbed B limits responseLimit) (fun _ ↦ True)
      (pullPages B config requested known expectedHeads (left + 1) state).run post
      ⟨turns, ⟨M.tables, S.tables, foreign⟩⟩ := by
  by_cases hsome : Nonempty (Round B limits responseLimit config requested known expectedHeads M S
    state offset)
  · obtain ⟨round⟩ := hsome
    exact round.goesOn hlimits hheads hstands.rendered (hround round)
  rw [not_nonempty_iff] at hsome
  obtain ⟨hnew, wire, hwire, hsize, -⟩ := hheads.request hlimits hstands.rendered
  cases hserved : serve B limits responseLimit S.tables (.postExport wire) with
  | error error =>
    have hasks : Exchange.Occurs B limits responseLimit (.ask (.postExport wire))
        ⟨M.tables, S.tables, foreign⟩ (Except.error error) ⟨M.tables, S.tables, foreign⟩ :=
      ⟨rfl, hserved.symm⟩
    rw [pullPages]
    apply Keeps.ofOk hnew
    apply Keeps.ofOk hwire
    apply Keeps.bindT
    apply Keeps.ofOk (ensure_true hsize)
    refine ⟨trivial, fun answer s' occurs ↦ ?_⟩
    obtain ⟨rfl, rfl⟩ := occurs.eq hasks
    exact ⟨trivial, hstops hsome _ _ rfl⟩
  | ok body =>
    cases hparsed : ExportResponse.fromWire B body with
    | error error =>
      have hasks : Exchange.Occurs B limits responseLimit (.ask (.postExport wire))
          ⟨M.tables, S.tables, foreign⟩ (Except.ok body) ⟨M.tables, S.tables, foreign⟩ :=
        ⟨rfl, hserved.symm⟩
      rw [pullPages]
      apply Keeps.ofOk hnew
      apply Keeps.ofOk hwire
      apply Keeps.bindT
      apply Keeps.ofOk (ensure_true hsize)
      refine ⟨trivial, fun answer s' occurs ↦ ?_⟩
      obtain ⟨rfl, rfl⟩ := occurs.eq hasks
      refine ⟨trivial, ?_⟩
      exact Keeps.ofError hparsed trivial (hstops hsome _ _ rfl)
    | ok response =>
    obtain ⟨answered, rfl, rfl⟩ := Answered.of_served hS hlimits hheads hstands hexpected hwire
      hserved hparsed
    -- the import fails, as there is no round
    cases himports : importBundle B config.peer answered.bundleWire ⟨config.limits.maxEvents,
      config.limits.maxBundleBytes, MAX_BUNDLE_REFS⟩ M.tables with
    | ok outcome =>
      obtain ⟨round, -⟩ := answered.round hM hS hstands hpages himports
      exact (hsome.false round).elim
    | error error =>
      apply answered.stops hlimits hheads hstands.rendered himports
      exact fun failed ↦ hstops hsome _ _ rfl

/-! ### The end -/

/-- The replacement of the refs ends the pull. -/
theorem publish_ends {refs : List AdvertisedRef} {report : PullReport} {t t' server : Tables}
    {count : ℕ} (hreplaced : replaceRemoteRefSnapshot B config.peer config.context refs t =
      .ok (t', count)) {turns : List MeetingTurn}
    {post : Except SyncError PullReport → MeetingHistory → Prop}
    (h : post (.ok { report with remoteRefsUpdated := count }) ⟨turns ++
      [⟨[], ⟨t, server, foreign⟩, .call (.replaceRemoteRefSnapshot config.peer config.context refs),
        Except.ok count, ⟨t', server, foreign⟩⟩], ⟨t', server, foreign⟩⟩) :
    Keeps (Undisturbed B limits responseLimit) (fun _ ↦ True) (publish config refs report).run post
      ⟨turns, ⟨t, server, foreign⟩⟩ := by
  have hcalls : Exchange.Occurs B limits responseLimit
      (.call (.replaceRemoteRefSnapshot config.peer config.context refs)) ⟨t, server, foreign⟩
      (Except.ok count) ⟨t', server, foreign⟩ := ⟨_, (transact_ok hreplaced).1, rfl⟩
  apply Undisturbed.value hcalls
  · rfl
  exact ⟨trivial, h⟩

/-- A pull that cannot replace the refs ends with an error of the store. -/
theorem publish_stops {refs : List AdvertisedRef} {report : PullReport} {t server : Tables}
    {error : StoreError} (hreplaced : replaceRemoteRefSnapshot B config.peer config.context refs t =
      .error error) {turns : List MeetingTurn}
    {post : Except SyncError PullReport → MeetingHistory → Prop}
    (h : ∀ failed turns', post (.error (.store failed)) ⟨turns ++ turns', ⟨t, server, foreign⟩⟩) :
    Keeps (Undisturbed B limits responseLimit) (fun _ ↦ True) (publish config refs report).run post
      ⟨turns, ⟨t, server, foreign⟩⟩ := by
  obtain ⟨hsame, failed, hfailed⟩ := transact_error hreplaced none
  have hcalls : Exchange.Occurs B limits responseLimit
      (.call (.replaceRemoteRefSnapshot config.peer config.context refs)) ⟨t, server, foreign⟩
      (Except.error failed) ⟨t, server, foreign⟩ := ⟨_, Prod.ext hsame hfailed, rfl⟩
  apply Undisturbed.error hcalls rfl
  exact h failed _

section Golden

open Reference

/-- A pull of the fixture, with so many events a page and so many pages. -/
def goldenPull (maxEvents maxPages : ℕ) : PullClientConfig :=
  ⟨Golden.peer, Golden.context, ⟨maxEvents, MAX_BUNDLE_CANONICAL_BYTES, maxPages⟩, .default⟩

theorem goldenPull_checked {maxEvents maxPages : ℕ}
    (hevents : maxEvents ≠ 0 ∧ maxEvents ≤ MAX_BUNDLE_EVENTS)
    (hpages : maxPages ≠ 0 ∧ maxPages ≤ MAX_PULL_PAGES) :
    (goldenPull maxEvents maxPages).limits.Checked :=
  PullLimits.new_eq_ok.mpr
    ⟨⟨hevents, ⟨(by decide : MAX_BUNDLE_CANONICAL_BYTES ≠ 0), le_rfl⟩, hpages⟩, rfl⟩

theorem advanced_requested (maxEvents maxPages : ℕ) :
    requestedHeads Golden.advanced (goldenPull maxEvents maxPages).context = [Golden.second.id] :=
  normalize_eq_self (canonical_singleton _ _)

theorem rooted_known (maxEvents maxPages : ℕ) :
    knownHeads Golden.rooted (goldenPull maxEvents maxPages) = [] := rfl

theorem advanced_active : ∃ r, Golden.advanced.registration Golden.context = some r ∧
    r.active = true := ⟨_, rfl, rfl⟩

/-- A client that knows few heads opens a pull from the fixture. -/
theorem goldenPull_opens (limits : TransportLimits) {M : Ledger Golden.B} (maxEvents maxPages : ℕ)
    (hknown : (knownHeads M (goldenPull maxEvents maxPages)).length ≤ MAX_BUNDLE_REFS) :
    Opens Golden.B limits MAX_SYNC_RESPONSE_BODY_BYTES (goldenPull maxEvents maxPages) M
      Golden.advanced := by
  obtain ⟨wire, hwire⟩ := getRefs_succeeds Golden.advanced_wellFormed advanced_active
    (by decide : 1 ≤ MAX_BUNDLE_REFS)
  exact ⟨⟨wire, serve_getRefs.mpr ⟨hwire, length_getRefs_le hwire⟩⟩, hknown⟩

/-- The server of the fixture answers the first page to a client that knows no head. -/
theorem goldenPull_answered (limits : TransportLimits) {maxEvents maxPages : ℕ}
    (hchecked : (goldenPull maxEvents maxPages).limits.Checked)
    (hrequest : ∀ wire, ((PullState.start).request (goldenPull maxEvents maxPages)
      [Golden.second.id] []).toWire Golden.B = .ok wire → wire.length ≤ limits.maxRequestBodyBytes)
    (hresponse : limits.maxResponseBodyBytes = MAX_SYNC_RESPONSE_BODY_BYTES)
    {expectedHeads : String} (hexpected : requestedHeadFingerprint Golden.B Golden.context
      [Golden.second.id] = .ok expectedHeads) :
    ∃ answered : Answered Golden.B limits MAX_SYNC_RESPONSE_BODY_BYTES
        (goldenPull maxEvents maxPages) [Golden.second.id] [] expectedHeads Golden.advanced .start
        0, answered.plan = wholePlan := by
  have hheads : Heads Golden.B [Golden.second.id] [] :=
    ⟨List.cons_ne_nil _ _, canonical_singleton _ _, canonical_nil _,
      (by decide : 1 ≤ MAX_BUNDLE_REFS), Nat.zero_le _⟩
  obtain ⟨answered⟩ := Answered.of_few Golden.advanced_wellFormed (by decide : 2 ≤ 7)
    advanced_unmarked hchecked hheads (.start _) hexpected
    ⟨hrequest, hresponse, hresponse.le, Or.inl rfl⟩ advanced_active
    (fun head hhead ↦ ⟨Golden.second, second_stored, (List.mem_singleton.mp hhead).symm, rfl⟩)
    (fun plan hplan ↦ by
      obtain rfl : plan = wholePlan := Except.ok.inj (hplan.symm.trans whole_planned)
      exact Or.inl (by decide : 0 < 2)) golden_flag
  exact ⟨answered, Except.ok.inj (answered.planned.symm.trans whole_planned)⟩

end Golden

end ContextMesh.Sync
