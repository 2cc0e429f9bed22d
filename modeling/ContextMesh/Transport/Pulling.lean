import ContextMesh.Foundation.Refinement
import ContextMesh.Sync.Idempotence
import ContextMesh.Transport.Refinement

/-!
A pull over HTTP. The client speaks to a server that others use at the same time: they write to its
store, they take its permits and its numbers, and the connection may break. A pull that comes to a
report has done, over HTTP, what it does in the plain exchange of questions and answers with the
store of the server; what HTTP adds are failures, and these end the pull.
-/

set_option autoImplicit false
set_option relaxedAutoImplicit false

namespace ContextMesh.Transport

open Checked Ordered Contract Store Sync Interaction

/-! ### The world of a pull over HTTP -/

/-- The store of a client and its server, with the events that others have added to the client. -/
structure Link where
  client : Tables
  server : AppState
  foreign : List EventRow

/-- What a pull can tell of the world. -/
def Link.exchange (w : Link) : Exchange := ⟨w.client, w.server.store, w.foreign⟩

/-- Requests come and go: they take numbers and permits, and leave the rest. -/
inductive Traffic (app : AppState) : AppState → Prop
  | passes (counter permits : ℕ) : Traffic app
      { app with requestIds := { app.requestIds with counter := counter }, permits := permits }

variable (B : Boundary) (keyedHash : Fixed 32 → Bytes → Fixed 32)

/-- A question goes over HTTP, or its connection fails; everything else is done at the client. -/
def Link.Occurs (http : HttpClient) (limits : TransportLimits) :
    Effect (Action PeerRequest) (Action.Answer PeerRequest.Reply) Link
  | .ask question, w, answer, w' =>
    (∃ app, Traffic w.server app ∧ w' = { w with server := app }) ∧
      (http.Asks B keyedHash w.server question answer ∨ ∃ error, answer = .error error)
  | action, w, answer, w' =>
    w'.server = w.server ∧
      Exchange.Occurs B limits http.responseLimit action w.exchange answer w'.exchange

/-- Others call operations of either store, or send requests to the server. -/
inductive Link.Moves : Link → Link → Prop
  | stores {w w' : Link} (moved : Exchange.Moves B w.exchange w'.exchange)
      (served : w'.server = { w.server with store := w'.server.store }) : Link.Moves w w'
  | traffic {w : Link} {app : AppState} (passes : Traffic w.server app) :
      Link.Moves w { w with server := app }

/-- The actions of a pull over HTTP, with the moves of others in between. -/
abbrev Links (http : HttpClient) (limits : TransportLimits) :
    Effect (Action PeerRequest) (Action.Answer PeerRequest.Reply)
      (History (Action PeerRequest) (Action.Answer PeerRequest.Reply) Link) :=
  History.Occurs (Link.Occurs B keyedHash http limits) (Link.Moves B)

/-- A question that is answered with an error. -/
def Unanswered : (action : Action PeerRequest) → Action.Answer PeerRequest.Reply action → Prop
  | .ask _, answer => ∃ error, answer = Except.error error
  | _, _ => False

variable {B keyedHash} {http : HttpClient} {limits : ServerLimits}

/-! ### Answers of a busy server -/

/-- A server without a permit or a number refuses. -/
theorem guard_unready {app : AppState} (h : ¬ Ready app) (request : Request) :
    ¬ (200 ≤ (guard B keyedHash app request).2.status ∧
      (guard B keyedHash app request).2.status < 300) := by
  rw [guard, enter, RequestIds.next, checkedAdd]
  by_cases hnumber : app.requestIds.counter + 1 < 2 ^ 64
  · rw [if_pos hnumber]
    dsimp only
    generalize "req1_" ++ _ = requestId
    cases hscreen : screen B app requestId request with
    | some response =>
      simp only [screen, limitExceeded] at hscreen
      split_ifs at hscreen
      · rw [← Option.some.inj hscreen]
        simp
      · rw [← Option.some.inj hscreen]
        simp
      · rw [← Option.some.inj hscreen]
        simp
    | none =>
      have hpermits : app.permits = 0 := by
        by_contra hpermits
        exact h ⟨hpermits, hnumber⟩
      dsimp only
      rw [if_pos hpermits]
      simp
  · rw [if_neg hnumber]
    simp

/-- Whatever its load, a server answers what `serve` says, or the client reads an error. -/
theorem asks_serve_or_fails {client : HttpClient} {server : AppState}
    (hhash : server.authHash = client.token.hash B)
    (hlimits : ServerLimits.new server.limits.maxRequestBodyBytes
      server.limits.maxResponseBodyBytes server.limits.maxConcurrentRequests = .ok server.limits)
    (hresponse : client.responseLimit ≤ MAX_SYNC_RESPONSE_BODY_BYTES) {question : PeerRequest}
    {result : Except SyncError Bytes} (h : client.Asks B keyedHash server question result) :
    result = serve B server.limits.toTransportLimits client.responseLimit server.store question ∨
      ∃ error, result = .error error := by
  by_cases hready : Ready server
  · left
    cases question with
    | getRefs context => exact (asks_getRefs_iff keyedHash hready hhash hresponse _ _).mp h
    | postExport wire =>
      exact (asks_postExport_iff keyedHash hready hhash hlimits hresponse _ _).mp h
  · right
    cases h with
    | getRefs fields arrives =>
      exact ⟨_, readReply_failure arrives (guard_unready hready _)⟩
    | tooLong refused => exact ⟨_, rfl⟩
    | postExport fields cut sent arrives =>
      exact ⟨_, readReply_failure arrives (guard_unready hready _)⟩

/-! ### The pull ends at failures -/

theorem heeds_call (operation : Operation) :
    (call operation SyncError.store :
      Pulling operation.Result).run.Heeds Unanswered :=
  Program.Heeds.attempt fun _ hfails ↦ hfails.elim

theorem heeds_requestPage (wire : Bytes) : (requestPage wire).run.Heeds Unanswered :=
  Program.Heeds.bindT (Program.Heeds.ofExcept _) fun _ ↦
    Program.Heeds.attempt fun _ hfails ↦ hfails

theorem heeds_pullPages (config : PullClientConfig) (requestedHeads knownHeads : List EventId)
    (expectedHeads : String) (left : ℕ) (state : PullState) :
    (pullPages B config requestedHeads knownHeads expectedHeads left state).run.Heeds
      Unanswered := by
  induction left generalizing state with
  | zero => exact Program.Heeds.ofExcept _
  | succ left ih =>
    rw [pullPages]
    refine .bindT (.ofExcept _) fun request ↦ .bindT (.ofExcept _) fun requestWire ↦
      .bindT (heeds_requestPage requestWire) fun responseWire ↦ .bindT (.ofExcept _) fun response ↦
      .bindT (.ofExcept _) fun next ↦ .bindT (.ofExcept _) fun bundleWire ↦
      .bindT (.ofExcept _) fun limits ↦ .bindT (heeds_call _) fun imported ↦
      .bindT (.ofExcept _) fun report ↦ ?_
    cases next with
    | none => exact Program.Heeds.ofExcept _
    | some next => exact ih _

theorem heeds_pull (config : PullClientConfig) : (pull B config).run.Heeds Unanswered := by
  rw [pull]
  refine .bindT (.attempt fun _ hfails ↦ hfails) fun refsWire ↦ .bindT (.ofExcept _) fun snapshot ↦
    .bindT (.ofExcept _) fun _ ↦ .bindT (.attempt fun _ hfails ↦ hfails.elim) fun locals ↦
    .bindT (.attempt fun _ hfails ↦ hfails.elim) fun remote ↦ .bindT (.ofExcept _) fun _ ↦ ?_
  by_cases hnone : normalize (EventId.text B) (snapshot.refs.map AdvertisedRef.head) = []
  · rw [if_pos hnone]
    exact .bindT (heeds_call _) fun updated ↦ .ofExcept _
  · rw [if_neg hnone]
    exact .bindT (.ofExcept _) fun expectedHeads ↦
      .bindT (heeds_pullPages config _ _ expectedHeads _ _) fun report ↦
      .bindT (heeds_call _) fun updated ↦ .ofExcept _

/-! ### The plain exchange -/

variable (B) in
/-- The server knows the token of the client and has the given limits. -/
def Serves (http : HttpClient) (limits : ServerLimits) (w : Link) : Prop :=
  w.server.authHash = http.token.hash B ∧ w.server.limits = limits

theorem Traffic.serves {w : Link} {app : AppState} (h : Traffic w.server app)
    (hw : Serves B http limits w) :
    Serves B http limits { w with server := app } ∧
      Link.exchange { w with server := app } = w.exchange := by
  cases h
  exact ⟨hw, rfl⟩

/-- A server of given limits, whatever its load, refines the plain exchange up to failures. -/
theorem link_refines (hlimits : ServerLimits.new limits.maxRequestBodyBytes
      limits.maxResponseBodyBytes limits.maxConcurrentRequests = .ok limits)
    (hresponse : http.responseLimit ≤ MAX_SYNC_RESPONSE_BODY_BYTES) :
    Refines (Link.Occurs B keyedHash http limits.toTransportLimits) (Link.Moves B)
      (Exchange.Occurs B limits.toTransportLimits http.responseLimit) (Exchange.Moves B) Unanswered
      Link.exchange (Serves B http limits) where
  moves w w' hw moves := by
    cases moves with
    | stores moved served =>
      refine ⟨?_, Or.inl moved⟩
      rw [Serves, served]
      exact hw
    | traffic passes =>
      obtain ⟨hserves, hsame⟩ := passes.serves hw
      exact ⟨hserves, Or.inr hsame⟩
  acts action w answer w' hw occurs := by
    cases action with
    | ask question =>
      obtain ⟨⟨app, passes, rfl⟩, hasks | hfails⟩ := occurs
      · obtain ⟨hserves, hsame⟩ := passes.serves hw
        refine ⟨hserves, ?_⟩
        obtain ⟨hhash, rfl⟩ := hw
        rcases asks_serve_or_fails hhash hlimits hresponse hasks with hserved | hfails
        · exact Or.inr ⟨hsame, hserved⟩
        · exact Or.inl hfails
      · exact ⟨(passes.serves hw).1, Or.inl hfails⟩
    | call operation =>
      obtain ⟨hserver, hoccurs⟩ := occurs
      exact ⟨by rw [Serves, hserver]; exact hw, Or.inr hoccurs⟩
    | project context heads limits =>
      obtain ⟨hserver, hoccurs⟩ := occurs
      exact ⟨by rw [Serves, hserver]; exact hw, Or.inr hoccurs⟩
    | listLocalRefs context =>
      obtain ⟨hserver, hoccurs⟩ := occurs
      exact ⟨by rw [Serves, hserver]; exact hw, Or.inr hoccurs⟩
    | listRemoteRefs peer context =>
      obtain ⟨hserver, hoccurs⟩ := occurs
      exact ⟨by rw [Serves, hserver]; exact hw, Or.inr hoccurs⟩

/-- The link with the given exchange and the rest of the server unchanged. -/
def Link.put (w : Link) (e : Exchange) : Link :=
  ⟨e.client, { w.server with store := e.server }, e.foreign⟩

/-- A server with a permit and a number left can take every step of the plain exchange. -/
theorem link_realizes (hlimits : ServerLimits.new limits.maxRequestBodyBytes
      limits.maxResponseBodyBytes limits.maxConcurrentRequests = .ok limits)
    (hresponse : http.responseLimit ≤ MAX_SYNC_RESPONSE_BODY_BYTES) :
    Realizes (Link.Occurs B keyedHash http limits.toTransportLimits) (Link.Moves B)
      (Exchange.Occurs B limits.toTransportLimits http.responseLimit) (Exchange.Moves B)
      Link.exchange (fun w ↦ Serves B http limits w ∧ Ready w.server) where
  moves w e hw moves := ⟨w.put e, .stores moves rfl, rfl, hw.1, hw.2.permit, hw.2.number⟩
  acts action w answer e hw occurs := by
    cases action with
    | ask question =>
      obtain ⟨rfl, hserved⟩ := occurs
      obtain ⟨⟨hhash, rfl⟩, hready⟩ := id hw
      have hasks : http.Asks B keyedHash w.server question answer := by
        cases question with
        | getRefs context =>
          exact (asks_getRefs_iff keyedHash hready hhash hresponse _ _).mpr hserved
        | postExport wire =>
          exact (asks_postExport_iff keyedHash hready hhash hlimits hresponse _ _).mpr hserved
      exact ⟨w, ⟨⟨w.server, .passes w.server.requestIds.counter w.server.permits, rfl⟩,
        Or.inl hasks⟩, rfl, hw⟩
    | call operation =>
      obtain ⟨after, hexecute, rfl⟩ := occurs
      exact ⟨{ w with client := after }, ⟨rfl, after, hexecute, rfl⟩, rfl, hw⟩
    | project context heads limits =>
      obtain ⟨rfl, hanswer⟩ := occurs
      exact ⟨w, ⟨rfl, rfl, hanswer⟩, rfl, hw⟩
    | listLocalRefs context =>
      obtain ⟨rfl, hanswer⟩ := occurs
      exact ⟨w, ⟨rfl, rfl, hanswer⟩, rfl, hw⟩
    | listRemoteRefs peer context =>
      obtain ⟨rfl, hanswer⟩ := occurs
      exact ⟨w, ⟨rfl, rfl, hanswer⟩, rfl, hw⟩

/-- Over HTTP a pull comes to a report in exactly the ways in which it does in the plain exchange
with the store of the server: by the same questions with the same answers, with the same report and
the same stores in the end, whatever other requests the server handles at the time, however the
network cuts the bodies and whichever connections break. -/
theorem pull_over_http (keyedHash : Fixed 32 → Bytes → Fixed 32) (config : PullClientConfig)
    (token : LoadedToken) (w : Link) (hready : Ready w.server)
    (hhash : w.server.authHash = token.hash B)
    (hlimits : ServerLimits.new w.server.limits.maxRequestBodyBytes
      w.server.limits.maxResponseBodyBytes w.server.limits.maxConcurrentRequests =
        .ok w.server.limits)
    (hresponse : config.transport.maxResponseBodyBytes ≤ MAX_SYNC_RESPONSE_BODY_BYTES)
    (report : PullReport) (final : Exchange)
    (deeds : List ((action : Action PeerRequest) × Action.Answer PeerRequest.Reply action)) :
    (∃ s, Runs (Links B keyedHash ⟨token, config.transport.maxResponseBodyBytes⟩
        w.server.limits.toTransportLimits) (pull B config).run ⟨[], w⟩ (.done (.ok report)) s ∧
      s.now.exchange = final ∧ s.deeds = deeds) ↔
    ∃ s, Runs (Meets B w.server.limits.toTransportLimits config.transport.maxResponseBodyBytes)
        (pull B config).run ⟨[], w.exchange⟩ (.done (.ok report)) s ∧
      s.now = final ∧ s.deeds = deeds :=
  (link_refines hlimits hresponse).value_iff (link_realizes hlimits hresponse) (heeds_pull config)
    ⟨hhash, rfl⟩ ⟨⟨hhash, rfl⟩, hready⟩

section Golden

open Reference Golden

/-- A server of the fixture, before its first request. -/
def branching : AppState :=
  .new advanced.tables (golden.hash Golden.B) ⟨.default, MAX_CONCURRENT_HTTP_REQUESTS⟩ (zeros 32)

/-- A client that holds the genesis follows the branch of the server, over HTTP: by its refs, a page
of two events and the new refs of the client. -/
theorem pull_over_http_followed : ∃ report s,
    Runs (Links Golden.B (fun seed _ ↦ seed) ⟨golden, MAX_SYNC_RESPONSE_BODY_BYTES⟩ .default)
      (pull Golden.B (onePagePull MAX_BUNDLE_CANONICAL_BYTES)).run
        ⟨[], ⟨rooted.tables, branching, []⟩⟩ (.done (.ok report)) s := by
  have hchecked : (onePagePull MAX_BUNDLE_CANONICAL_BYTES).limits.Checked :=
    onePagePull_checked (by decide)
  have hheads : Heads Golden.B [second.id] [] := rooted_heads (Nat.zero_le 1) (canonical_nil _)
  obtain ⟨report, s, hrun⟩ := rooted_follows .default
    (hheads.length_request_le hchecked (rendered_start _)) rfl
  obtain ⟨s', hrun', -⟩ := (pull_over_http (fun seed _ ↦ seed)
    (onePagePull MAX_BUNDLE_CANONICAL_BYTES) golden ⟨rooted.tables, branching, []⟩
    ⟨by decide, by decide⟩ rfl (by decide) le_rfl report s.now s.deeds).mpr
      ⟨s, hrun.mono fun _ _ _ _ occurs ↦ occurs.meets, rfl, rfl⟩
  exact ⟨report, s', hrun'⟩

end Golden

end ContextMesh.Transport
