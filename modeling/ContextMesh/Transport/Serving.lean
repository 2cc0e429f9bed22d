import ContextMesh.Ledger.Runs
import ContextMesh.Transport.Refinement
import Mathlib.Logic.Relation

/-!
The synchronization server under load. Requests arrive while others run, handlers read the store at
any moment, run out of time or lose their connection, and other processes write to the store. In
every interleaving the server runs no more handlers than it has permits for and loses none of them,
answers a success only with what a handler read while its request was running, and tells a client
without the token nothing that depends on the store or on the other clients' work.
-/

set_option autoImplicit false
set_option relaxedAutoImplicit false

namespace ContextMesh.Transport

open Checked Contract Store Sync Relation

/-! ### The server and its requests -/

/-- How far a request has come that is not answered yet. Its handler runs once it has entered. -/
inductive Phase
  | numbered
  | entered
  | handled (response : Response)

/-- A request that is not answered yet, with the states of the store since it arrived. -/
structure Live where
  number : ℕ
  requestId : String
  request : Request
  phase : Phase
  seen : List Tables

def Live.Holds (l : Live) : Prop := l.phase ≠ .numbered

instance (l : Live) : Decidable l.Holds :=
  match h : l.phase with
  | .numbered => isFalse (not_not_intro h)
  | .entered => isTrue (by rw [Live.Holds, h]; exact Phase.noConfusion)
  | .handled _ => isTrue (by rw [Live.Holds, h]; exact Phase.noConfusion)

/-- An answer, with the id of its request and the states of the store from its arrival on. -/
structure Answered where
  requestId : Option String
  request : Request
  response : Response
  seen : List Tables

structure Service where
  app : AppState
  arrived : List Request
  live : List Live
  answered : List Answered

def Service.start (app : AppState) : Service := ⟨app, [], [], []⟩

/-- The live requests whose handlers hold a permit. -/
def Service.held (s : Service) : ℕ := s.live.countP fun l ↦ l.Holds

def Service.reply (s : Service) (answer : Answered) : Service :=
  { s with answered := s.answered ++ [answer] }

/-- Gives the permit back. -/
def Service.release (s : Service) : Service :=
  { s with app := { s.app with permits := s.app.permits + 1 } }

variable (B : Boundary) (keyedHash : Fixed 32 → Bytes → Fixed 32)

/-- The request is answered before it is numbered or after the checks of its head, or waits for its
permit. -/
def Service.arrive (s : Service) (request : Request) : Service :=
  let s := { s with arrived := s.arrived ++ [request] }
  match s.app.requestIds.next B keyedHash with
  | (_, none) => s.reply ⟨none, request, errorResponse B 500 "internal" none, [s.app.store]⟩
  | (ids, some requestId) =>
    let numbered := { s with app := { s.app with requestIds := ids } }
    match screen B s.app requestId request with
    | some response => numbered.reply ⟨some requestId, request, response, [s.app.store]⟩
    | none => { numbered with
        live := s.live ++
          [⟨s.app.requestIds.counter, requestId, request, .numbered, [s.app.store]⟩] }

/-- One step of a request, or of another process that writes to the store. -/
inductive Service.Step : Service → Service → Prop
  | arrive (s : Service) (request : Request) : Service.Step s (s.arrive B keyedHash request)
  | enter {s : Service} {front back : List Live} {l : Live} (live : s.live = front ++ l :: back)
      (phase : l.phase = .numbered) (permit : s.app.permits ≠ 0) :
      Service.Step s { s with
        app := { s.app with permits := s.app.permits - 1 }
        live := front ++ { l with phase := .entered } :: back }
  | busy {s : Service} {front back : List Live} {l : Live} (live : s.live = front ++ l :: back)
      (phase : l.phase = .numbered) (permit : s.app.permits = 0) :
      Service.Step s (Service.reply { s with live := front ++ back }
        ⟨some l.requestId, l.request, errorResponse B 503 "unavailable" (some l.requestId), l.seen⟩)
  | handle {s : Service} {front back : List Live} {l : Live} (live : s.live = front ++ l :: back)
      (phase : l.phase = .entered) :
      Service.Step s { s with
        live := front ++ { l with
          phase := .handled (route B s.app.limits s.app.store l.requestId l.request) } :: back }
  | finish {s : Service} {front back : List Live} {l : Live} {response : Response}
      (live : s.live = front ++ l :: back) (phase : l.phase = .handled response) :
      Service.Step s (Service.reply (Service.release { s with live := front ++ back })
        ⟨some l.requestId, l.request, leave B l.requestId (some response), l.seen⟩)
  | expire {s : Service} {front back : List Live} {l : Live} (live : s.live = front ++ l :: back)
      (holds : l.Holds) :
      Service.Step s (Service.reply (Service.release { s with live := front ++ back })
        ⟨some l.requestId, l.request, leave B l.requestId none, l.seen⟩)
  | abandon {s : Service} {front back : List Live} {l : Live} (live : s.live = front ++ l :: back)
      (holds : l.Holds) : Service.Step s (Service.release { s with live := front ++ back })
  | write (s : Service) (operation : Operation) (fault : Option Fault) :
      Service.Step s { s with
        app := { s.app with store := (operation.execute B fault s.app.store).1 }
        live := s.live.map fun l ↦
          { l with seen := (operation.execute B fault s.app.store).1 :: l.seen } }

/-- What a server does from its first request on. -/
def Service.Run (app : AppState) (s : Service) : Prop :=
  ReflTransGen (Service.Step B keyedHash) (.start app) s

variable {B keyedHash}

/-! ### Arrivals -/

/-- The checks of a head depend on the token only. -/
theorem screen_congr {app app' : AppState} (h : app.authHash = app'.authHash) (requestId : String)
    (request : Request) : screen B app requestId request = screen B app' requestId request := by
  rw [screen, screen, h]

theorem authenticated_of_screen {app : AppState} {requestId : String} {request : Request}
    (h : screen B app requestId request = none) :
    authenticated B request.headers app.authHash = true := by
  unfold screen at h
  split_ifs at h with _ _ hrefused
  exact Bool.not_eq_false _ ▸ hrefused

theorem next_cases (B : Boundary) (keyedHash : Fixed 32 → Bytes → Fixed 32) (ids : RequestIds) :
    ids.next B keyedHash = (ids, none) ∨
    ∃ requestId, ids.next B keyedHash =
      ({ ids with counter := ids.counter + 1 }, some requestId) := by
  unfold RequestIds.next checkedAdd
  by_cases h : ids.counter + 1 < 2 ^ 64
  · rw [if_pos h]
    exact Or.inr ⟨_, rfl⟩
  · rw [if_neg h]
    exact Or.inl rfl

/-- The server after it gave a number to a request. -/
def Service.number (s : Service) (request : Request) : Service :=
  { s with
    app := { s.app with
      requestIds := { s.app.requestIds with counter := s.app.requestIds.counter + 1 } }
    arrived := s.arrived ++ [request] }

/-- An arrival is out of numbers, refused for its head, or waits for its permit. -/
theorem arrive_cases (B : Boundary) (keyedHash : Fixed 32 → Bytes → Fixed 32) (s : Service)
    (request : Request) :
    (s.app.requestIds.next B keyedHash = (s.app.requestIds, none) ∧
      s.arrive B keyedHash request = Service.reply { s with arrived := s.arrived ++ [request] }
        ⟨none, request, errorResponse B 500 "internal" none, [s.app.store]⟩) ∨
    ∃ requestId, s.app.requestIds.next B keyedHash =
        ({ s.app.requestIds with counter := s.app.requestIds.counter + 1 }, some requestId) ∧
      ((∃ response, screen B s.app requestId request = some response ∧
          s.arrive B keyedHash request = (s.number request).reply
            ⟨some requestId, request, response, [s.app.store]⟩) ∨
        (screen B s.app requestId request = none ∧
          s.arrive B keyedHash request = { s.number request with
            live := s.live ++
              [⟨s.app.requestIds.counter, requestId, request, .numbered, [s.app.store]⟩] })) := by
  rcases next_cases B keyedHash s.app.requestIds with hnone | ⟨id, hid⟩
  · refine Or.inl ⟨hnone, ?_⟩
    rw [Service.arrive]
    dsimp only
    rw [hnone]
  · refine Or.inr ⟨id, hid, ?_⟩
    have harrive : s.arrive B keyedHash request = match screen B s.app id request with
        | some response => (s.number request).reply ⟨some id, request, response, [s.app.store]⟩
        | none => { s.number request with
            live := s.live ++ [⟨s.app.requestIds.counter, id, request, .numbered, [s.app.store]⟩] }
        := by
      rw [Service.arrive]
      dsimp only
      rw [hid]
      rfl
    rw [harrive]
    cases hscreen : screen B s.app id request with
    | some response => exact Or.inl ⟨response, rfl, rfl⟩
    | none => exact Or.inr ⟨rfl, rfl⟩

/-! ### The invariant of a server -/

/-- Where an answer comes from. -/
inductive Answered.Justified (B : Boundary) (app : AppState) : Answered → Prop
  | exhausted (request : Request) (seen : List Tables) :
      Answered.Justified B app ⟨none, request, errorResponse B 500 "internal" none, seen⟩
  | refused {requestId : String} {request : Request} {response : Response} (seen : List Tables)
      (refusal : screen B app requestId request = some response) :
      Answered.Justified B app ⟨some requestId, request, response, seen⟩
  | busy {requestId : String} {request : Request} (seen : List Tables)
      (passes : screen B app requestId request = none) :
      Answered.Justified B app
        ⟨some requestId, request, errorResponse B 503 "unavailable" (some requestId), seen⟩
  | handled {requestId : String} {request : Request} {seen : List Tables} {t : Tables}
      (passes : screen B app requestId request = none) (read : t ∈ seen) :
      Answered.Justified B app ⟨some requestId, request,
        leave B requestId (some (route B app.limits t requestId request)), seen⟩
  | expired {requestId : String} {request : Request} (seen : List Tables)
      (passes : screen B app requestId request = none) :
      Answered.Justified B app ⟨some requestId, request, leave B requestId none, seen⟩

/-- What holds of a live request while the server is in the given state. -/
structure Live.Sound (B : Boundary) (keyedHash : Fixed 32 → Bytes → Fixed 32) (app now : AppState)
    (l : Live) : Prop where
  below : l.number < now.requestIds.counter
  named : (RequestIds.next B keyedHash ⟨app.requestIds.seed, l.number⟩).2 = some l.requestId
  passes : screen B app l.requestId l.request = none
  current : now.store ∈ l.seen
  read : ∀ response, l.phase = .handled response →
    ∃ t ∈ l.seen, response = route B app.limits t l.requestId l.request

structure Service.Sound (B : Boundary) (keyedHash : Fixed 32 → Bytes → Fixed 32) (app : AppState)
    (s : Service) : Prop where
  limits : s.app.limits = app.limits
  authHash : s.app.authHash = app.authHash
  seed : s.app.requestIds.seed = app.requestIds.seed
  permits : s.app.permits + s.held = app.permits
  numbers : (s.live.map Live.number).Nodup
  live : ∀ l ∈ s.live, l.Sound B keyedHash app s.app
  answered : ∀ answer ∈ s.answered, answer.Justified B app

theorem sound_start (app : AppState) : (Service.start app).Sound B keyedHash app where
  limits := rfl
  authHash := rfl
  seed := rfl
  permits := rfl
  numbers := List.nodup_nil
  live := List.forall_mem_nil _
  answered := List.forall_mem_nil _

theorem Live.Sound.grow {app now later : AppState} {l : Live} (h : l.Sound B keyedHash app now)
    (hcounter : now.requestIds.counter ≤ later.requestIds.counter)
    (hstore : now.store = later.store) : l.Sound B keyedHash app later :=
  { h with below := h.below.trans_le hcounter, current := hstore ▸ h.current }

theorem Live.Sound.proceed {app now : AppState} {l : Live} (h : l.Sound B keyedHash app now)
    {phase : Phase} (hread : ∀ response, phase = .handled response →
      ∃ t ∈ l.seen, response = route B app.limits t l.requestId l.request) :
    Live.Sound B keyedHash app now { l with phase := phase } :=
  ⟨h.below, h.named, h.passes, h.current, hread⟩

section Steps

variable {app : AppState} {s : Service} {front back : List Live} {l : Live}

/-- The permits that the other live requests hold, and that of this one. -/
theorem held_split (hlive : s.live = front ++ l :: back) :
    s.held = (front ++ back).countP (fun l ↦ l.Holds) + if l.Holds then 1 else 0 := by
  rw [Service.held, hlive, List.countP_append, List.countP_cons, List.countP_append]
  simp only [decide_eq_true_eq]
  omega

theorem Service.Sound.split (h : s.Sound B keyedHash app) (hlive : s.live = front ++ l :: back) :
    l.Sound B keyedHash app s.app ∧ (∀ other ∈ front ++ back, other.Sound B keyedHash app s.app) ∧
      ((front ++ back).map Live.number).Nodup := by
  have hall := h.live
  have hnumbers := h.numbers
  rw [hlive] at hall hnumbers
  refine ⟨hall l (by simp), fun other hother ↦ hall other ?_, ?_⟩
  · rcases List.mem_append.mp hother with hfront | hback
    · exact List.mem_append_left _ hfront
    · exact List.mem_append_right _ (List.mem_cons_of_mem _ hback)
  · exact hnumbers.sublist ((List.Sublist.append_left (List.sublist_cons_self l back) front).map _)

/-- The request goes on under the same number. -/
theorem Service.Sound.replace (h : s.Sound B keyedHash app) (hlive : s.live = front ++ l :: back)
    {l' : Live} (hsound : l'.Sound B keyedHash app s.app) (hnumber : l'.number = l.number)
    {permits : ℕ}
    (hpermits : permits + (if l'.Holds then 1 else 0) =
      s.app.permits + if l.Holds then 1 else 0) :
    Service.Sound B keyedHash app
      { s with app := { s.app with permits := permits }, live := front ++ l' :: back } := by
  obtain ⟨-, hothers, -⟩ := h.split hlive
  have hnumbers := h.numbers
  rw [hlive] at hnumbers
  refine ⟨h.limits, h.authHash, h.seed, ?_, ?_, fun other hother ↦ ?_, h.answered⟩
  · have hbefore := h.permits
    rw [held_split hlive] at hbefore
    show permits + (front ++ l' :: back).countP (fun l ↦ l.Holds) = _
    rw [List.countP_append, List.countP_cons]
    rw [List.countP_append] at hbefore
    simp only [decide_eq_true_eq]
    omega
  · show ((front ++ l' :: back).map Live.number).Nodup
    simpa only [List.map_append, List.map_cons, hnumber] using hnumbers
  · rcases List.mem_append.mp hother with hfront | hback
    · exact (hothers other (List.mem_append_left _ hfront)).grow le_rfl rfl
    · rcases List.mem_cons.mp hback with rfl | hback
      · exact hsound.grow le_rfl rfl
      · exact (hothers other (List.mem_append_right _ hback)).grow le_rfl rfl

/-- The request is gone, and its permit is back. -/
theorem Service.Sound.drop (h : s.Sound B keyedHash app) (hlive : s.live = front ++ l :: back)
    {permits : ℕ} (hpermits : permits = s.app.permits + if l.Holds then 1 else 0) :
    Service.Sound B keyedHash app
      { s with app := { s.app with permits := permits }, live := front ++ back } := by
  obtain ⟨-, hothers, hnumbers⟩ := h.split hlive
  refine ⟨h.limits, h.authHash, h.seed, ?_, hnumbers, fun other hother ↦
    (hothers other hother).grow le_rfl rfl, h.answered⟩
  have hbefore := h.permits
  rw [held_split hlive] at hbefore
  show permits + (front ++ back).countP (fun l ↦ l.Holds) = _
  omega

theorem Service.Sound.reply (h : s.Sound B keyedHash app) {answer : Answered}
    (hanswer : answer.Justified B app) : (s.reply answer).Sound B keyedHash app :=
  { h with
    answered := by
      intro other hother
      rcases List.mem_append.mp hother with hold | hnew
      · exact h.answered other hold
      · exact List.mem_singleton.mp hnew ▸ hanswer }

/-- A numbered server is as sound as before. -/
theorem Service.Sound.number (h : s.Sound B keyedHash app) (request : Request) :
    (s.number request).Sound B keyedHash app where
  limits := h.limits
  authHash := h.authHash
  seed := h.seed
  permits := h.permits
  numbers := h.numbers
  live l hl := (h.live l hl).grow (Nat.le_succ _) rfl
  answered := h.answered

theorem Service.Sound.arrive (h : s.Sound B keyedHash app) (request : Request) :
    (s.arrive B keyedHash request).Sound B keyedHash app := by
  rcases arrive_cases B keyedHash s request with
    ⟨-, harrive⟩ | ⟨requestId, hnext, ⟨response, hscreen, harrive⟩ | ⟨hscreen, harrive⟩⟩
  · rw [harrive]
    have hquiet : Service.Sound B keyedHash app { s with arrived := s.arrived ++ [request] } :=
      ⟨h.limits, h.authHash, h.seed, h.permits, h.numbers, h.live, h.answered⟩
    exact hquiet.reply (.exhausted request _)
  · rw [harrive]
    rw [screen_congr h.authHash] at hscreen
    exact (h.number request).reply (.refused _ hscreen)
  · rw [harrive]
    have hnumber := h.number request
    set waiting : Live :=
      ⟨s.app.requestIds.counter, requestId, request, .numbered, [s.app.store]⟩ with hwaiting
    have hsound : waiting.Sound B keyedHash app (s.number request).app := by
      refine ⟨Nat.lt_succ_self _, ?_, screen_congr h.authHash requestId request ▸ hscreen,
        List.mem_singleton_self _, fun response hphase ↦ ?_⟩
      · show (RequestIds.next B keyedHash ⟨app.requestIds.seed, s.app.requestIds.counter⟩).2 = _
        rw [← h.seed, hnext]
      · cases hphase
    refine ⟨h.limits, h.authHash, h.seed, ?_, ?_, fun l hl ↦ ?_, h.answered⟩
    · have hheld : ({ s.number request with live := s.live ++ [waiting] } : Service).held =
          s.held := by
        rw [Service.held, List.countP_append, Service.held]
        rfl
      rw [hheld]
      exact h.permits
    · show ((s.live ++ [waiting]).map Live.number).Nodup
      rw [List.map_append, List.map_singleton, ← List.concat_eq_append]
      refine h.numbers.concat fun hmem ↦ ?_
      obtain ⟨l, hl, hsame⟩ := List.mem_map.mp hmem
      exact absurd (h.live l hl).below (hsame ▸ Nat.lt_irrefl _)
    · rcases List.mem_append.mp hl with hold | hnew
      · exact hnumber.live l hold
      · exact List.mem_singleton.mp hnew ▸ hsound

theorem holds_of_entered (hphase : l.phase = .entered) : l.Holds := by
  rw [Live.Holds, hphase]
  exact Phase.noConfusion

theorem holds_of_handled {response : Response} (hphase : l.phase = .handled response) :
    l.Holds := by
  rw [Live.Holds, hphase]
  exact Phase.noConfusion

theorem Service.Sound.step {s' : Service} (h : s.Sound B keyedHash app)
    (hstep : Service.Step B keyedHash s s') : s'.Sound B keyedHash app := by
  cases hstep with
  | arrive request => exact h.arrive request
  | @enter front back l live phase permit =>
    obtain ⟨hl, -, -⟩ := h.split live
    have hentered : Live.Sound B keyedHash app s.app { l with phase := .entered } :=
      hl.proceed fun response hphase ↦ by cases hphase
    refine h.replace live hentered rfl ?_
    have hwaits : ¬ l.Holds := not_not_intro phase
    rw [if_neg hwaits, if_pos (holds_of_entered rfl)]
    omega
  | @busy front back l live phase permit =>
    obtain ⟨hl, -, -⟩ := h.split live
    have hwaits : ¬ l.Holds := not_not_intro phase
    exact (h.drop live (by rw [if_neg hwaits, Nat.add_zero])).reply (.busy _ hl.passes)
  | @handle front back l live phase =>
    obtain ⟨hl, -, -⟩ := h.split live
    have hhandled : Live.Sound B keyedHash app s.app { l with
        phase := .handled (route B s.app.limits s.app.store l.requestId l.request) } := by
      refine hl.proceed fun response hphase ↦ ?_
      rw [Phase.handled.injEq] at hphase
      exact ⟨s.app.store, hl.current, by rw [← hphase, h.limits]⟩
    refine h.replace live hhandled rfl ?_
    rw [if_pos (holds_of_entered phase), if_pos (holds_of_handled rfl)]
  | @finish front back l response live phase =>
    obtain ⟨hl, -, -⟩ := h.split live
    obtain ⟨t, ht, rfl⟩ := hl.read response phase
    exact (h.drop live (by rw [if_pos (holds_of_handled phase)])).reply (.handled hl.passes ht)
  | @expire front back l live holds =>
    obtain ⟨hl, -, -⟩ := h.split live
    exact (h.drop live (by rw [if_pos holds])).reply (.expired _ hl.passes)
  | @abandon front back l live holds => exact h.drop live (by rw [if_pos holds])
  | write operation fault =>
    refine ⟨h.limits, h.authHash, h.seed, ?_, ?_, fun l hl ↦ ?_, h.answered⟩
    · have hheld (store : Tables) :
          (s.live.map fun l ↦ { l with seen := store :: l.seen }).countP (fun l ↦ l.Holds) =
            s.held := by
        rw [List.countP_map]
        rfl
      exact (congrArg (s.app.permits + ·) (hheld _)).trans h.permits
    · show ((s.live.map _).map Live.number).Nodup
      rw [List.map_map]
      exact h.numbers
    · obtain ⟨l, hmem, rfl⟩ := List.mem_map.mp hl
      have hsound := h.live l hmem
      refine ⟨hsound.below, hsound.named, hsound.passes, List.mem_cons_self, ?_⟩
      intro response hphase
      obtain ⟨t, ht, hroute⟩ := hsound.read response hphase
      exact ⟨t, List.mem_cons_of_mem _ ht, hroute⟩

end Steps

theorem Service.Run.sound {app : AppState} {s : Service} (h : Service.Run B keyedHash app s) :
    s.Sound B keyedHash app := by
  induction h with
  | refl => exact sound_start app
  | tail _ hstep ih => exact ih.step hstep

/-! ### What answers say -/

/-- The questions to the store. -/
def handle (B : Boundary) (limits : ServerLimits) (t : Tables) :
    PeerRequest → Except SyncError Bytes
  | .getRefs context => getRefs B t context
  | .postExport body => postExport B limits.toTransportLimits t body

/-- The request is well formed and puts a question to the store. -/
inductive Request.Puts (B : Boundary) (limits : ServerLimits) (request : Request) :
    PeerRequest → Prop
  | getRefs {context : ContextId} (method : request.method = .get)
      (path : path request.target = "/v1/refs")
      (names : refsContext B request.target = some context) :
      Request.Puts B limits request (.getRefs context)
  | postExport {body : Bytes} (method : request.method = .post)
      (path : path request.target = "/v1/bundles/export")
      (typed : jsonContentType request.headers = true)
      (read : toBytes request.body (limits.maxRequestBodyBytes + 1) = .ok body) :
      Request.Puts B limits request (.postExport body)

/-- The codes of the server's errors. -/
def refusalCodes : List String :=
  ["authentication_failed", "internal", "limit_exceeded", "malformed_request",
    "method_not_allowed", "not_found", "pagination_conflict", "timeout", "unavailable",
    "unsupported_version"]

theorem storeCode_mem (error : StoreError) : storeCode error ∈ refusalCodes := by
  unfold storeCode
  split <;> decide

theorem syncCode_mem (error : SyncError) : syncCode error ∈ refusalCodes := by
  cases error with
  | store error => exact storeCode_mem error
  | _ => decide

/-- The response is an error, and says no more than one of the codes and the id of the request. -/
def IsRefusal (B : Boundary) (requestId : Option String) (response : Response) : Prop :=
  response.status ≠ 200 ∧ (response.body = [] ∨ ∃ code ∈ refusalCodes,
    response.body = errorBody B code (requestId.getD "req1_AAAAAAAAAAAAAAAAAAAAAA"))

theorem isRefusal_error {status : ℕ} {code : String} (hstatus : status ≠ 200)
    (hcode : code ∈ refusalCodes) (requestId : Option String) :
    IsRefusal B requestId (errorResponse B status code requestId) :=
  ⟨by rw [errorResponse_status]; exact hstatus, Or.inr ⟨code, hcode, errorResponse_body ..⟩⟩

theorem IsRefusal.leave {requestId : String} {response : Response}
    (h : IsRefusal B (some requestId) response) :
    IsRefusal B (some requestId) (leave B requestId (some response)) := h

/-- The router passes a question on to the store or refuses. -/
theorem route_cases (limits : ServerLimits) (t : Tables) (requestId : String) (request : Request) :
    (∃ question, request.Puts B limits question ∧
      route B limits t requestId request = answer B requestId (handle B limits t question)) ∨
    IsRefusal B (some requestId) (route B limits t requestId request) := by
  have hmalformed : IsRefusal B (some requestId) (malformed B requestId) :=
    isRefusal_error (by decide) (by decide) _
  have hlimit : IsRefusal B (some requestId) (limitExceeded B 413 requestId) :=
    isRefusal_error (by decide) (by decide) _
  have hmethod : IsRefusal B (some requestId)
      (errorResponse B 405 "method_not_allowed" (some requestId)) :=
    isRefusal_error (by decide) (by decide) _
  rw [route]
  dsimp only
  by_cases hrefs : path request.target = "/v1/refs"
  · rw [if_pos hrefs]
    cases hverb : request.method with
    | get =>
      dsimp only
      by_cases hbody : hasBody request.headers = true
      · rw [getRefsHandler, if_pos (Or.inr hbody)]
        exact Or.inr hmalformed
      · rw [getRefsHandler, if_neg (by simp [hverb, hbody])]
        cases hcontext : refsContext B request.target with
        | none => exact Or.inr hmalformed
        | some context => exact Or.inl ⟨_, .getRefs hverb hrefs hcontext, rfl⟩
    | head =>
      rw [getRefsHandler, if_pos (Or.inl (by simp [hverb]))]
      exact Or.inr ⟨hmalformed.1, Or.inl rfl⟩
    | post => exact Or.inr hmethod
    | other name => exact Or.inr hmethod
  · rw [if_neg hrefs]
    by_cases hexport : path request.target = "/v1/bundles/export"
    · rw [if_pos hexport]
      cases hverb : request.method with
      | post =>
        dsimp only
        by_cases htyped : jsonContentType request.headers = true
        · rw [postExportHandler, if_neg (by simp [hverb, htyped])]
          by_cases hover : contentLengthOver request.headers limits.maxRequestBodyBytes = true
          · rw [if_pos hover]
            exact Or.inr hlimit
          · rw [if_neg hover]
            cases hread : toBytes request.body (limits.maxRequestBodyBytes + 1) with
            | ok body => exact Or.inl ⟨_, .postExport hverb hexport htyped hread, rfl⟩
            | error fault =>
              cases fault with
              | stalled => exact Or.inr (isRefusal_error (by decide) (by decide) _)
              | tooLong => exact Or.inr hlimit
              | broken => exact Or.inr hlimit
        · rw [postExportHandler, if_pos (Or.inr htyped)]
          exact Or.inr hmalformed
      | get => exact Or.inr hmethod
      | head => exact Or.inr hmethod
      | other name => exact Or.inr hmethod
    · rw [if_neg hexport]
      exact Or.inr (isRefusal_error (by decide) (by decide) _)

theorem answer_cases (requestId : String) (outcome : Except SyncError Bytes) :
    (∃ wire, outcome = .ok wire ∧ answer B requestId outcome = jsonResponse 200 wire) ∨
      IsRefusal B (some requestId) (answer B requestId outcome) := by
  cases outcome with
  | ok wire => exact Or.inl ⟨wire, rfl, rfl⟩
  | error error =>
    refine Or.inr (isRefusal_error (fun hstatus ↦ syncStatus_failure error ?_)
      (syncCode_mem error) _)
    rw [hstatus]
    decide

theorem screen_refusal {app : AppState} {requestId : String} {request : Request}
    {response : Response} (h : screen B app requestId request = some response) :
    IsRefusal B (some requestId) response := by
  unfold screen at h
  split_ifs at h with _ _ _
  · exact Option.some.inj h ▸ isRefusal_error (by decide) (by decide) _
  · exact Option.some.inj h ▸ isRefusal_error (by decide) (by decide) _
  · exact Option.some.inj h ▸ isRefusal_error (by decide) (by decide) _

/-- An answer is a refusal, or what the store said to a question of an admitted request. -/
theorem Answered.Justified.cases {app : AppState} {answer : Answered}
    (h : answer.Justified B app) :
    IsRefusal B answer.requestId answer.response ∨
      ∃ requestId, answer.requestId = some requestId ∧
        screen B app requestId answer.request = none ∧ answer.response.status = 200 ∧
        ∃ question, answer.request.Puts B app.limits question ∧
          ∃ t ∈ answer.seen, handle B app.limits t question = .ok answer.response.body := by
  cases h with
  | exhausted request seen => exact Or.inl (isRefusal_error (by decide) (by decide) _)
  | refused seen refusal => exact Or.inl (screen_refusal refusal)
  | busy seen passes => exact Or.inl (isRefusal_error (by decide) (by decide) _)
  | @handled requestId request seen t passes read =>
    rcases route_cases (B := B) app.limits t requestId request with
      ⟨question, hputs, hroute⟩ | hrefusal
    · rcases answer_cases (B := B) requestId (handle B app.limits t question) with
        ⟨wire, hwire, hanswer⟩ | hrefusal
      · refine Or.inr ⟨requestId, rfl, passes, ?_, question, hputs, t, read, ?_⟩
        · rw [hroute, hanswer]
          rfl
        · rw [hroute, hanswer]
          exact hwire
      · exact Or.inl (hroute ▸ hrefusal).leave
    · exact Or.inl hrefusal.leave
  | @expired requestId request seen passes =>
    have htimeout : IsRefusal B (some requestId)
        (errorResponse B 408 "timeout" (some requestId)) :=
      isRefusal_error (by decide) (by decide) _
    exact Or.inl htimeout.leave

/-! ### The stores of a run -/

/-- All stores of a run are reachable: other processes write by the operations of the store. -/
structure Service.Founded (B : Boundary) (s : Service) : Prop where
  store : Reachable B s.app.store
  live : ∀ l ∈ s.live, ∀ t ∈ l.seen, Reachable B t
  answered : ∀ answer ∈ s.answered, ∀ t ∈ answer.seen, Reachable B t

theorem Service.Founded.reply {s : Service} (h : s.Founded B) {answer : Answered}
    (hanswer : ∀ t ∈ answer.seen, Reachable B t) : (s.reply answer).Founded B := by
  refine ⟨h.store, h.live, fun other hother ↦ ?_⟩
  rcases List.mem_append.mp hother with hold | hnew
  · exact h.answered other hold
  · exact List.mem_singleton.mp hnew ▸ hanswer

theorem Service.Founded.split {s : Service} (h : s.Founded B) {front back : List Live} {l : Live}
    (hlive : s.live = front ++ l :: back) : (∀ t ∈ l.seen, Reachable B t) ∧
      ∀ other ∈ front ++ back, ∀ t ∈ other.seen, Reachable B t := by
  have hall := h.live
  rw [hlive] at hall
  refine ⟨hall l (by simp), fun other hother ↦ hall other ?_⟩
  rcases List.mem_append.mp hother with hfront | hback
  · exact List.mem_append_left _ hfront
  · exact List.mem_append_right _ (List.mem_cons_of_mem _ hback)

theorem Service.Founded.step {s s' : Service} (h : s.Founded B)
    (hstep : Service.Step B keyedHash s s') : s'.Founded B := by
  have hproceed {front back : List Live} {l : Live} (hlive : s.live = front ++ l :: back)
      (phase : Phase) :
      ∀ other ∈ front ++ { l with phase := phase } :: back, ∀ t ∈ other.seen, Reachable B t := by
    obtain ⟨hl, hothers⟩ := h.split hlive
    intro other hother
    rcases List.mem_append.mp hother with hfront | hback
    · exact hothers other (List.mem_append_left _ hfront)
    · rcases List.mem_cons.mp hback with rfl | hback
      · exact hl
      · exact hothers other (List.mem_append_right _ hback)
  cases hstep with
  | arrive request =>
    have hnow : ∀ t ∈ [s.app.store], Reachable B t := by
      intro t ht
      exact List.mem_singleton.mp ht ▸ h.store
    have hnumber : (s.number request).Founded B := ⟨h.store, h.live, h.answered⟩
    rcases arrive_cases B keyedHash s request with
      ⟨-, harrive⟩ | ⟨requestId, -, ⟨response, -, harrive⟩ | ⟨-, harrive⟩⟩
    · rw [harrive]
      exact Service.Founded.reply (s := { s with arrived := s.arrived ++ [request] })
        ⟨h.store, h.live, h.answered⟩ hnow
    · rw [harrive]
      exact hnumber.reply hnow
    · rw [harrive]
      refine ⟨h.store, fun l hl ↦ ?_, h.answered⟩
      rcases List.mem_append.mp hl with hold | hnew
      · exact h.live l hold
      · exact List.mem_singleton.mp hnew ▸ hnow
  | enter live phase permit => exact ⟨h.store, hproceed live .entered, h.answered⟩
  | @busy front back l live phase permit =>
    obtain ⟨hl, hothers⟩ := h.split live
    exact Service.Founded.reply (s := { s with live := front ++ back })
      ⟨h.store, hothers, h.answered⟩ hl
  | handle live phase => exact ⟨h.store, hproceed live _, h.answered⟩
  | @finish front back l response live phase =>
    obtain ⟨hl, hothers⟩ := h.split live
    exact Service.Founded.reply (s := Service.release { s with live := front ++ back })
      ⟨h.store, hothers, h.answered⟩ hl
  | @expire front back l live holds =>
    obtain ⟨hl, hothers⟩ := h.split live
    exact Service.Founded.reply (s := Service.release { s with live := front ++ back })
      ⟨h.store, hothers, h.answered⟩ hl
  | abandon live holds => exact ⟨h.store, (h.split live).2, h.answered⟩
  | write operation fault =>
    have hafter : Reachable B (operation.execute B fault s.app.store).1 :=
      .step h.store operation fault
    refine ⟨hafter, fun l hl ↦ ?_, h.answered⟩
    obtain ⟨l, hmem, rfl⟩ := List.mem_map.mp hl
    exact List.forall_mem_cons.mpr ⟨hafter, h.live l hmem⟩

theorem Service.Run.founded {app : AppState} {s : Service} (h : Service.Run B keyedHash app s)
    (hstore : Reachable B app.store) : s.Founded B := by
  induction h with
  | refl => exact ⟨hstore, List.forall_mem_nil _, List.forall_mem_nil _⟩
  | tail _ hstep ih => exact ih.step hstep

/-! ### Capacity -/

variable (B keyedHash) in
/-- The oldest live request can be answered. -/
theorem answers_oldest {s : Service} {l : Live} {rest : List Live}
    (hlive : s.live = [] ++ l :: rest) :
    ∃ s' answer, ReflTransGen (Service.Step B keyedHash) s s' ∧ s'.live = rest ∧
      s'.app.store = s.app.store ∧ s'.answered = s.answered ++ [answer] ∧
      answer.requestId = some l.requestId ∧ answer.request = l.request := by
  have hfinish {s : Service} {l : Live} {response : Response} (hlive : s.live = [] ++ l :: rest)
      (hphase : l.phase = .handled response) :
      ∃ s' answer, ReflTransGen (Service.Step B keyedHash) s s' ∧ s'.live = rest ∧
        s'.app.store = s.app.store ∧ s'.answered = s.answered ++ [answer] ∧
        answer.requestId = some l.requestId ∧ answer.request = l.request :=
    ⟨_, _, .single (.finish hlive hphase), rfl, rfl, rfl, rfl, rfl⟩
  have hhandle {s : Service} {l : Live} (hlive : s.live = [] ++ l :: rest)
      (hphase : l.phase = .entered) :
      ∃ s' answer, ReflTransGen (Service.Step B keyedHash) s s' ∧ s'.live = rest ∧
        s'.app.store = s.app.store ∧ s'.answered = s.answered ++ [answer] ∧
        answer.requestId = some l.requestId ∧ answer.request = l.request := by
    obtain ⟨s', answer, hrun, hrest⟩ := hfinish
      (s := { s with live := [] ++ { l with
        phase := .handled (route B s.app.limits s.app.store l.requestId l.request) } :: rest })
      rfl rfl
    exact ⟨s', answer, .head (.handle hlive hphase) hrun, hrest⟩
  cases hphase : l.phase with
  | numbered =>
    by_cases hpermit : s.app.permits = 0
    · exact ⟨_, _, .single (.busy hlive hphase hpermit), rfl, rfl, rfl, rfl, rfl⟩
    · obtain ⟨s', answer, hrun, hrest⟩ := hhandle
        (s := { s with
          app := { s.app with permits := s.app.permits - 1 }
          live := [] ++ { l with phase := .entered } :: rest }) rfl rfl
      exact ⟨s', answer, .head (.enter hlive hphase hpermit) hrun, hrest⟩
  | entered => exact hhandle hlive hphase
  | handled response => exact hfinish hlive hphase

variable (B keyedHash) in
/-- All live requests can be answered, in their order. -/
theorem drains (s : Service) : ∃ s', ReflTransGen (Service.Step B keyedHash) s s' ∧ s'.live = [] ∧
    s'.app.store = s.app.store ∧
    s'.answered.map (fun answer ↦ (answer.requestId, answer.request)) =
      s.answered.map (fun answer ↦ (answer.requestId, answer.request)) ++
        s.live.map fun l ↦ (some l.requestId, l.request) := by
  generalize hlive : s.live = live
  induction live generalizing s with
  | nil => exact ⟨s, .refl, hlive, rfl, (List.append_nil _).symm⟩
  | cons l rest ih =>
    obtain ⟨after, answer, hfirst, hrest, hstore, hanswered, hid, hrequest⟩ :=
      answers_oldest B keyedHash hlive
    obtain ⟨s', hrun, hnone, hstore', hall⟩ := ih after hrest
    refine ⟨s', hfirst.trans hrun, hnone, hstore'.trans hstore, ?_⟩
    rw [hall, hanswered, List.map_append, List.map_singleton, hid, hrequest, List.append_assoc]
    rfl

/-- However requests interleave, end, time out or break off, each permit is free or held by exactly
one of them, so no more handlers run than the limits allow. The live requests have passed the checks
of their heads and carry ids made from distinct numbers, and the server is never stuck: it can
answer all of them, which frees all permits again. -/
theorem service_bounded {store : Tables} {authHash seed : Fixed 32} {limits : ServerLimits}
    {s : Service} (hrun : Service.Run B keyedHash (.new store authHash limits seed) s) :
    s.app.permits + s.held = limits.maxConcurrentRequests ∧ (s.live.map Live.number).Nodup ∧
      (∀ l ∈ s.live, l.number < s.app.requestIds.counter ∧
        (RequestIds.next B keyedHash ⟨seed, l.number⟩).2 = some l.requestId ∧
        authenticated B l.request.headers authHash = true ∧
        headersExceed l.request.headers = false) ∧
      ∃ s', ReflTransGen (Service.Step B keyedHash) s s' ∧
        s'.app.permits = limits.maxConcurrentRequests ∧
        s'.answered.map (fun answer ↦ (answer.requestId, answer.request)) =
          s.answered.map (fun answer ↦ (answer.requestId, answer.request)) ++
            s.live.map fun l ↦ (some l.requestId, l.request) := by
  have hsound := hrun.sound
  refine ⟨hsound.permits, hsound.numbers, fun l hl ↦ ?_, ?_⟩
  · obtain ⟨hbelow, hnamed, hpasses, -, -⟩ := hsound.live l hl
    refine ⟨hbelow, hnamed, authenticated_of_screen hpasses, ?_⟩
    unfold screen at hpasses
    split_ifs at hpasses with _ hheaders _
    exact Bool.not_eq_true _ ▸ hheaders
  · obtain ⟨s', hdrain, hnone, -, hanswered⟩ := drains B keyedHash s
    have hafter : Service.Run B keyedHash (.new store authHash limits seed) s' := hrun.trans hdrain
    have hpermits := hafter.sound.permits
    rw [Service.held, hnone] at hpermits
    exact ⟨s', hdrain, hpermits, hanswered⟩

/-- Every answer of a run is a refusal that names its code and its request only, or a success. A
success answers an authenticated, well formed request with exactly what the handler of its question
makes of one reachable state that the store had while the request was live. -/
theorem service_accountable {store : Tables} {authHash seed : Fixed 32} {limits : ServerLimits}
    {s : Service} (hstore : Reachable B store)
    (hrun : Service.Run B keyedHash (.new store authHash limits seed) s) :
    ∀ answer ∈ s.answered, IsRefusal B answer.requestId answer.response ∨
      (answer.response.status = 200 ∧
        authenticated B answer.request.headers authHash = true ∧
        ∃ question, answer.request.Puts B limits question ∧ ∃ t ∈ answer.seen, Reachable B t ∧
          handle B limits t question = .ok answer.response.body) := by
  intro answer hanswer
  rcases (hrun.sound.answered answer hanswer).cases with
    hrefusal | ⟨requestId, -, hpasses, hstatus, question, hputs, t, ht, hhandle⟩
  · exact Or.inl hrefusal
  · refine Or.inr ⟨hstatus, authenticated_of_screen hpasses, question, hputs, t, ht, ?_, hhandle⟩
    exact (hrun.founded hstore).answered answer hanswer t ht

/-! ### Strangers -/

/-- What the requests without the token were answered. -/
def Service.strangers (B : Boundary) (authHash : Fixed 32) (s : Service) :
    List (Request × Response) :=
  (s.answered.filter fun answer ↦ ¬ authenticated B answer.request.headers authHash).map
    fun answer ↦ (answer.request, answer.response)

/-- The numbering after a request, and what it is told when it lacks the token. -/
def turnAway (B : Boundary) (keyedHash : Fixed 32 → Bytes → Fixed 32) (app : AppState)
    (told : RequestIds × List (Request × Response)) (request : Request) :
    RequestIds × List (Request × Response) :=
  let (ids, requestId) := told.1.next B keyedHash
  if authenticated B request.headers app.authHash then (ids, told.2)
  else
    let response :=
      match requestId with
      | none => errorResponse B 500 "internal" none
      | some requestId => (screen B app requestId request).getD (malformed B requestId)
    (ids, told.2 ++ [(request, response)])

theorem strangers_reply (s : Service) (authHash : Fixed 32) (answer : Answered) :
    (s.reply answer).strangers B authHash =
      if authenticated B answer.request.headers authHash then s.strangers B authHash
      else s.strangers B authHash ++ [(answer.request, answer.response)] := by
  rw [Service.strangers, Service.reply, List.filter_append, List.map_append]
  by_cases h : authenticated B answer.request.headers authHash = true
  · simp [h, Service.strangers]
  · simp [h, Service.strangers]

/-- What strangers are told follows from the arrivals alone. -/
def Service.Told (B : Boundary) (keyedHash : Fixed 32 → Bytes → Fixed 32) (app : AppState)
    (s : Service) : Prop :=
  s.arrived.foldl (turnAway B keyedHash app) (app.requestIds, []) =
    (s.app.requestIds, s.strangers B app.authHash)

theorem Service.Told.arrive {app : AppState} {s : Service} (h : s.Told B keyedHash app)
    (hauth : s.app.authHash = app.authHash) (request : Request) :
    (s.arrive B keyedHash request).Told B keyedHash app := by
  have hturn {s' : Service} (harrived : s'.arrived = s.arrived ++ [request])
      (htold : turnAway B keyedHash app (s.app.requestIds, s.strangers B app.authHash) request =
        (s'.app.requestIds, s'.strangers B app.authHash)) : s'.Told B keyedHash app := by
    rw [Service.Told, harrived, List.foldl_append, h]
    exact htold
  rcases arrive_cases B keyedHash s request with
    ⟨hnext, harrive⟩ | ⟨requestId, hnext, ⟨response, hscreen, harrive⟩ | ⟨hscreen, harrive⟩⟩
  · rw [harrive]
    refine hturn rfl ?_
    rw [turnAway, hnext, strangers_reply]
    by_cases hknown : authenticated B request.headers app.authHash = true
    · simp [hknown, Service.reply, Service.strangers]
    · simp [hknown, Service.reply, Service.strangers]
  · rw [harrive]
    refine hturn rfl ?_
    rw [screen_congr hauth] at hscreen
    rw [turnAway, hnext, strangers_reply]
    by_cases hknown : authenticated B request.headers app.authHash = true
    · simp [hknown, Service.reply, Service.strangers, Service.number]
    · simp [hknown, hscreen, Service.reply, Service.strangers, Service.number]
  · rw [harrive]
    refine hturn rfl ?_
    rw [screen_congr hauth] at hscreen
    rw [turnAway, hnext]
    simp [authenticated_of_screen hscreen, Service.strangers, Service.number]

theorem Service.Told.step {app : AppState} {s s' : Service} (h : s.Told B keyedHash app)
    (hsound : s.Sound B keyedHash app) (hstep : Service.Step B keyedHash s s') :
    s'.Told B keyedHash app := by
  have hquiet {s' : Service} (harrived : s'.arrived = s.arrived)
      (hids : s'.app.requestIds = s.app.requestIds)
      (htold : s'.strangers B app.authHash = s.strangers B app.authHash) :
      s'.Told B keyedHash app := by
    rw [Service.Told, harrived, h, hids, htold]
  have hknown {front back : List Live} {l : Live} (hlive : s.live = front ++ l :: back) :
      authenticated B l.request.headers app.authHash = true :=
    authenticated_of_screen (hsound.split hlive).1.passes
  cases hstep with
  | arrive request => exact h.arrive hsound.authHash request
  | enter live phase permit => exact hquiet rfl rfl rfl
  | busy live phase permit =>
    exact hquiet rfl rfl ((strangers_reply _ _ _).trans (if_pos (hknown live)))
  | handle live phase => exact hquiet rfl rfl rfl
  | finish live phase =>
    exact hquiet rfl rfl ((strangers_reply _ _ _).trans (if_pos (hknown live)))
  | expire live holds =>
    exact hquiet rfl rfl ((strangers_reply _ _ _).trans (if_pos (hknown live)))
  | abandon live holds => exact hquiet rfl rfl rfl
  | write operation fault => exact hquiet rfl rfl rfl

theorem Service.Run.told {app : AppState} {s : Service} (h : Service.Run B keyedHash app s) :
    s.Told B keyedHash app := by
  induction h with
  | refl => rfl
  | tail hrun hstep ih => exact ih.step (Service.Run.sound hrun) hstep

/-- Who lacks the token learns nothing. Two servers with one token, seed and order of arrivals
answer the requests without the token alike, whatever their stores hold, whatever other processes
write to them, and whatever becomes of the requests with the token. -/
theorem strangers_learn_nothing {store store' : Tables} {authHash seed : Fixed 32}
    {limits limits' : ServerLimits} {s s' : Service}
    (hrun : Service.Run B keyedHash (.new store authHash limits seed) s)
    (hrun' : Service.Run B keyedHash (.new store' authHash limits' seed) s')
    (harrived : s.arrived = s'.arrived) :
    s.strangers B authHash = s'.strangers B authHash := by
  have htold := hrun.told
  have htold' := hrun'.told
  rw [Service.Told, harrived] at htold
  rw [Service.Told] at htold'
  have hturn : turnAway B keyedHash (.new store authHash limits seed) =
      turnAway B keyedHash (.new store' authHash limits' seed) := by
    funext told request
    rw [turnAway, turnAway]
    rfl
  rw [hturn] at htold
  exact congrArg Prod.snd (htold.symm.trans htold')

/-! ### One request at a time -/

/-- The guard without other requests is a run of the server. -/
theorem guard_run (B : Boundary) (keyedHash : Fixed 32 → Bytes → Fixed 32) (app : AppState)
    (request : Request) :
    Service.Run B keyedHash app ⟨(guard B keyedHash app request).1, [request], [],
      [⟨(app.requestIds.next B keyedHash).2, request, (guard B keyedHash app request).2,
        [app.store]⟩]⟩ := by
  have harrive : Service.Step B keyedHash (.start app) _ := .arrive _ request
  rcases arrive_cases B keyedHash (.start app) request with
    ⟨hnext, hcase⟩ | ⟨requestId, hnext, ⟨response, hscreen, hcase⟩ | ⟨hscreen, hcase⟩⟩
  · have hguard : guard B keyedHash app request =
        (app, errorResponse B 500 "internal" none) := by
      rw [guard, enter, show app.requestIds.next B keyedHash = _ from hnext]
    rw [hcase] at harrive
    rw [hguard, show app.requestIds.next B keyedHash = _ from hnext]
    exact .single harrive
  · have hguard : guard B keyedHash app request =
        (((Service.start app).number request).app, response) := by
      rw [guard, enter, show app.requestIds.next B keyedHash = _ from hnext]
      dsimp only
      rw [show screen B app requestId request = _ from hscreen]
      rfl
    rw [hcase] at harrive
    rw [hguard, show app.requestIds.next B keyedHash = _ from hnext]
    exact .single harrive
  · -- a numbered request, which gets a permit or not
    let l : Live := ⟨app.requestIds.counter, requestId, request, .numbered, [app.store]⟩
    let waiting : Service := { (Service.start app).number request with live := [l] }
    have hwaiting : waiting.live = [] ++ l :: [] := rfl
    rw [hcase] at harrive
    replace harrive : Service.Step B keyedHash (.start app) waiting := harrive
    rw [show app.requestIds.next B keyedHash = _ from hnext]
    by_cases hpermit : app.permits = 0
    · have hguard : guard B keyedHash app request =
          (waiting.app, errorResponse B 503 "unavailable" (some requestId)) := by
        rw [guard, enter, show app.requestIds.next B keyedHash = _ from hnext]
        dsimp only
        rw [show screen B app requestId request = _ from hscreen, if_pos hpermit]
        rfl
      rw [hguard]
      exact .tail (.single harrive) (.busy hwaiting rfl hpermit)
    · have hguard : guard B keyedHash app request = ({ waiting.app with
          permits := app.permits - 1 + 1 },
          leave B requestId (some (route B app.limits app.store requestId request))) := by
        rw [guard, enter, show app.requestIds.next B keyedHash = _ from hnext]
        dsimp only
        rw [show screen B app requestId request = _ from hscreen, if_neg hpermit]
        rfl
      let entered : Service := { waiting with
        app := { waiting.app with permits := app.permits - 1 }
        live := [{ l with phase := .entered }] }
      let handled : Service := { entered with
        live := [{ l with phase := .handled (route B app.limits app.store requestId request) }] }
      have henter : Service.Step B keyedHash waiting entered := .enter hwaiting rfl hpermit
      have hentered : entered.live = [] ++ { l with phase := .entered } :: [] := rfl
      have hhandle : Service.Step B keyedHash entered handled := .handle hentered rfl
      have hhandled : handled.live = [] ++ { l with
        phase := .handled (route B app.limits app.store requestId request) } :: [] := rfl
      rw [hguard]
      exact (((ReflTransGen.single harrive).tail henter).tail hhandle).tail (.finish hhandled rfl)

section Golden

open Reference Golden

/-- A client with the token asks for the refs. -/
def asking : Request := HttpClient.getRefs Golden.B ⟨golden, MAX_SYNC_RESPONSE_BODY_BYTES⟩
  Golden.context []

theorem service_bounded_opened : ∃ s, Service.Run Golden.B (fun seed _ ↦ seed) opened s ∧
    s.arrived = [asking] ∧ s.app.permits + s.held = MAX_CONCURRENT_HTTP_REQUESTS :=
  have hrun := guard_run Golden.B (fun seed _ ↦ seed) opened asking
  ⟨_, hrun, rfl, (service_bounded hrun).1⟩

theorem service_accountable_opened : ∃ s, Service.Run Golden.B (fun seed _ ↦ seed) opened s ∧
    ∃ answer ∈ s.answered, answer.request = asking ∧
      (IsRefusal Golden.B answer.requestId answer.response ∨ ∃ question t, Reachable Golden.B t ∧
        handle Golden.B opened.limits t question = .ok answer.response.body) := by
  have hrun := guard_run Golden.B (fun seed _ ↦ seed) opened asking
  refine ⟨_, hrun, _, List.mem_singleton_self _, rfl, ?_⟩
  rcases service_accountable advanced_reachable hrun _ (List.mem_singleton_self _) with
    hrefusal | ⟨-, -, question, -, t, -, hreachable, hhandle⟩
  · exact Or.inl hrefusal
  · exact Or.inr ⟨question, t, hreachable, hhandle⟩

/-- A request without the token, to servers of different stores. -/
theorem strangers_learn_nothing_opened :
    let request : Request := { asking with headers := [] }
    let other : AppState := .new provisioned.tables (golden.hash Golden.B) opened.limits (zeros 32)
    ∃ s s', Service.Run Golden.B (fun seed _ ↦ seed) opened s ∧
      Service.Run Golden.B (fun seed _ ↦ seed) other s' ∧ s.arrived = [request] ∧
      s'.arrived = [request] ∧
      s.strangers Golden.B (golden.hash Golden.B) = s'.strangers Golden.B (golden.hash Golden.B) :=
  have hrun := guard_run Golden.B (fun seed _ ↦ seed) opened { asking with headers := [] }
  have hrun' := guard_run Golden.B (fun seed _ ↦ seed) (.new provisioned.tables
    (golden.hash Golden.B) opened.limits (zeros 32)) { asking with headers := [] }
  ⟨_, _, hrun, hrun', rfl, rfl, strangers_learn_nothing hrun hrun' rfl⟩

end Golden

end ContextMesh.Transport
