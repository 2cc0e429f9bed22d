import ContextMesh.Client.Invocations

/-!
What becomes of a provider's outcome. The outcome is wrapped in a payload and signed as an event
before it is admitted, and the two steps have bounds of their own: an outcome that they refuse
leaves the request committed with nothing recorded.
-/

set_option autoImplicit false
set_option relaxedAutoImplicit false

namespace ContextMesh.Store

open Checked Ordered Contract Interaction Keyed Ledger

variable {B : Boundary}

/-! ### Outcomes that fit -/

variable (B) in
/-- The payload of the outcome is within the bounds of an event: 59 bytes are added to a response,
one level around it, and 71 bytes to the code and the detail of a failure. -/
def Recordable : ProviderOutcome → Prop
  | .response response => validateJsonValue response 2 = .ok () ∧
      canonicalLength B response + 59 ≤ MAX_CANONICAL_PAYLOAD_BYTES
  | .failure code detail => canonicalLength B (.str code) +
      canonicalLength B (.str (sanitizeDetail detail)) + 71 ≤ MAX_CANONICAL_PAYLOAD_BYTES

/-- An invocation identifier wraps 16 random bytes. -/
theorem canonicalLength_invocationId (entropy : Fixed 16) :
    canonicalLength B (.str (fixedText B "inv1_" entropy)) = 29 := by
  rw [canonicalLength_fixedText _ (by decide)]
  decide

theorem canonicalLength_response (entropy : Fixed 16) (response : Json) :
    canonicalLength B (.obj [("invocation_id", .str (fixedText B "inv1_" entropy)),
      ("response", response)]) = canonicalLength B response + 59 := by
  have hnames : canonicalLength B (.str "invocation_id") = 15 ∧
      canonicalLength B (.str "response") = 10 := by
    constructor <;>
    · rw [canonicalLength_plain (by decide)]
      decide
  rw [canonicalLength_obj (increasing_of_names ["invocation_id", "response"] rfl (by decide))]
  simp only [List.map_cons, List.map_nil, List.sum_cons, List.sum_nil, List.length_cons,
    List.length_nil, hnames, canonicalLength_invocationId]
  omega

theorem canonicalLength_failure (entropy : Fixed 16) (code detail : String) :
    canonicalLength B (.obj [("detail", .str detail), ("error_code", .str code),
      ("invocation_id", .str (fixedText B "inv1_" entropy))]) =
        canonicalLength B (.str code) + canonicalLength B (.str detail) + 71 := by
  have hnames : canonicalLength B (.str "detail") = 8 ∧
      canonicalLength B (.str "error_code") = 12 ∧
      canonicalLength B (.str "invocation_id") = 15 := by
    refine ⟨?_, ?_, ?_⟩ <;>
    · rw [canonicalLength_plain (by decide)]
      decide
  rw [canonicalLength_obj
    (increasing_of_names ["detail", "error_code", "invocation_id"] rfl (by decide))]
  simp only [List.map_cons, List.map_nil, List.sum_cons, List.sum_nil, List.length_cons,
    List.length_nil, hnames, canonicalLength_invocationId]
  omega

/-- An identity creates every event whose body is valid. -/
theorem createEvent_iff_validate {identity : SigningIdentity} {context : ContextId}
    {parents : List EventId} {kind : String} {payload : Json} :
    (∃ event, identity.createEvent B context parents kind payload = .ok event) ↔
      EventBodyV1.validate B ⟨EVENT_VERSION, context, parents, kind, identity.author B, payload⟩ =
        .ok () := by
  constructor
  · rintro ⟨event, h⟩
    obtain ⟨body, hbody, -⟩ := bind_eq_ok.mp h
    exact (unit_bind_eq_ok.mp hbody).1
  · intro hvalid
    obtain ⟨bytes, hbytes⟩ := canonicalize_total (B := B) (EventBodyV1.toJson B
      ⟨EVENT_VERSION, context, parents, kind, identity.author B, payload⟩)
    refine ⟨_, bind_eq_ok.mpr ⟨_, unit_bind_eq_ok.mpr ⟨hvalid, rfl⟩, unit_bind_eq_ok.mpr
      ⟨hvalid, unit_bind_eq_ok.mpr ⟨ensure_true rfl, bind_eq_ok.mpr ⟨_, bind_eq_ok.mpr ⟨bytes,
        unit_bind_eq_ok.mpr ⟨hvalid, hbytes⟩, rfl⟩, rfl⟩⟩⟩⟩⟩

/-- A result event is created exactly when its payload is within the bounds of a payload: the rest
of its body is small. -/
theorem createEvent_result {identity : SigningIdentity} {context : ContextId} {parent : EventId}
    {kind : OutcomeKind} {payload : Json} :
    (∃ event, identity.createEvent B context [parent] kind.eventKind payload = .ok event) ↔
      validateJsonValue payload 1 = .ok () ∧
        canonicalLength B payload ≤ MAX_CANONICAL_PAYLOAD_BYTES := by
  have hkind : validateKind kind.eventKind = .ok () ∧ kind.eventKind.utf8ByteSize ≤ 14 := by
    cases kind with
    | response => exact ⟨rfl, by decide⟩
    | recordedError => exact ⟨rfl, by decide⟩
  have hlength := @EventBodyV1.canonicalLength_toJson B
    ⟨EVENT_VERSION, context, [parent], kind.eventKind, identity.author B, payload⟩ rfl hkind.1
  have hbounds : MAX_CANONICAL_PAYLOAD_BYTES = 1048576 ∧ MAX_CANONICAL_BODY_BYTES = 1114112 :=
    ⟨rfl, rfl⟩
  rw [createEvent_iff_validate, EventBodyV1.validate_eq_ok]
  constructor
  · rintro ⟨-, -, -, -, hjson, hpayload, -⟩
    exact ⟨hjson, hpayload⟩
  · rintro ⟨hjson, hpayload⟩
    refine ⟨rfl, (by decide : 1 ≤ MAX_PARENTS), hkind.1, canonical_singleton _ _, hjson, hpayload,
      ?_⟩
    have hparents : [parent].length = 1 := rfl
    dsimp only at hlength
    omega

/-! ### What a recording asked and submitted -/

def answerOf : RecordingTurn → Option (InvocationContext × ProviderOutcome)
  | ⟨_, _, .ask (.invoke invocation), outcome, _⟩ => some (invocation, outcome)
  | _ => none

def submissionOf : RecordingTurn → Option (SignedEventV1 × RefMutation)
  | ⟨_, _, .call (.admitEvent event mutation), _, _⟩ => some (event, mutation)
  | _ => none

/-- The invocations the provider was asked for, with its outcomes. -/
def outcomes (h : RecordingHistory) : List (InvocationContext × ProviderOutcome) :=
  h.turns.filterMap answerOf

/-- The admissions the recording asked the store for. -/
def submissions (h : RecordingHistory) : List (SignedEventV1 × RefMutation) :=
  h.turns.filterMap submissionOf

variable (B) in
/-- The recording has stored a result of the request, on the branch or detached. -/
def Recorded (request : InvocationRequest) (requestId : EventId) (h : RecordingHistory) : Prop :=
  ∃ (event : SignedEventV1) (mutation : RefMutation) (e : StoredEvent B),
    (event, mutation) ∈ submissions h ∧ event.toWire B = .ok e.wire ∧ e.row ∈ h.now.events ∧
    e.context = request.context ∧ (e.kind = "agent.response" ∨ e.kind = "agent.error") ∧
    e.parents = [requestId] ∧ (mutation = .none ∨
      ∃ turn ∈ h.turns, Commits turn request.context request.branch requestId e)

variable (B) in
/-- The store failed, or a result is recorded: the two cases in which a recording may end. -/
def Accounted (request : InvocationRequest) (requestId : EventId)
    (result : Except ProviderError InvocationReport) (h : RecordingHistory) : Prop :=
  (∃ error, result = .error (.store error)) ∨ Recorded B request requestId h

variable (B) in
/-- A recording that was given an outcome ends well exactly when the outcome is recordable. -/
def Judged (request : InvocationRequest) (result : Except ProviderError InvocationReport)
    (h : RecordingHistory) : Prop :=
  ∀ invocation outcome, (invocation, outcome) ∈ outcomes h →
    (Accounted B request invocation.requestEventId result h ↔ Recordable B outcome)

/-- The rest of a recording after the outcome of the provider. -/
def recordOutcome (B : Boundary) (identity : SigningIdentity) (request : InvocationRequest)
    (requestId : EventId) (invocationId : String) (outcome : ProviderOutcome) :
    Recording InvocationReport := do
  let (kind, payload) ← Fallible.ofExcept (resultPayload B invocationId outcome)
  let resultEvent ← Fallible.ofExcept ((identity.createEvent B request.context [requestId]
    kind.eventKind payload).mapError fun _ ↦ .internal)
  let committed ← tryCall (.admitEvent resultEvent (.compareAndSwap request.context request.branch
    (.head requestId) resultEvent.eventId))
  match committed with
  | .ok _ => Fallible.ofExcept (.ok ⟨requestId, invocationId, kind, resultEvent.eventId⟩)
  | .error (.staleHead current) => do
    let _ ← call (.admitEvent resultEvent .none) .store
    Fallible.ofExcept (.error (.postExecutionConflict resultEvent.eventId current))
  | .error error => Fallible.ofExcept (.error (.store error))

section Recording

variable {request : InvocationRequest} {h h' : RecordingHistory} {event : SignedEventV1}
  {invocation : InvocationContext} {outcome : ProviderOutcome}

/-- A step that is neither a question to the provider nor a call leaves both lists as they are. -/
theorem Interleaved.silent {action : Action ProviderAsk}
    {answer : Action.Answer ProviderAsk.Reply action}
    (hasked : ∀ path before after, answerOf ⟨path, before, action, answer, after⟩ = none)
    (hcalled : ∀ path before after, submissionOf ⟨path, before, action, answer, after⟩ = none)
    (occurs : Interleaved B action h answer h') :
    outcomes h' = outcomes h ∧ submissions h' = submissions h := by
  obtain ⟨path, before, -, -, hturns⟩ := occurs
  refine ⟨(History.filterMap_snoc hturns).trans ?_, (History.filterMap_snoc hturns).trans ?_⟩
  · rw [hasked]
    exact List.append_nil _
  · rw [hcalled]
    exact List.append_nil _

theorem Interleaved.called {mutation : RefMutation} {answer : Except StoreError AdmissionStatus}
    (occurs : Interleaved B (.call (.admitEvent event mutation)) h answer h') :
    outcomes h' = outcomes h ∧ submissions h' = submissions h ++ [(event, mutation)] := by
  obtain ⟨path, before, -, -, hturns⟩ := occurs
  exact ⟨(History.filterMap_snoc hturns).trans (List.append_nil _), History.filterMap_snoc hturns⟩

theorem Interleaved.invoked (occurs : Interleaved B (.ask (.invoke invocation)) h outcome h') :
    outcomes h' = outcomes h ++ [(invocation, outcome)] ∧ submissions h' = submissions h := by
  obtain ⟨path, before, -, -, hturns⟩ := occurs
  exact ⟨History.filterMap_snoc hturns, (History.filterMap_snoc hturns).trans (List.append_nil _)⟩

/-- A committed swap of the recording. -/
theorem Interleaved.swapped {context : ContextId} {branch : LocalRefName} {expected : EventId}
    {status : AdmissionStatus} (hledger : OfLedger B h.now)
    (occurs : Interleaved B (.call (.admitEvent event
      (.compareAndSwap context branch (.head expected) event.eventId))) h (.ok status) h') :
    ∃ e : StoredEvent B, event.toWire B = .ok e.wire ∧ e.context = context ∧
      e.row ∈ h'.now.events ∧ ∃ turn ∈ h'.turns, Commits turn context branch expected e := by
  obtain ⟨-, turn, hturns, -, hcases⟩ := occurs.swap hledger
  obtain ⟨path, before, -, -, hexact⟩ := occurs
  obtain ⟨-, hsame⟩ := List.append_inj' (hturns.symm.trans hexact) rfl
  rcases hcases with ⟨-, hfailed⟩ | ⟨e, hrender, hcontext, hcommits, -, -⟩
  · exact absurd rfl (hfailed status)
  · refine ⟨e, hrender, hcontext, ?_, turn, ?_, hcommits⟩
    · have hstored := hcommits.stored
      rwa [List.singleton_inj.mp hsame] at hstored
    · rw [hturns]
      exact List.mem_append_right _ (List.mem_singleton_self _)

/-- As long as only requests were submitted, no result is recorded. -/
theorem not_recorded {requestId : EventId}
    (honly : ∀ submission ∈ submissions h, submission.1.body.kind = "agent.request") :
    ¬ Recorded B request requestId h := by
  rintro ⟨event, mutation, e, hsubmitted, hrender, -, -, hkind, -⟩
  obtain ⟨-, -, -, hsame, -⟩ := StoredEvent.columns hrender
  have hrequest : e.kind = "agent.request" := hsame.symm.trans (honly _ hsubmitted)
  rw [hrequest] at hkind
  exact absurd hkind (by decide)

theorem resultPayload_response {invocationId : String} {response : Json}
    {out : OutcomeKind × Json} : resultPayload B invocationId (.response response) = .ok out ↔
      canonicalLength B response ≤ PROVIDER_RESPONSE_LIMIT ∧
      (.response, .obj [("invocation_id", .str invocationId), ("response", response)]) = out := by
  obtain ⟨wire, hwire⟩ := canonicalize_total (B := B) response
  rw [resultPayload, hwire, mapError_ok, ok_bind, unit_bind_eq_ok, ensure_eq_ok, Except.ok.injEq,
    canonicalize_length hwire]

theorem resultPayload_ne_store {invocationId : String} {failure : StoreError} :
    resultPayload B invocationId outcome ≠ .error (.store failure) := by
  cases outcome with
  | response response =>
    exact bind_ne_error (mapError_ne_error fun _ ↦ by simp) fun _ _ ↦
      bind_ne_error (ensure_ne_error (by simp)) fun _ _ ↦ ok_ne_error
  | failure code detail => exact ok_ne_error

/-- The payload of an outcome and the event over it are made exactly when the outcome is
recordable. -/
theorem recordable_iff (identity : SigningIdentity) (context : ContextId) (parent : EventId)
    (entropy : Fixed 16) : Recordable B outcome ↔ ∃ kind payload event,
      resultPayload B (fixedText B "inv1_" entropy) outcome = .ok (kind, payload) ∧
      identity.createEvent B context [parent] kind.eventKind payload = .ok event := by
  have hlimits : PROVIDER_RESPONSE_LIMIT = MAX_CANONICAL_PAYLOAD_BYTES := rfl
  have htext (text : String) : validateJsonValue (.str text) 2 = .ok () := rfl
  -- under the root of a payload every member stands at depth 2
  have hroot (members : Members) : validateJsonValue (.obj members) 1 = .ok () ↔
      ∀ m ∈ members, validateJsonValue m.2 2 = .ok () := by
    rw [validateJsonValue, unit_bind_eq_ok, validateMembers_eq_ok]
    exact and_iff_right rfl
  cases outcome with
  | response response =>
    rw [Recordable]
    constructor
    · rintro ⟨hjson, hlength⟩
      obtain ⟨event, hevent⟩ := createEvent_result.mpr
        ⟨(hroot [("invocation_id", .str (fixedText B "inv1_" entropy)), ("response", response)]).mpr
          (List.forall_mem_cons.mpr ⟨htext _, List.forall_mem_singleton.mpr hjson⟩),
          (canonicalLength_response entropy response).trans_le hlength⟩
      exact ⟨.response, _, event, resultPayload_response.mpr ⟨by omega, rfl⟩, hevent⟩
    · rintro ⟨kind, payload, event, hout, hevent⟩
      obtain ⟨-, hsame⟩ := resultPayload_response.mp hout
      obtain ⟨rfl, rfl⟩ := Prod.mk.inj hsame
      obtain ⟨hjson, hlength⟩ := createEvent_result.mp ⟨event, hevent⟩
      rw [hroot, List.forall_mem_cons, List.forall_mem_singleton] at hjson
      rw [canonicalLength_response] at hlength
      exact ⟨hjson.2, hlength⟩
  | failure code detail =>
    rw [Recordable]
    constructor
    · intro hlength
      obtain ⟨event, hevent⟩ := createEvent_result.mpr
        ⟨(hroot [("detail", .str (sanitizeDetail detail)), ("error_code", .str code),
            ("invocation_id", .str (fixedText B "inv1_" entropy))]).mpr
          (List.forall_mem_cons.mpr ⟨htext _, List.forall_mem_cons.mpr ⟨htext _,
            List.forall_mem_singleton.mpr (htext _)⟩⟩),
          (canonicalLength_failure entropy code (sanitizeDetail detail)).trans_le hlength⟩
      exact ⟨.recordedError, _, event, rfl, hevent⟩
    · rintro ⟨kind, payload, event, hout, hevent⟩
      obtain ⟨rfl, rfl⟩ := Prod.mk.inj (Except.ok.inj hout)
      obtain ⟨-, hlength⟩ := createEvent_result.mp ⟨event, hevent⟩
      rw [canonicalLength_failure] at hlength
      exact hlength

/-- After the outcome: what cannot be made into an event ends the recording at once, and what can is
submitted until it is stored or the store fails. -/
theorem recordOutcome_keeps {identity : SigningIdentity} (entropy : Fixed 16)
    (hledger : OfLedger B h.now)
    (hanswered : outcomes h = [(invocation, outcome)])
    (honly : ∀ submission ∈ submissions h, submission.1.body.kind = "agent.request") :
    Keeps (Interleaved B) (fun h ↦ OfLedger B h.now)
      (recordOutcome B identity request invocation.requestEventId (fixedText B "inv1_" entropy)
        outcome).run (Judged B request) h := by
  have hjudged {h' : RecordingHistory} {result : Except ProviderError InvocationReport}
      (hsame : outcomes h' = outcomes h)
      (hiff : Accounted B request invocation.requestEventId result h' ↔ Recordable B outcome) :
      Judged B request result h' := by
    intro other given hmem
    rw [hsame, hanswered, List.mem_singleton] at hmem
    obtain ⟨rfl, rfl⟩ := Prod.mk.inj hmem
    exact hiff
  have hmakes : Recordable B outcome ↔ _ :=
    recordable_iff identity request.context invocation.requestEventId entropy
  have hrefused {error : ProviderError} (hother : ∀ failure, error ≠ .store failure)
      (hnone : ¬ Recordable B outcome) : Judged B request (.error error) h := by
    refine hjudged rfl (iff_of_false ?_ hnone)
    rintro (⟨failure, hfailure⟩ | hrecorded)
    · exact hother failure (Except.error.inj hfailure)
    · exact not_recorded honly hrecorded
  refine .ofExcept hledger (fun error herror ↦ ?_) fun ⟨kind, payload⟩ hpayload ↦
    .ofExcept hledger (fun error herror ↦ ?_) fun event hevent ↦
      .observe hledger fun committed h₁ occurs ↦ ?_
  · apply hrefused fun failure hfailure ↦ resultPayload_ne_store (hfailure ▸ herror)
    rintro hrecordable
    obtain ⟨kind, payload, event, hpayload, -⟩ := hmakes.mp hrecordable
    exact ok_ne_error (hpayload.symm.trans herror)
  · obtain ⟨failed, hfailed, rfl⟩ := mapError_eq_error herror
    apply hrefused fun failure ↦ by simp
    rintro hrecordable
    obtain ⟨kind', payload', event, hpayload', hevent⟩ := hmakes.mp hrecordable
    obtain ⟨rfl, rfl⟩ := Prod.mk.inj (Except.ok.inj (hpayload.symm.trans hpayload'))
    exact ok_ne_error (hevent.symm.trans hfailed)
  have hcreated := mapError_eq_ok.mp hevent
  have hrecordable : Recordable B outcome := hmakes.mpr ⟨kind, payload, event, hpayload, hcreated⟩
  have hbody := createEvent_eq_ok hcreated
  have hrecorded {h' : RecordingHistory} {mutation : RefMutation} {e : StoredEvent B}
      (hsubmitted : (event, mutation) ∈ submissions h') (hrender : event.toWire B = .ok e.wire)
      (hstored : e.row ∈ h'.now.events) (hplace : mutation = .none ∨ ∃ turn ∈ h'.turns,
        Commits turn request.context request.branch invocation.requestEventId e) :
      Recorded B request invocation.requestEventId h' := by
    obtain ⟨-, hcontext, -, hkind, hparents⟩ := StoredEvent.columns hrender
    refine ⟨event, mutation, e, hsubmitted, hrender, hstored, ?_, ?_, ?_, hplace⟩
    · rw [← hcontext, hbody]
    · rw [← hkind, hbody]
      cases kind with
      | response => exact Or.inl rfl
      | recordedError => exact Or.inr rfl
    · rw [← hparents, hbody]
  have hledger₁ := (occurs.swap hledger).1
  obtain ⟨houtcomes₁, hsubmissions₁⟩ := occurs.called
  rcases committed with error | status
  · cases error with
    | staleHead current =>
      refine .attempt hledger₁ (fun answer h₂ error occurs herror ↦ ?_) fun answer h₂ status occurs
        hok ↦ ?_
      · obtain ⟨failure, -, rfl⟩ := mapError_eq_error herror
        exact ⟨(occurs.plain hledger₁).1, hjudged (occurs.called.1.trans houtcomes₁)
          (iff_of_true (Or.inl ⟨failure, rfl⟩) hrecordable)⟩
      · obtain ⟨hledger₂, turn, -, -, -, -, hstored⟩ := occurs.plain hledger₁
        obtain ⟨houtcomes₂, hsubmissions₂⟩ := occurs.called
        obtain ⟨e, hrender, hrow⟩ := hstored status (mapError_eq_ok.mp hok)
        have hsubmitted : (event, _) ∈ submissions h₂ :=
          hsubmissions₂ ▸ List.mem_append_right _ (List.mem_singleton_self _)
        exact ⟨hledger₂, hjudged (houtcomes₂.trans houtcomes₁)
          (iff_of_true (Or.inr (hrecorded hsubmitted hrender hrow (Or.inl rfl))) hrecordable)⟩
    | _ => exact ⟨hledger₁, hjudged houtcomes₁ (iff_of_true (Or.inl ⟨_, rfl⟩) hrecordable)⟩
  · obtain ⟨e, hrender, -, hrow, hcommits⟩ := occurs.swapped hledger
    have hsubmitted : (event, _) ∈ submissions h₁ :=
      hsubmissions₁ ▸ List.mem_append_right _ (List.mem_singleton_self _)
    exact ⟨hledger₁, hjudged houtcomes₁
      (iff_of_true (Or.inr (hrecorded hsubmitted hrender hrow (Or.inr hcommits))) hrecordable)⟩

/-- Nothing was asked, and only requests were submitted. -/
def Unasked (h : RecordingHistory) : Prop :=
  outcomes h = [] ∧ ∀ submission ∈ submissions h, submission.1.body.kind = "agent.request"

theorem Unasked.judged (hunasked : Unasked h) (result : Except ProviderError InvocationReport) :
    Judged B request result h := by
  intro invocation outcome hmem
  rw [hunasked.1] at hmem
  exact absurd hmem List.not_mem_nil

/-- A read, or a question to the system. -/
theorem Unasked.reads {action : Action ProviderAsk}
    {answer : Action.Answer ProviderAsk.Reply action} (hunasked : Unasked h)
    (hledger : OfLedger B h.now) (hreads : ∀ operation, action ≠ .call operation)
    (hasked : ∀ path before after, answerOf ⟨path, before, action, answer, after⟩ = none)
    (hcalled : ∀ path before after, submissionOf ⟨path, before, action, answer, after⟩ = none)
    (occurs : Interleaved B action h answer h') : OfLedger B h'.now ∧ Unasked h' := by
  obtain ⟨houtcomes, hsubmissions⟩ := occurs.silent hasked hcalled
  refine ⟨(occurs.reads hledger hreads).1, ?_⟩
  rwa [Unasked, houtcomes, hsubmissions]

/-- The swap of the request. -/
theorem Unasked.submits {expected : EventId} {answer : Except StoreError AdmissionStatus}
    (hunasked : Unasked h) (hledger : OfLedger B h.now) (hkind : event.body.kind = "agent.request")
    (occurs : Interleaved B (.call (.admitEvent event (.compareAndSwap request.context
      request.branch (.head expected) event.eventId))) h answer h') :
    OfLedger B h'.now ∧ Unasked h' := by
  obtain ⟨houtcomes, hsubmissions⟩ := occurs.called
  refine ⟨(occurs.swap hledger).1, houtcomes.trans hunasked.1, ?_⟩
  rw [hsubmissions, List.forall_mem_append, List.forall_mem_singleton]
  exact ⟨hunasked.2, hkind⟩

/-- A recording up to the question: before it nothing is to be accounted for. -/
theorem recordInvocation_judged {identity : SigningIdentity} (hledger : OfLedger B h.now)
    (hunasked : Unasked h) :
    Keeps (Interleaved B) (fun h ↦ OfLedger B h.now)
      (recordInvocation B identity request).run (Judged B request) h := by
  refine .ofExcept hledger (fun _ _ ↦ hunasked.judged _) fun _ _ ↦ .ofExcept hledger
    (fun _ _ ↦ hunasked.judged _) fun _ _ ↦ .attempt hledger (fun answer h₁ error occurs _ ↦ ?_)
      fun answer h₁ projection occurs _ ↦ ?_
  · obtain ⟨hledger, hunasked⟩ :=
      hunasked.reads hledger (by simp) (fun _ _ _ ↦ rfl) (fun _ _ _ ↦ rfl) occurs
    exact ⟨hledger, hunasked.judged _⟩
  replace ⟨hledger, hunasked⟩ :=
    hunasked.reads hledger (by simp) (fun _ _ _ ↦ rfl) (fun _ _ _ ↦ rfl) occurs
  refine .attempt hledger (fun bytes h₂ error occurs _ ↦ ?_) fun bytes h₂ invocationId occurs
    hentropy ↦ ?_
  · obtain ⟨hledger, hunasked⟩ :=
      hunasked.reads hledger (by simp) (fun _ _ _ ↦ rfl) (fun _ _ _ ↦ rfl) occurs
    exact ⟨hledger, hunasked.judged _⟩
  replace ⟨hledger, hunasked⟩ :=
    hunasked.reads hledger (by simp) (fun _ _ _ ↦ rfl) (fun _ _ _ ↦ rfl) occurs
  obtain ⟨entropy, -, hid⟩ := bind_eq_ok.mp hentropy
  obtain rfl : fixedText B "inv1_" entropy = invocationId := Except.ok.inj hid
  refine .ofExcept hledger (fun _ _ ↦ hunasked.judged _) fun requestEvent hrequest ↦ ?_
  have hkind : requestEvent.body.kind = "agent.request" := by
    rw [createEvent_eq_ok (mapError_eq_ok.mp hrequest)]
  refine .attempt hledger (fun answer h₃ error occurs _ ↦ ?_) fun answer h₃ status occurs _ ↦ ?_
  · obtain ⟨hledger, hunasked⟩ := hunasked.submits hledger hkind occurs
    exact ⟨hledger, hunasked.judged _⟩
  replace ⟨hledger, hunasked⟩ := hunasked.submits hledger hkind occurs
  refine .observe hledger fun outcome h₄ occurs ↦ ?_
  obtain ⟨houtcomes, hsubmissions⟩ := occurs.invoked
  have hledger₄ := (occurs.reads hledger (by simp)).1
  rw [hunasked.1, List.nil_append] at houtcomes
  have hrest := @recordOutcome_keeps B request h₄ _ outcome identity entropy hledger₄ houtcomes
    (hsubmissions ▸ hunasked.2)
  refine (congrArg (fun rest : Recording InvocationReport ↦
    Keeps (Interleaved B) (fun h ↦ OfLedger B h.now) rest.run (Judged B request) h₄) ?_).mpr hrest
  -- the rest of the recording is what becomes of its outcome
  unfold recordOutcome
  congr 1
  funext ⟨kind, payload⟩
  dsimp only
  congr 1
  funext event
  congr 1
  funext committed
  rcases committed with error | status
  · cases error <;> rfl
  · rfl

/-- A recording that has asked its provider ends with a result stored, or with a failure of the
store, exactly when the outcome it was given is recordable. -/
theorem recordInvocation_accounted_iff (B : Boundary) (t : Tables) (hreachable : Reachable B t)
    (identity : SigningIdentity) (request : InvocationRequest)
    (result : Except ProviderError InvocationReport) (h : RecordingHistory)
    (hrun : Runs (Interleaved B) (recordInvocation B identity request).run ⟨[], t⟩ (.done result) h)
    (invocation : InvocationContext) (outcome : ProviderOutcome)
    (hasked : (invocation, outcome) ∈ outcomes h) :
    Accounted B request invocation.requestEventId result h ↔ Recordable B outcome := by
  obtain ⟨L, hwell, rfl⟩ := exists_of_reachable hreachable
  have hunasked : Unasked ⟨[], L.tables⟩ := ⟨rfl, fun _ hmem ↦ absurd hmem List.not_mem_nil⟩
  exact hrun.post (recordInvocation_judged ⟨L, hwell, rfl⟩ hunasked) invocation outcome hasked

end Recording

section Golden

open Reference Exchange

/-- What the provider of the world is asked. -/
def question (projection : Projection) : InvocationContext :=
  ⟨Golden.context, first.id, projection.events, asked.id, invocationId, .null⟩

/-- The provider answers, and the response is stored on the branch. -/
theorem recorded_over {projection : Projection} (hproject : project Exchange.B branched.tables
      Golden.context [first.id] .default = .ok projection) :
    ∃ (h : RecordingHistory) (report : InvocationReport), Runs (Interleaved Exchange.B)
      (recordInvocation Exchange.B Golden.identity invocation).run ⟨[], branched.tables⟩
      (.done (.ok report)) h ∧
    (question projection, .response .null) ∈ outcomes h := by
  obtain ⟨status₁, hsubmit⟩ := submits_asked
  obtain ⟨status₂, hrespond⟩ : ∃ status, admitEvent Exchange.B answered.event
      (.compareAndSwap Golden.context Golden.main (.head asked.id) answered.id) requested.tables =
        .ok (responded.tables, status) :=
    admit_swapped requested_wellFormed requested_admits_answered (by decide) asked_ne_answered
  refine ⟨?history, ?report, ?run, ?outcomes⟩
  case run =>
    refine .ofExcept (mapError_eq_ok.mpr (World.canonicalize_eq _)) (.ofExcept
      (ensure_true (by decide)) (.attempt (.answers ⟨rfl, Or.inl hproject.symm⟩) rfl ?_))
    refine .attempt (.replies .entropy (some entropy)) draws_invocationId
      (.ofExcept (mapError_eq_ok.mpr creates_asked) (.attempt (.commits (.refl _) hsubmit) rfl ?_))
    refine .observe (.replies (.invoke _) (.response .null)) (.ofExcept payload_answered
      (.ofExcept (mapError_eq_ok.mpr creates_answered)
        (.observe (.commits (.refl _) hrespond) ?_)))
    exact .refl _ _
  case outcomes => exact List.mem_singleton_self _

theorem recorded_run : ∃ (h : RecordingHistory) (projection : Projection)
    (report : InvocationReport), Runs (Interleaved Exchange.B)
      (recordInvocation Exchange.B Golden.identity invocation).run ⟨[], branched.tables⟩
      (.done (.ok report)) h ∧
    (question projection, .response .null) ∈ outcomes h := by
  obtain ⟨projection, hproject⟩ := projects_first
  obtain ⟨h, report, hrun, hasked⟩ := recorded_over hproject
  exact ⟨h, projection, report, hrun, hasked⟩

theorem recordInvocation_accounted_iff_responded : ∃ (h : RecordingHistory)
    (projection : Projection) (report : InvocationReport),
    (Accounted Exchange.B invocation (question projection).requestEventId (.ok report) h ↔
      Recordable Exchange.B (.response .null)) := by
  obtain ⟨h, projection, report, hrun, hasked⟩ := recorded_run
  exact ⟨h, projection, report, recordInvocation_accounted_iff Exchange.B branched.tables
    branched_exchange Golden.identity invocation _ h hrun _ _ hasked⟩

/-- The least number that is no safe integer. -/
def unsafeResponse : Json := .num (.posInt 9007199254740992)

theorem payload_unsafe : resultPayload Exchange.B invocationId (.response unsafeResponse) =
    .ok (.response, .obj [("invocation_id", .str invocationId), ("response", unsafeResponse)]) := by
  rw [resultPayload, World.canonicalize_eq, mapError_ok, ok_bind, ensure_true (by decide), ok_bind]

theorem refuses_unsafe : ((Golden.identity.createEvent Exchange.B Golden.context [asked.id]
    "agent.response" (.obj [("invocation_id", .str invocationId), ("response", unsafeResponse)])
      ).mapError fun _ ↦ ProviderError.internal) = .error .internal := rfl

/-- The provider answers with a short response that holds no safe integer. The request stays
committed, and nothing is stored over it. -/
theorem recordInvocation_unrecorded : Reachable Exchange.B branched.tables ∧
    canonicalLength Exchange.B unsafeResponse ≤ PROVIDER_RESPONSE_LIMIT ∧
    ∃ (h : RecordingHistory) (projection : Projection), Runs (Interleaved Exchange.B)
        (recordInvocation Exchange.B Golden.identity invocation).run ⟨[], branched.tables⟩
        (.done (.error .internal)) h ∧
      (question projection, .response unsafeResponse) ∈ outcomes h ∧
      localRefId h.now Golden.context Golden.main = .ok (some asked.id) ∧
      ∀ e : StoredEvent Exchange.B, e.row ∈ h.now.events → e.parents ≠ [asked.id] := by
  obtain ⟨projection, hproject⟩ := projects_first
  obtain ⟨status, hsubmit⟩ := submits_asked
  refine ⟨branched_exchange, by decide, ?history, projection, ?run, ?outcomes, ?head, ?none⟩
  case run =>
    refine .ofExcept (mapError_eq_ok.mpr (World.canonicalize_eq _)) (.ofExcept
      (ensure_true (by decide)) (.attempt (.answers ⟨rfl, Or.inl hproject.symm⟩) rfl ?_))
    refine .attempt (.replies .entropy (some entropy)) draws_invocationId
      (.ofExcept (mapError_eq_ok.mpr creates_asked) (.attempt (.commits (.refl _) hsubmit) rfl ?_))
    refine .observe (.replies (.invoke _) (.response unsafeResponse)) (.ofExcept payload_unsafe ?_)
    dsimp only
    exact .ofError refuses_unsafe
  case outcomes => exact List.mem_singleton_self _
  case head => exact localRefId_tables requested_wellFormed.toWellKeyed _ _
  case none =>
    intro e hstored
    rcases List.mem_pair.mp (mem_tables_events.mp hstored : e ∈ [first, asked]) with rfl | rfl
    · exact fun hparents ↦ List.cons_ne_nil _ _ hparents.symm
    · exact fun hparents ↦ first_ne_asked (List.singleton_inj.mp hparents)

end Golden

end ContextMesh.Store
