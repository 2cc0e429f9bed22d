import ContextMesh.Client.Command
import ContextMesh.Client.Outcomes
import ContextMesh.Codec.Bundle

/-!
Recording an invocation whose provider is a process. The document that the process is told holds the
ancestry of the selected head as the store holds it, and is refused only when it is too long.
Whatever the process does, a failure of it is recorded; its response is, when it fits an event.
-/

set_option autoImplicit false
set_option relaxedAutoImplicit false

namespace ContextMesh.Store

open Checked Ordered Contract Interaction Ledger

variable {B : Boundary}

/-! ### Failures -/

/-- A text is escaped into at most six bytes for each of its own, between quotes. -/
def BoundedEscapes (B : Boundary) : Prop :=
  ∀ text, canonicalLength B (.str text) ≤ 6 * text.utf8ByteSize + 2

theorem sanitizeChars_size {used : ℕ} (chars : List Char) (h : used ≤ ERROR_DETAIL_LIMIT) :
    used + (String.ofList (sanitizeChars used chars)).utf8ByteSize ≤ ERROR_DETAIL_LIMIT := by
  induction chars generalizing used with
  | nil => exact h
  | cons character rest ih =>
    rw [sanitizeChars]
    generalize (if character.val < 32 ∨ character.val = 127 then Char.ofNat 0xFFFD else character) =
      replacement
    split_ifs with hlong
    · exact h
    · rw [String.ofList_cons, String.utf8ByteSize_append, String.utf8ByteSize_singleton,
        ← Nat.add_assoc]
      exact ih (Nat.not_lt.mp hlong)

theorem sanitizeDetail_size (text : String) :
    (sanitizeDetail text).utf8ByteSize ≤ ERROR_DETAIL_LIMIT := by
  have h := sanitizeChars_size text.toList (Nat.zero_le _)
  rwa [Nat.zero_add] at h

/-- The codes of the failures of a process. -/
def frozenCodes : List String :=
  ["internal", "limit_exceeded", "provider_declared", "provider_malformed", "provider_timeout",
    "provider_transport"]

theorem failures_frozen : ∀ fault ∈ spawnFailures ++ exchangeFailures,
    fault.code ∈ frozenCodes := by
  decide

theorem invocationLine_frozen {invocation : InvocationContext} {fault : ProviderFault}
    (h : invocationLine B invocation = .error fault) : fault.code ∈ frozenCodes := by
  by_contra hother
  have hbound {detail : String} : (⟨"limit_exceeded", detail⟩ : ProviderFault) ≠ fault := by
    rintro rfl
    exact hother (by decide : "limit_exceeded" ∈ frozenCodes)
  have hinternal {detail : String} : (⟨"internal", detail⟩ : ProviderFault) ≠ fault := by
    rintro rfl
    exact hother (by decide : "internal" ∈ frozenCodes)
  refine absurd h ?_
  unfold invocationLine
  refine bind_ne_error (ensure_ne_error hbound) fun _ _ ↦ ?_
  refine bind_ne_error (mapEach_ne_error (fun event ↦ ?_) _) fun _ _ ↦ ?_
  · refine bind_ne_error (mapError_ne_error fun _ ↦ hinternal) fun _ _ ↦ ?_
    exact required_ne_error hinternal
  · refine bind_ne_error (mapError_ne_error fun _ ↦ hinternal) fun _ _ ↦ ?_
    exact bind_ne_error (ensure_ne_error hbound) fun _ _ ↦ ok_ne_error

/-- A verdict on a line that is a failure was declared, or is a fault of the line. -/
theorem commandOutcome_frozen {invocationId code detail : String} {answer : Bytes}
    (h : commandOutcome B invocationId (.ok answer) = .failure code detail) :
    code ∈ frozenCodes := by
  rw [commandOutcome, ok_bind] at h
  cases hparse : parseProviderLine B answer invocationId with
  | error fault =>
    rw [hparse] at h
    obtain ⟨rfl, -⟩ := ProviderOutcome.failure.inj h
    rcases parseProviderLine_fault hparse with hcode | hcode <;> rw [hcode] <;> decide
  | ok outcome =>
    rw [hparse] at h
    obtain ⟨-, object, -, -, -, hanswer⟩ := parseProviderLine_eq_ok.mp hparse
    rcases hanswer with ⟨-, -, response, -, -, rfl⟩ | ⟨-, -, _, _, -, -, rfl⟩
    · cases h
    · obtain ⟨rfl, -⟩ := ProviderOutcome.failure.inj h
      decide

theorem CommandAnswers.code_frozen {capacity : ℕ} {invocation : InvocationContext}
    {code detail : String} (h : CommandAnswers B capacity invocation (.failure code detail)) :
    code ∈ frozenCodes := by
  rcases h.cases with ⟨fault, hrefused, houtcome⟩ | ⟨line, -, ⟨fault, hfault, houtcome⟩ |
    ⟨answer, -, -, houtcome⟩⟩
  · obtain ⟨rfl, -⟩ := ProviderOutcome.failure.inj houtcome
    exact invocationLine_frozen hrefused
  · obtain ⟨rfl, -⟩ := ProviderOutcome.failure.inj houtcome
    exact failures_frozen fault hfault
  · exact commandOutcome_frozen houtcome.symm

/-- A failure with a frozen code fits an event, whatever its detail. -/
theorem recordable_frozen (hescapes : BoundedEscapes B) {code detail : String}
    (hcode : code ∈ frozenCodes) : Recordable B (.failure code detail) := by
  have hbounds : MAX_CANONICAL_PAYLOAD_BYTES = 1048576 ∧ ERROR_DETAIL_LIMIT = 1024 := ⟨rfl, rfl⟩
  have hshort : ∀ code ∈ frozenCodes, code.utf8ByteSize ≤ 18 := by decide
  have hcodeLength := hescapes code
  have hdetailLength := hescapes (sanitizeDetail detail)
  have hcodeSize := hshort code hcode
  have hdetailSize := sanitizeDetail_size detail
  rw [Recordable]
  omega

/-! ### The document -/

/-- A stored event is embedded as it is, if its payload has no raw text. -/
theorem ancestryValue_stored (e : StoredEvent B) (hunmarked : e.event.Unmarked B) :
    ancestryValue B e.event = .ok (e.event.toJson B) := by
  have hreading := SignedEventV1.reading_of_unmarked e.verify hunmarked
  rw [SignedEventV1.reading_of_wire e.authentic.renders, e.settle_event] at hreading
  rw [ancestryValue, e.authentic.renders, mapError_ok, ok_bind, hreading, required_some]

/-- The events are the ancestry of the head in the ledger, parents first. -/
def Ancestral (L : Ledger B) (head : EventId) (events : List SignedEventV1) : Prop :=
  ∃ es : List (StoredEvent B), events = es.map StoredEvent.event ∧ (∀ e ∈ es, e ∈ L.events) ∧
    (es.map StoredEvent.id).Nodup ∧ (∀ id, id ∈ es.map StoredEvent.id ↔ L.Ancestor head id) ∧
    ∀ before e after, es = before ++ e :: after →
      ∀ parent ∈ e.parents, parent ∈ before.map StoredEvent.id

theorem ancestral_project {L : Ledger B} (h : L.WellFormed) {context : ContextId} {head : EventId}
    {limits : ProjectionLimits} {projection : Projection}
    (hok : project B L.tables context [head] limits = .ok projection) :
    Ancestral L head projection.events := by
  obtain ⟨-, hok⟩ := unit_bind_eq_ok.mp hok
  obtain ⟨heads, hheads, hok⟩ := bind_eq_ok.mp hok
  obtain ⟨⟨events, bytes⟩, hprojected, hok⟩ := bind_eq_ok.mp hok
  obtain ⟨-, hheads⟩ := unit_bind_eq_ok.mp hheads
  rw [normalize_eq_self (canonical_singleton _ _), Except.ok.injEq] at hheads
  rw [Except.ok.injEq] at hok
  subst hheads hok
  obtain ⟨-, es, rfl, hstored, hnodup, hancestry, hfirst, -⟩ := projectOn_tables h hprojected
  exact ⟨es, rfl, hstored, hnodup, fun id ↦ (hancestry id).trans (by simp), hfirst⟩

variable (B) in
/-- The process reads one line with the members of the document, the input as canonical bytes read
back, or the document is too long. -/
def Told (invocation : InvocationContext) : Prop :=
  match invocationLine B invocation with
  | .ok line => ∃ document, line = document ++ [NEWLINE] ∧
      strictJson B document = .ok (.obj (invocationMembers B
        { invocation with input := invocation.input.collect B.reread }
        (invocation.ancestry.map (SignedEventV1.toJson B))))
  | .error fault => fault.code = "limit_exceeded"

theorem told_of_stored {invocation : InvocationContext} {es : List (StoredEvent B)}
    (hancestry : invocation.ancestry = es.map StoredEvent.event)
    (hunmarked : ∀ event ∈ invocation.ancestry, event.Unmarked B)
    (hdepth : invocation.input.depth ≤ 63) : Told B invocation := by
  have hvalues : mapEach (ancestryValue B) invocation.ancestry =
      .ok (invocation.ancestry.map (SignedEventV1.toJson B)) := by
    rw [hancestry] at hunmarked ⊢
    rw [List.map_map]
    exact mapEach_map fun e he ↦ ancestryValue_stored e (hunmarked _ (List.mem_map_of_mem he))
  have hstored : ∀ v ∈ invocation.ancestry.map (SignedEventV1.toJson B),
      v.depth ≤ 66 ∧ Settled B v := by
    intro v hv
    rw [hancestry, List.map_map] at hv
    obtain ⟨e, -, rfl⟩ := List.mem_map.mp hv
    have hvalid := SignedEventV1.verify_validate
      (SignedEventV1.toWire_eq_ok.mp e.authentic.renders).1
    exact ⟨SignedEventV1.toJson_depth_le hvalid, e.authentic.settled⟩
  unfold Told invocationLine
  generalize invocation.ancestry.map (SignedEventV1.toJson B) = values at hvalues hstored ⊢
  obtain ⟨document, hdocument⟩ := canonicalize_total (B := B)
    (.obj (invocationMembers B invocation values))
  have hnested : (Json.obj (invocationMembers B invocation values)).depth ≤ MAX_NESTING := by
    have hvalues : (Json.arr values).depth ≤ 67 := depth_arr_le fun v hv ↦ (hstored v hv).1
    have hmembers : ∀ m ∈ invocationMembers B invocation values, m.2.depth ≤ 67 := by
      simp only [invocationMembers, List.forall_mem_cons]
      exact ⟨hvalues, Nat.zero_le _, hdepth.trans (by decide), Nat.zero_le _, Nat.zero_le _,
        Nat.zero_le _, Nat.zero_le _, fun _ hm ↦ absurd hm List.not_mem_nil⟩
    exact (depth_obj_le hmembers).trans (by decide)
  have hread : strictJson B document = .ok (.obj (invocationMembers B
      { invocation with input := invocation.input.collect B.reread } values)) := by
    have hsettled : collectItems B.reread values = values :=
      Json.arr.inj (settled_arr fun v hv ↦ (hstored v hv).2)
    have hversion : B.reread (.posInt 1) = .posInt 1 := B.reread_posInt (by decide)
    rw [strictJson_canonicalize hdocument hnested,
      Json.collect_obj _ (invocationMembers_increasing B invocation values)]
    simp only [invocationMembers, List.map_cons, List.map_nil, hsettled, Json.collect, hversion]
  by_cases hcount : invocation.ancestry.length ≤ MAX_INVOCATION_ANCESTRY
  · rw [ensure_true hcount, ok_bind, hvalues, ok_bind, hdocument, mapError_ok, ok_bind]
    by_cases hlength : document.length + 1 ≤ JSONL_LINE_LIMIT
    · rw [ensure_true hlength]
      exact ⟨document, rfl, hread⟩
    · rw [ensure_false hlength]
      rfl
  · rw [ensure_false hcount]
    rfl

/-! ### The recording -/

variable (B) in
/-- The events are the ancestry of the head in a state of the store that the recording met. -/
def Met (head : EventId) (events : List SignedEventV1) (h : RecordingHistory) : Prop :=
  ∃ turn ∈ h.turns, ∃ L : Ledger B, L.WellFormed ∧ turn.before = L.tables ∧ Ancestral L head events

variable (B) in
/-- The invocation was made of the request, over the ancestry of its head. -/
structure Posed (request : InvocationRequest) (h : RecordingHistory)
    (invocation : InvocationContext) : Prop where
  selected : invocation.context = request.context ∧
    invocation.selectedHead = request.expectedHead ∧ invocation.input = request.input
  shallow : invocation.input.depth ≤ 63
  met : Met B request.expectedHead invocation.ancestry h

variable (B) in
/-- Every invocation so far was made of the request. -/
def AllPosed (request : InvocationRequest) (h : RecordingHistory) : Prop :=
  OfLedger B h.now ∧ ∀ question ∈ outcomes h, Posed B request h question.1

section Recording

variable {request : InvocationRequest} {h h' : RecordingHistory}
  {invocation : InvocationContext} {outcome : ProviderOutcome} {action : Action ProviderAsk}
  {answer : Action.Answer ProviderAsk.Reply action}

theorem Posed.told (hposed : Posed B request h invocation)
    (hunmarked : ∀ event ∈ invocation.ancestry, event.Unmarked B) : Told B invocation := by
  obtain ⟨_, -, _, -, -, es, hevents, -⟩ := hposed.met
  exact told_of_stored hevents hunmarked hposed.shallow

theorem Interleaved.ofLedger (hledger : OfLedger B h.now)
    (occurs : Interleaved B action h answer h') : OfLedger B h'.now := by
  obtain ⟨-, L, -, hwell, -, -, -, haction⟩ := occurs.turn hledger
  cases action with
  | call operation =>
    obtain ⟨fault, -, hexecute⟩ := haction
    have hwrote : Wrote B L.tables h'.now := ⟨operation, fault, congrArg Prod.fst hexecute⟩
    exact hwrote.ofLedger ⟨L, hwell, rfl⟩
  | ask question => exact ⟨L, hwell, haction⟩
  | project | listLocalRefs | listRemoteRefs => exact ⟨L, hwell, haction.1⟩

theorem Met.step {head : EventId} {events : List SignedEventV1} (hmet : Met B head events h)
    (occurs : Interleaved B action h answer h') : Met B head events h' := by
  obtain ⟨turn, hturn, hrest⟩ := hmet
  obtain ⟨path, before, -, -, hturns⟩ := occurs
  refine ⟨turn, ?_, hrest⟩
  rw [hturns]
  exact List.mem_append_left _ hturn

/-- The projection of a recording. -/
theorem Interleaved.projects {context : ContextId} {head : EventId} {limits : ProjectionLimits}
    {projection : Projection} (hledger : OfLedger B h.now)
    (occurs : Interleaved B (.project context [head] limits) h (.ok projection) h') :
    Met B head projection.events h' := by
  obtain ⟨turn, L, hturns, hwell, hbefore, -, -, -, hreads⟩ := occurs.turn hledger
  refine ⟨turn, ?_, L, hwell, hbefore, ?_⟩
  · rw [hturns]
    exact List.mem_append_right _ (List.mem_singleton_self _)
  · rcases hreads with hok | ⟨error, herror⟩
    · exact ancestral_project hwell hok.symm
    · exact nomatch herror

/-- A step that is no question to the provider keeps what was asked. -/
theorem AllPosed.step (hposed : AllPosed B request h) (hasked : outcomes h' = outcomes h)
    (occurs : Interleaved B action h answer h') : AllPosed B request h' := by
  refine ⟨occurs.ofLedger hposed.1, fun question hquestion ↦ ?_⟩
  rw [hasked] at hquestion
  obtain ⟨hselected, hshallow, hmet⟩ := hposed.2 question hquestion
  exact ⟨hselected, hshallow, hmet.step occurs⟩

/-- A read, or a question to the system. -/
theorem AllPosed.reads (hposed : AllPosed B request h)
    (hasked : ∀ path before after, answerOf ⟨path, before, action, answer, after⟩ = none)
    (hcalled : ∀ path before after, submissionOf ⟨path, before, action, answer, after⟩ = none)
    (occurs : Interleaved B action h answer h') : AllPosed B request h' :=
  hposed.step (occurs.silent hasked hcalled).1 occurs

/-- The question to the provider. -/
theorem AllPosed.asks (hposed : AllPosed B request h)
    (occurs : Interleaved B (.ask (.invoke invocation)) h outcome h')
    (hinvocation : Posed B request h invocation) : AllPosed B request h' := by
  refine ⟨occurs.ofLedger hposed.1, fun question hquestion ↦ ?_⟩
  have hkept {other : InvocationContext} (hother : Posed B request h other) :
      Posed B request h' other := ⟨hother.selected, hother.shallow, hother.met.step occurs⟩
  rw [occurs.invoked.1] at hquestion
  rcases List.mem_append.mp hquestion with hold | hnew
  · exact hkept (hposed.2 question hold)
  · exact List.mem_singleton.mp hnew ▸ hkept hinvocation

/-- The input of a request event is nested less deeply than its payload. -/
theorem createEvent_shallow {identity : SigningIdentity} {context : ContextId}
    {parents : List EventId} {kind name : String} {input : Json} {members : Members}
    {event : SignedEventV1} (hinput : (name, input) ∈ members)
    (h : identity.createEvent B context parents kind (.obj members) = .ok event) :
    input.depth ≤ 63 := by
  obtain ⟨-, -, -, -, hjson, -⟩ :=
    EventBodyV1.validate_eq_ok.mp (createEvent_iff_validate.mp ⟨event, h⟩)
  obtain ⟨-, hmembers⟩ := unit_bind_eq_ok.mp hjson
  have hdepth := validateJsonValue_depth _ _ (validateMembers_eq_ok.mp hmembers _ hinput)
  exact Nat.le_of_add_le_add_right hdepth

/-- What a recording asks its provider is made of its request. -/
theorem recordInvocation_poses (identity : SigningIdentity) (hposed : AllPosed B request h) :
    Keeps (Interleaved B) (AllPosed B request) (recordInvocation B identity request).run
      (fun _ _ ↦ True) h := by
  refine .ofExcept hposed (fun _ _ ↦ trivial) fun _ _ ↦ .ofExcept hposed (fun _ _ ↦ trivial)
    fun _ _ ↦ .attempt hposed (fun answer h₁ error occurs _ ↦ ?_) fun answer h₁ projection occurs
      hok ↦ ?_
  · exact ⟨hposed.reads (fun _ _ _ ↦ rfl) (fun _ _ _ ↦ rfl) occurs, trivial⟩
  obtain rfl := mapError_eq_ok.mp hok
  have hmet := occurs.projects hposed.1
  replace hposed := hposed.reads (fun _ _ _ ↦ rfl) (fun _ _ _ ↦ rfl) occurs
  refine .attempt hposed (fun bytes h₂ error occurs _ ↦ ?_) fun bytes h₂ invocationId occurs _ ↦ ?_
  · exact ⟨hposed.reads (fun _ _ _ ↦ rfl) (fun _ _ _ ↦ rfl) occurs, trivial⟩
  replace hmet := hmet.step occurs
  replace hposed := hposed.reads (fun _ _ _ ↦ rfl) (fun _ _ _ ↦ rfl) occurs
  refine .ofExcept hposed (fun _ _ ↦ trivial) fun requestEvent hrequest ↦
    .attempt hposed (fun answer h₃ error occurs _ ↦ ?_) fun answer h₃ status occurs _ ↦ ?_
  · exact ⟨hposed.step occurs.called.1 occurs, trivial⟩
  have hshallow : request.input.depth ≤ 63 :=
    createEvent_shallow List.mem_cons_self (mapError_eq_ok.mp hrequest)
  replace hmet := hmet.step occurs
  replace hposed := hposed.step occurs.called.1 occurs
  refine .observe hposed fun outcome h₄ occurs ↦ ?_
  replace hposed := hposed.asks occurs ⟨⟨rfl, rfl, rfl⟩, hshallow, hmet⟩
  refine .ofExcept hposed (fun _ _ ↦ trivial) fun ⟨kind, payload⟩ _ ↦ .ofExcept hposed
    (fun _ _ ↦ trivial) fun resultEvent _ ↦ .observe hposed fun committed h₅ occurs ↦ ?_
  replace hposed := hposed.step occurs.called.1 occurs
  rcases committed with error | status
  · cases error with
    | staleHead current =>
      refine .attempt hposed (fun answer h₆ error occurs _ ↦ ?_) fun answer h₆ status occurs _ ↦ ?_
      · exact ⟨hposed.step occurs.called.1 occurs, trivial⟩
      · exact ⟨hposed.step occurs.called.1 occurs, trivial⟩
    | _ => exact ⟨hposed, trivial⟩
  · exact ⟨hposed, trivial⟩

/-- Recording an invocation with a process as its provider, among other writers: the process is told
the ancestry of the selected head as the store held it, unless a payload of it has an object that
begins with the raw token; every failure of the process is recorded unless the store fails, and a
response is exactly when it fits an event. -/
theorem command_recorded (B : Boundary) (hescapes : BoundedEscapes B) (capacity : ℕ) (t : Tables)
    (hreachable : Reachable B t) (identity : SigningIdentity) (request : InvocationRequest)
    (result : Except ProviderError InvocationReport) (h : RecordingHistory)
    (hrun : Runs (Interleaved B) (recordInvocation B identity request).run ⟨[], t⟩ (.done result) h)
    (invocation : InvocationContext) (outcome : ProviderOutcome)
    (hasked : (invocation, outcome) ∈ outcomes h)
    (hanswers : CommandAnswers B capacity invocation outcome) :
    Posed B request h invocation ∧
      ((∀ event ∈ invocation.ancestry, event.Unmarked B) → Told B invocation) ∧
      (Accounted B request invocation.requestEventId result h ↔
        ∀ response, outcome = .response response → Recordable B outcome) := by
  obtain ⟨L, hwell, rfl⟩ := exists_of_reachable hreachable
  have hledger : OfLedger B L.tables := ⟨L, hwell, rfl⟩
  have hkept := (hrun.keeps (recordInvocation_poses identity
    (h := ⟨[], L.tables⟩) ⟨hledger, fun _ hmem ↦ absurd hmem List.not_mem_nil⟩)).invariant
  have hposed : Posed B request h invocation := hkept.2 _ hasked
  have hunasked : Unasked ⟨[], L.tables⟩ := ⟨rfl, fun _ hmem ↦ absurd hmem List.not_mem_nil⟩
  have hjudged : Accounted B request invocation.requestEventId result h ↔ Recordable B outcome :=
    hrun.post (recordInvocation_judged hledger hunasked) invocation outcome hasked
  refine ⟨hposed, hposed.told, hjudged.trans ?_⟩
  cases outcome with
  | response response => exact ⟨fun hfits _ _ ↦ hfits, fun h ↦ h response rfl⟩
  | failure code detail =>
    exact iff_of_true (recordable_frozen hescapes hanswers.code_frozen)
      fun response hsame ↦ nomatch hsame

end Recording

section Golden

open Reference Exchange

theorem boundedEscapes (w : World) : BoundedEscapes w.boundary := length_toVec_str_le

/-- The ancestry of the first event is the event. -/
theorem events_first {projection : Projection} (hproject : project Exchange.B branched.tables
      Golden.context [first.id] .default = .ok projection) : projection.events = [first.event] := by
  obtain ⟨es, hevents, hstored, hnodup, hancestry, -⟩ :=
    ancestral_project branched_wellFormed hproject
  have hfirst : ∀ e ∈ es, e = first := fun e he ↦ List.mem_singleton.mp (hstored e he)
  have hmem : first.id ∈ es.map StoredEvent.id := (hancestry first.id).mpr Ancestor.refl
  have hsame : es = List.replicate es.length first := List.eq_replicate_of_mem hfirst
  rw [hsame, List.map_replicate] at hnodup hmem
  have hone : es.length = 1 := Nat.le_antisymm (List.nodup_replicate.mp hnodup)
    (Nat.pos_of_ne_zero (List.mem_replicate.mp hmem).1)
  rw [hevents, hsame, hone]
  rfl

/-- The line of the response. -/
def responseLine : Bytes := toVec (.obj (responseMembers invocationId .null))

theorem responseLine_unbroken : NEWLINE ∉ responseLine := by decide +kernel

theorem responseLine_verdict :
    commandOutcome Exchange.B invocationId (.ok responseLine) = .response .null := by
  have hincreasing : Increasing (responseMembers invocationId .null) :=
    increasing_of_names ["invocation_id", "ok", "protocol_version", "response"] rfl (by decide)
  have hplain : (Json.obj (responseMembers invocationId .null)).collect spelled =
      .obj (responseMembers invocationId .null) := by
    rw [Json.collect_obj _ hincreasing]
    rfl
  have hdocument : Exchange.B.deserialize (firstLine responseLine) =
      .ok (.obj (responseMembers invocationId .null)) := by
    have hread := deserialize_toVec (.obj (responseMembers invocationId .null))
    rw [hplain] at hread
    have hsame : Exchange.B.deserialize = deserialize := rfl
    rw [firstLine_eq_self responseLine_unbroken, hsame]
    exact hread
  have hline : firstLine responseLine ≠ [] := by
    intro hnil
    rw [hnil] at hdocument
    exact nomatch hdocument
  have hlength : canonicalLength Exchange.B .null ≤ PROVIDER_RESPONSE_LIMIT := by
    rw [canonicalLength, Exchange.B.toVec_null_length]
    decide
  have hstraight : Straight Exchange.B (firstLine responseLine) := by
    intro document hread
    rw [hdocument, Except.ok.injEq] at hread
    rw [← hread]
    refine ⟨⟨not_beginsRaw (by decide), trivial, trivial, trivial, trivial, trivial⟩, ?_⟩
    rintro members ⟨⟩
    exact hincreasing.nodup_names
  have hparse : parseProviderLine Exchange.B responseLine invocationId = .ok (.response .null) :=
    (parseProviderLine_members hline hstraight hdocument).mpr
      (Or.inl ⟨.null, List.Perm.refl _, hlength, rfl⟩)
  rw [commandOutcome, ok_bind, hparse]

theorem first_unmarked : first.event.Unmarked Exchange.B := by
  have hsettled := Exchange.settled_payload (Or.inl rfl) Exchange.B
  change (Golden.genesis.body.payload.collect Exchange.B.reread).Unmarked
  rw [hsettled]
  exact ⟨by decide, trivial⟩

/-- The document of the invocation is short enough. -/
theorem question_line {projection : Projection} (hevents : projection.events = [first.event]) :
    ∃ line, invocationLine Exchange.B (question projection) = .ok line := by
  have hvalues : mapEach (ancestryValue Exchange.B) (question projection).ancestry =
      .ok [first.event.toJson Exchange.B] := by
    change mapEach _ projection.events = _
    rw [hevents, mapEach, ancestryValue_stored first first_unmarked, ok_bind, mapEach, ok_bind]
  obtain ⟨document, hdocument⟩ := canonicalize_total (B := Exchange.B)
    (.obj (invocationMembers Exchange.B (question projection) [first.event.toJson Exchange.B]))
  have hlength : document.length + 1 ≤ JSONL_LINE_LIMIT := by
    have hlimit : JSONL_LINE_LIMIT = 2097152 := rfl
    have hembeds := length_invocationMembers_le Exchange.B (question projection)
      [first.event.toJson Exchange.B]
    have hevent : canonicalLength Exchange.B (first.event.toJson Exchange.B) ≤ 1114289 := by
      rw [← canonicalize_length (SignedEventV1.toWire_eq_ok.mp first.authentic.renders).2]
      exact SignedEventV1.length_toWire_le first.authentic.renders
    have hinput : canonicalLength Exchange.B (question projection).input = 4 :=
      Exchange.B.toVec_null_length
    have hid : canonicalLength Exchange.B (.str (question projection).invocationId) = 29 :=
      canonicalLength_invocationId entropy
    rw [canonicalLength_arr, List.map_singleton, List.sum_singleton, List.length_singleton, hinput,
      hid] at hembeds
    rw [canonicalize_length hdocument]
    omega
  have hcount : (question projection).ancestry.length ≤ MAX_INVOCATION_ANCESTRY := by
    change projection.events.length ≤ _
    rw [hevents]
    decide
  exact ⟨document ++ [NEWLINE], unit_bind_eq_ok.mpr ⟨ensure_true hcount, bind_eq_ok.mpr ⟨_, hvalues,
    bind_eq_ok.mpr ⟨document, mapError_eq_ok.mpr hdocument,
      unit_bind_eq_ok.mpr ⟨ensure_true hlength, rfl⟩⟩⟩⟩⟩

/-- The process answers with the response. -/
theorem answers_question {projection : Projection} (hproject : project Exchange.B branched.tables
      Golden.context [first.id] .default = .ok projection) :
    CommandAnswers Exchange.B 65536 (question projection) (.response .null) := by
  obtain ⟨line, hline⟩ := question_line (events_first hproject)
  obtain ⟨_, _, hrun, hended⟩ := Dialog.exists_answered (by decide : 0 < 65536) line
    responseLine_unbroken (by decide +kernel)
  rw [← responseLine_verdict]
  exact .exchanged hline hrun hended

theorem command_recorded_responded : ∃ (h : RecordingHistory) (projection : Projection)
    (report : InvocationReport), Posed Exchange.B invocation h (question projection) ∧
      Told Exchange.B (question projection) ∧
      (Accounted Exchange.B invocation asked.id (.ok report) h ↔
        ∀ response, ProviderOutcome.response .null = .response response →
          Recordable Exchange.B (.response .null)) := by
  obtain ⟨projection, hproject⟩ := projects_first
  obtain ⟨h, report, hrun, hasked⟩ := recorded_over hproject
  obtain ⟨hposed, htold, hjudged⟩ := command_recorded Exchange.B (boundedEscapes world) 65536
    branched.tables branched_exchange Golden.identity invocation _ h hrun _ _ hasked
    (answers_question hproject)
  refine ⟨h, projection, report, hposed, htold fun event hevent ↦ ?_, hjudged⟩
  change event ∈ projection.events at hevent
  rw [events_first hproject] at hevent
  exact List.mem_singleton.mp hevent ▸ first_unmarked

end Golden

end ContextMesh.Store
