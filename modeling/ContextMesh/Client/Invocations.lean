import ContextMesh.Client.Recording
import ContextMesh.Ledger.Runs
import ContextMesh.Ledger.Projection
import ContextMesh.Reference.Exchange

/-!
Recording an invocation among other writers. Whatever they commit between two steps of a recording,
the provider is asked at most once and after the request was committed on the branch, and the result
is committed as a child of the request.
-/

set_option autoImplicit false
set_option relaxedAutoImplicit false

namespace ContextMesh.Store

open Checked Contract Interaction Relation Keyed Ledger

variable {B : Boundary}

/-! ### Histories of a client -/

variable (B) in
/-- One transaction of any writer, which the database may fail. -/
def Wrote (t t' : Tables) : Prop :=
  ∃ (operation : Operation) (fault : Option Fault), (operation.execute B fault t).1 = t'

/-- The steps of a recording, with what other writers did in between. -/
abbrev RecordingHistory := History (Action ProviderAsk) (Action.Answer ProviderAsk.Reply) Tables

abbrev RecordingTurn := Turn (Action ProviderAsk) (Action.Answer ProviderAsk.Reply) Tables

variable (B) in
/-- A step of a recording after any transactions of others. -/
abbrev Interleaved :
    Effect (Action ProviderAsk) (Action.Answer ProviderAsk.Reply) RecordingHistory :=
  History.Occurs (Action.Occurs B (fun _ ↦ True) ProviderAsk.Reply) (Wrote B)

variable (B) in
/-- The tables are those of a well-formed ledger. -/
def OfLedger (t : Tables) : Prop := ∃ L : Ledger B, L.WellFormed ∧ t = L.tables

theorem Wrote.ofLedger {t t' : Tables} (hwrote : Wrote B t t') (h : OfLedger B t) :
    OfLedger B t' := by
  obtain ⟨operation, fault, rfl⟩ := hwrote
  obtain ⟨L, hwell, rfl⟩ := h
  obtain ⟨L', htables, hsteps⟩ := run_steps hwell (.step (.refl L.tables) operation fault)
  exact ⟨L', hsteps.wellFormed hwell, htables⟩

/-- A step meets the tables of a well-formed ledger. -/
theorem Interleaved.turn {h h' : RecordingHistory} {action : Action ProviderAsk}
    {answer : Action.Answer ProviderAsk.Reply action} (hledger : OfLedger B h.now)
    (occurs : Interleaved B action h answer h') :
    ∃ (turn : RecordingTurn) (L : Ledger B), h'.turns = h.turns ++ [turn] ∧ L.WellFormed ∧
      turn.before = L.tables ∧ turn.after = h'.now ∧ turn.action = action ∧
      Action.Occurs B (fun _ ↦ True) ProviderAsk.Reply action L.tables answer h'.now := by
  obtain ⟨path, before, hpasses, haction, hturns⟩ := occurs
  obtain ⟨⟨L, hwell, rfl⟩, -⟩ := Passes.invariant (motive := OfLedger B)
    (fun _ _ hwrote h ↦ hwrote.ofLedger h) hpasses hledger
  exact ⟨_, L, hturns, hwell, rfl, rfl, rfl, haction⟩

/-! ### Admissions of a recording -/

section Admission

variable {L : Ledger B} {event : SignedEventV1} {context : ContextId} {branch : LocalRefName}
  {expected : EventId} {t : Tables} {status : AdmissionStatus}

/-- An event admitted with a swap from the expected head is the head afterwards. Before, the branch
was at the expected head or at the event already. -/
theorem admit_swap (h : L.WellFormed)
    (hok : admitEvent B event (.compareAndSwap context branch (.head expected) event.eventId)
      L.tables = .ok (t, status)) :
    ∃ (L' : Ledger B) (e : StoredEvent B), t = L'.tables ∧ L'.WellFormed ∧ e ∈ L'.events ∧
      event.toWire B = .ok e.wire ∧ e.context = context ∧
      (L.localHead context branch = some expected ∨ L.localHead context branch = some e.id) ∧
      L'.localHead context branch = some e.id ∧
      (∀ ref ∈ L'.localRefs, ref ∈ L.localRefs ∨ ref.head = e.id) ∧
      L'.remoteRefs = L.remoteRefs := by
  obtain ⟨e, hrender, htargets, hadmits, L', applied, hswaps, rfl, -⟩ := (admit_eq_ok h).mp hok
  obtain ⟨hid, hcontext, -⟩ := StoredEvent.columns hrender
  have hcontext : e.context = context := hcontext.symm.trans htargets.1.symm
  have hmem := mem_admitted h hadmits
  have hadmitted := h.admitted hadmits
  have hkept := And.intro (L.admitted_localRefs e) (L.admitted_remoteRefs e)
  have hhead := L.localHead_admitted e context branch
  rw [hid] at hswaps
  cases hswaps with
  | applied current =>
    exact ⟨_, e, rfl, hadmitted, hmem, hrender, hcontext, Or.inr (hhead ▸ current), current,
      fun ref href ↦ Or.inl (hkept.1 ▸ href), hkept.2⟩
  | swapped current moved =>
    have hset : ((L.admitted e).setLocal ⟨context, branch, e.id⟩).WellFormed :=
      hadmitted.setLocal ⟨e, hmem, rfl, hcontext⟩
    refine ⟨_, e, rfl, hset, hmem, hrender, hcontext, Or.inl (hhead ▸ current), ?_,
      fun ref href ↦ ?_, hkept.2⟩
    · exact hset.localHead_eq_some.mpr (mem_put.mpr (Or.inl rfl))
    · rcases mem_put.mp href with rfl | ⟨hold, -⟩
      · exact Or.inr rfl
      · exact Or.inl (hkept.1 ▸ hold)

/-- An event admitted without a swap is stored, and no ref is touched. -/
theorem admit_plain (h : L.WellFormed)
    (hok : admitEvent B event .none L.tables = .ok (t, status)) :
    ∃ (L' : Ledger B) (e : StoredEvent B), t = L'.tables ∧ L'.WellFormed ∧ e ∈ L'.events ∧
      event.toWire B = .ok e.wire ∧ L'.localRefs = L.localRefs ∧
      L'.remoteRefs = L.remoteRefs := by
  obtain ⟨e, hrender, -, hadmits, L', applied, hswaps, rfl, -⟩ := (admit_eq_ok h).mp hok
  cases hswaps
  exact ⟨_, e, rfl, h.admitted hadmits, mem_admitted h hadmits, hrender, L.admitted_localRefs e,
    L.admitted_remoteRefs e⟩

end Admission

/-! ### Orderly histories -/

/-- The request event of a recording. -/
structure IsRequest (request : InvocationRequest) (e : StoredEvent B) : Prop where
  context : e.context = request.context
  kind : e.kind = "agent.request"
  parents : e.parents = [request.expectedHead]

/-- The turn is the recording's own submission of the event, and commits it on the branch: the event
is stored after it and is the head. Before it, the branch was at the expected head, or another
writer had moved it to this very event. -/
structure Commits (turn : RecordingTurn) (context : ContextId)
    (branch : LocalRefName) (expected : EventId) (e : StoredEvent B) : Prop where
  submitted : ∃ event : SignedEventV1, event.toWire B = .ok e.wire ∧ turn.action =
    .call (.admitEvent event (.compareAndSwap context branch (.head expected) event.eventId))
  stored : e.row ∈ turn.after.events
  before : localRefId turn.before context branch = .ok (some expected) ∨
    localRefId turn.before context branch = .ok (some e.id)
  after : localRefId turn.after context branch = .ok (some e.id)

/-- The turn asks the provider. -/
def Asks (turn : RecordingTurn) (invocation : InvocationContext) : Prop :=
  turn.action = .ask (.invoke invocation)

variable (B) in
/-- The provider is asked at most once, and after the commit of its request; as long as the
recording has committed no request of its own, it writes nothing and asks nothing, also where
another writer has moved the branch on from the expected head. -/
structure Orderly (request : InvocationRequest) (turns : List RecordingTurn) : Prop where
  asked : ∀ front turn invocation, front ++ [turn] <+: turns → Asks turn invocation →
    (∃ e : StoredEvent B, IsRequest request e ∧ e.id = invocation.requestEventId ∧
      ∃ commit ∈ front, Commits commit request.context request.branch request.expectedHead e) ∧
    ∀ earlier ∈ front, ∀ other, ¬ Asks earlier other
  quiet : (∀ turn ∈ turns, ∀ e : StoredEvent B, IsRequest request e →
      ¬ Commits turn request.context request.branch request.expectedHead e) →
    ∀ turn ∈ turns, turn.after = turn.before ∧ ∀ invocation, ¬ Asks turn invocation

section Orderly

variable {request : InvocationRequest} {turns : List RecordingTurn} {turn : RecordingTurn}

theorem Orderly.nil : Orderly B request [] where
  asked := by
    intro front turn invocation hprefix
    rw [List.prefix_nil, List.append_eq_nil_iff] at hprefix
    exact absurd hprefix.2 (List.cons_ne_nil _ _)
  quiet _ turn hturn := absurd hturn List.not_mem_nil

/-- One more turn: a question needs a committed request and no earlier question, and a turn that
writes needs a committed request. -/
theorem Orderly.snoc (h : Orderly B request turns)
    (hasks : ∀ invocation, Asks turn invocation →
      (∃ e : StoredEvent B, IsRequest request e ∧ e.id = invocation.requestEventId ∧
        ∃ commit ∈ turns, Commits commit request.context request.branch request.expectedHead e) ∧
      ∀ earlier ∈ turns, ∀ other, ¬ Asks earlier other)
    (hwrites : turn.after = turn.before ∧ (∀ invocation, ¬ Asks turn invocation) ∨
      ∃ e : StoredEvent B, IsRequest request e ∧ ∃ commit ∈ turns ++ [turn],
        Commits commit request.context request.branch request.expectedHead e) :
    Orderly B request (turns ++ [turn]) where
  asked := by
    intro front other invocation hprefix hother
    rcases List.prefix_concat_iff.mp hprefix with heq | hprefix
    · obtain ⟨rfl, hlast⟩ := List.append_inj' heq rfl
      obtain rfl := List.singleton_inj.mp hlast
      exact hasks invocation hother
    · exact h.asked front other invocation hprefix hother
  quiet := by
    intro hnone other hother
    rcases hwrites with ⟨hsame, hnot⟩ | ⟨e, hrequest, commit, hcommit, hcommits⟩
    · rcases List.mem_append.mp hother with hold | hnew
      · exact h.quiet (fun turn hturn ↦ hnone turn (List.mem_append_left _ hturn)) other hold
      · exact List.mem_singleton.mp hnew ▸ ⟨hsame, hnot⟩
    · exact absurd hcommits (hnone commit hcommit e hrequest)

end Orderly

/-! ### The outcome -/

/-- The result event of a recording whose request is committed. -/
structure IsResult (request : InvocationRequest) (requestEvent e : StoredEvent B) : Prop where
  context : e.context = request.context
  kind : e.kind = "agent.response" ∨ e.kind = "agent.error"
  parents : e.parents = [requestEvent.id]

variable (B) in
/-- What the result of a recording says about its history. -/
def Outcome (request : InvocationRequest) (h : RecordingHistory) :
    Except ProviderError InvocationReport → Prop
  | .ok report => ∃ requestEvent resultEvent : StoredEvent B,
      IsRequest request requestEvent ∧ requestEvent.id = report.requestEventId ∧
      IsResult request requestEvent resultEvent ∧ resultEvent.id = report.resultEventId ∧
      (∃ turn ∈ h.turns,
        Commits turn request.context request.branch request.expectedHead requestEvent) ∧
      ∃ turn ∈ h.turns,
        Commits turn request.context request.branch requestEvent.id resultEvent
  | .error (.postExecutionConflict result _) => ∃ requestEvent resultEvent : StoredEvent B,
      IsRequest request requestEvent ∧ IsResult request requestEvent resultEvent ∧
      resultEvent.id = result ∧ resultEvent.row ∈ h.now.events ∧
      (∃ turn ∈ h.turns,
        Commits turn request.context request.branch request.expectedHead requestEvent) ∧
      ∀ turn ∈ h.turns, turn.after.remoteRefs = turn.before.remoteRefs ∧
        ∀ row ∈ turn.after.localRefs, row.eventId = cell result.bytes →
          row ∈ turn.before.localRefs
  | .error _ => True

/-- Every other failure says nothing. -/
theorem Outcome.error {request : InvocationRequest} {h : RecordingHistory} {error : ProviderError}
    (hother : ∀ result current, error ≠ .postExecutionConflict result current) :
    Outcome B request h (.error error) := by
  cases error with
  | postExecutionConflict result current => exact absurd rfl (hother result current)
  | _ => trivial

/-! ### The steps of a recording -/

/-- The turn moves local refs to the event at most, and no remote ref. -/
def Touches (turn : RecordingTurn) (id : EventId) : Prop :=
  turn.after.remoteRefs = turn.before.remoteRefs ∧
    ∀ row ∈ turn.after.localRefs, row ∈ turn.before.localRefs ∨ row.eventId = cell id.bytes

theorem Touches.of_eq {turn : RecordingTurn} (h : turn.after = turn.before) (id : EventId) :
    Touches turn id := by
  unfold Touches
  rw [h]
  exact ⟨rfl, fun row hrow ↦ Or.inl hrow⟩

section Steps

variable {L : Ledger B} {event : SignedEventV1} {context : ContextId} {branch : LocalRefName}
  {expected : EventId} {t : Tables} {status : AdmissionStatus}

/-- A committed swap commits its event on the branch. -/
theorem Commits.of_body {turn : RecordingTurn} (h : L.WellFormed) (hbefore : turn.before = L.tables)
    (haction : turn.action =
      .call (.admitEvent event (.compareAndSwap context branch (.head expected) event.eventId)))
    (hok : admitEvent B event (.compareAndSwap context branch (.head expected) event.eventId)
      L.tables = .ok (turn.after, status)) :
    OfLedger B turn.after ∧ ∃ e : StoredEvent B, event.toWire B = .ok e.wire ∧
      e.context = context ∧ Commits turn context branch expected e ∧ Touches turn e.id := by
  obtain ⟨L', e, hafter, hwell, hmem, hrender, hcontext, hold, hnew, hlocal, hremote⟩ :=
    admit_swap h hok
  refine ⟨⟨L', hwell, hafter⟩, e, hrender, hcontext, ⟨⟨event, hrender, haction⟩, ?_, ?_, ?_⟩, ?_⟩
  · rw [hafter]
    exact mem_tables_events.mpr hmem
  · rwa [hbefore, localRefId_tables h.toWellKeyed, Except.ok.injEq, Except.ok.injEq]
  · rwa [hafter, localRefId_tables hwell.toWellKeyed, Except.ok.injEq]
  · unfold Touches
    rw [hafter, hbefore]
    refine ⟨congrArg (List.map RemoteRef.row) hremote, fun row hrow ↦ ?_⟩
    obtain ⟨ref, href, rfl⟩ := List.mem_map.mp hrow
    rcases hlocal ref href with hkept | hmoved
    · exact Or.inl (List.mem_map_of_mem hkept)
    · exact Or.inr (congrArg (fun id : EventId ↦ cell id.bytes) hmoved)

variable {h h' : RecordingHistory} {action : Action ProviderAsk}
  {answer : Action.Answer ProviderAsk.Reply action}

/-- A step that is no call writes nothing. -/
theorem Interleaved.reads (hledger : OfLedger B h.now)
    (hreads : ∀ operation, action ≠ .call operation) (occurs : Interleaved B action h answer h') :
    OfLedger B h'.now ∧ ∃ turn, h'.turns = h.turns ++ [turn] ∧ turn.action = action ∧
      turn.after = turn.before := by
  obtain ⟨turn, L, hturns, hwell, hbefore, hafter, hturn, haction⟩ := occurs.turn hledger
  have hsame : h'.now = L.tables := by
    cases action with
    | call operation => exact absurd rfl (hreads operation)
    | ask question => exact haction
    | project | listLocalRefs | listRemoteRefs => exact haction.1
  exact ⟨⟨L, hwell, hsame⟩, turn, hturns, hturn, hafter.trans (hsame.trans hbefore.symm)⟩

/-- A swap of a recording writes nothing, or commits its event on the branch. -/
theorem Interleaved.swap (hledger : OfLedger B h.now)
    {answer : Except StoreError AdmissionStatus}
    (occurs : Interleaved B (.call (.admitEvent event
      (.compareAndSwap context branch (.head expected) event.eventId))) h answer h') :
    OfLedger B h'.now ∧ ∃ turn : RecordingTurn, h'.turns = h.turns ++ [turn] ∧
      (∀ invocation, ¬ Asks turn invocation) ∧
      (turn.after = turn.before ∧ (∀ status, answer ≠ .ok status) ∨
        ∃ e : StoredEvent B, event.toWire B = .ok e.wire ∧ e.context = context ∧
          Commits turn context branch expected e ∧ Touches turn e.id ∧
          ∀ current, answer ≠ .error (.staleHead current)) := by
  obtain ⟨turn, L, hturns, hwell, hbefore, hafter, hturn, haction⟩ := occurs.turn hledger
  have hnot (invocation : InvocationContext) : ¬ Asks turn invocation := by
    intro hasks
    rw [Asks, hturn] at hasks
    cases hasks
  rw [← hafter] at haction ⊢
  obtain ⟨fault, -, hexecute⟩ := id haction
  rcases hanswer : answer with error | status
  · subst hanswer
    by_cases hsame : turn.after = L.tables
    · exact ⟨⟨L, hwell, hsame⟩, turn, hturns, hnot,
        Or.inl ⟨hsame.trans hbefore.symm, fun status hstatus ↦ nomatch hstatus⟩⟩
    · rcases occurs_call haction with hsame' | ⟨status, hbody⟩
      · exact absurd hsame' hsame
      · obtain ⟨hledger', e, hrender, hcontext, hcommits, htouches⟩ :=
          Commits.of_body hwell hbefore hturn hbody
        refine ⟨hledger', turn, hturns, hnot, Or.inr ⟨e, hrender, hcontext, hcommits, htouches,
          fun current hstale ↦ hsame ?_⟩⟩
        cases hstale
        rw [← transact_rolledBack (congrArg Prod.snd hexecute) (by simp)]
        exact (congrArg Prod.fst hexecute).symm
  · subst hanswer
    obtain ⟨hledger', e, hrender, hcontext, hcommits, htouches⟩ :=
      Commits.of_body hwell hbefore hturn (occurs_acknowledged haction)
    exact ⟨hledger', turn, hturns, hnot, Or.inr ⟨e, hrender, hcontext, hcommits, htouches,
      fun current hstale ↦ nomatch hstale⟩⟩

/-- An admission of a recording without a swap moves no ref. -/
theorem Interleaved.plain (hledger : OfLedger B h.now)
    {answer : Except StoreError AdmissionStatus}
    (occurs : Interleaved B (.call (.admitEvent event .none)) h answer h') :
    OfLedger B h'.now ∧ ∃ turn : RecordingTurn, h'.turns = h.turns ++ [turn] ∧
      (∀ invocation, ¬ Asks turn invocation) ∧
      turn.after.localRefs = turn.before.localRefs ∧
      turn.after.remoteRefs = turn.before.remoteRefs ∧
      ∀ status, answer = .ok status → ∃ e : StoredEvent B, event.toWire B = .ok e.wire ∧
        e.row ∈ h'.now.events := by
  obtain ⟨turn, L, hturns, hwell, hbefore, hafter, hturn, haction⟩ := occurs.turn hledger
  have hnot (invocation : InvocationContext) : ¬ Asks turn invocation := by
    intro hasks
    rw [Asks, hturn] at hasks
    cases hasks
  have hplain {status : AdmissionStatus}
      (hbody : admitEvent B event .none L.tables = .ok (h'.now, status)) :
      OfLedger B h'.now ∧ h'.now.localRefs = L.tables.localRefs ∧
        h'.now.remoteRefs = L.tables.remoteRefs ∧ ∃ e : StoredEvent B,
          event.toWire B = .ok e.wire ∧ e.row ∈ h'.now.events := by
    obtain ⟨L', e, htables, hwell', hmem, hrender, hlocal, hremote⟩ := admit_plain hwell hbody
    rw [htables]
    exact ⟨⟨L', hwell', rfl⟩, congrArg (List.map LocalRef.row) hlocal,
      congrArg (List.map RemoteRef.row) hremote, e, hrender, mem_tables_events.mpr hmem⟩
  rcases occurs_call haction with hsame | ⟨status, hbody⟩
  · refine ⟨⟨L, hwell, hsame⟩, turn, hturns, hnot, ?_⟩
    rw [hafter, hbefore]
    refine ⟨congrArg Tables.localRefs hsame, congrArg Tables.remoteRefs hsame,
      fun status hstatus ↦ ?_⟩
    subst hstatus
    exact (hplain (occurs_acknowledged haction)).2.2.2
  · obtain ⟨hledger', hlocal, hremote, hstored⟩ := hplain hbody
    refine ⟨hledger', turn, hturns, hnot, ?_⟩
    rw [hafter, hbefore]
    exact ⟨hlocal, hremote, fun _ _ ↦ hstored⟩

end Steps

/-! ### Runs of a recording -/

/-- A call that the database does not fail, after the given transactions of others. -/
theorem Interleaved.commits {operation : Operation} {result : operation.Result}
    {h : RecordingHistory} {path : List Tables} {before after : Tables}
    (hpasses : Passes (Wrote B) h.now path before)
    (hbody : operation.body B before = .ok (after, result)) :
    Interleaved B (.call operation) h (.ok result)
      ⟨h.turns ++ [⟨path, before, .call operation, .ok result, after⟩], after⟩ := by
  have hexecute : operation.execute B none before = (after, .ok result) := (transact_ok hbody).1
  have hnone : ∀ fault ∈ (none : Option Fault), True := fun _ _ ↦ trivial
  exact ⟨path, before, hpasses, ⟨none, hnone, hexecute⟩, rfl⟩

/-- A step that writes nothing, with no transactions of others before it. -/
theorem Interleaved.answers {action : Action ProviderAsk}
    {answer : Action.Answer ProviderAsk.Reply action} {h : RecordingHistory}
    (haction : Action.Occurs B (fun _ ↦ True) ProviderAsk.Reply action h.now answer h.now) :
    Interleaved B action h answer ⟨h.turns ++ [⟨[], h.now, action, answer, h.now⟩], h.now⟩ :=
  ⟨[], h.now, .refl _, haction, rfl⟩

/-- A question, with any reply. -/
theorem Interleaved.replies {h : RecordingHistory} (question : ProviderAsk)
    (reply : question.Reply) : Interleaved B (.ask question) h reply
      ⟨h.turns ++ [⟨[], h.now, .ask question, reply, h.now⟩], h.now⟩ := .answers rfl

theorem Wrote.of_body (operation : Operation) {result : operation.Result}
    {before after : Tables} (hbody : operation.body B before = .ok (after, result)) :
    Wrote B before after := ⟨operation, none, congrArg Prod.fst (transact_ok hbody).1⟩

/-! ### The recording -/

/-- Nothing is written and nothing is asked so far. -/
def Silent (h : RecordingHistory) : Prop :=
  ∀ turn ∈ h.turns, turn.after = turn.before ∧ ∀ invocation, ¬ Asks turn invocation

/-- The request is committed, and nothing else was moved. -/
structure Requested (request : InvocationRequest) (e : StoredEvent B) (h : RecordingHistory) :
    Prop where
  isRequest : IsRequest request e
  commit : ∃ turn ∈ h.turns, Commits turn request.context request.branch request.expectedHead e
  touches : ∀ turn ∈ h.turns, Touches turn e.id

section Recording

variable {request : InvocationRequest} {h h' : RecordingHistory} {turn : RecordingTurn}
  {e : StoredEvent B}

theorem Silent.snoc (hsilent : Silent h) (hturns : h'.turns = h.turns ++ [turn])
    (hsame : turn.after = turn.before) (hnot : ∀ invocation, ¬ Asks turn invocation) :
    Silent h' := by
  intro other hother
  rw [hturns] at hother
  rcases List.mem_append.mp hother with hold | hnew
  · exact hsilent other hold
  · exact List.mem_singleton.mp hnew ▸ ⟨hsame, hnot⟩

theorem Requested.snoc (hrequested : Requested request e h)
    (hturns : h'.turns = h.turns ++ [turn]) (htouches : Touches turn e.id) :
    Requested request e h' where
  isRequest := hrequested.isRequest
  commit := by
    obtain ⟨commit, hcommit, hcommits⟩ := hrequested.commit
    rw [hturns]
    exact ⟨commit, List.mem_append_left _ hcommit, hcommits⟩
  touches := by
    intro other hother
    rw [hturns] at hother
    rcases List.mem_append.mp hother with hold | hnew
    · exact hrequested.touches other hold
    · exact List.mem_singleton.mp hnew ▸ htouches

/-- A turn after the commit of the request that is no question keeps a history orderly. -/
theorem Requested.orderly (hrequested : Requested request e h)
    (horderly : Orderly B request h.turns) (hturns : h'.turns = h.turns ++ [turn])
    (hnot : ∀ invocation, ¬ Asks turn invocation) :
    Orderly B request h'.turns := by
  rw [hturns]
  obtain ⟨commit, hcommit, hcommits⟩ := hrequested.commit
  exact horderly.snoc (fun invocation hasks ↦ absurd hasks (hnot invocation))
    (Or.inr ⟨e, hrequested.isRequest, commit, List.mem_append_left _ hcommit, hcommits⟩)

/-- A read before the commit of the request. -/
theorem Silent.reads {action : Action ProviderAsk}
    {answer : Action.Answer ProviderAsk.Reply action} (hsilent : Silent h)
    (hinv : OfLedger B h.now ∧ Orderly B request h.turns)
    (hreads : ∀ operation, action ≠ .call operation)
    (hnot : ∀ invocation, action ≠ .ask (.invoke invocation))
    (occurs : Interleaved B action h answer h') :
    Silent h' ∧ OfLedger B h'.now ∧ Orderly B request h'.turns := by
  obtain ⟨hledger, turn, hturns, haction, hsame⟩ := occurs.reads hinv.1 hreads
  have hnone (invocation : InvocationContext) : ¬ Asks turn invocation :=
    fun hasks ↦ hnot invocation (haction.symm.trans hasks)
  refine ⟨hsilent.snoc hturns hsame hnone, hledger, ?_⟩
  rw [hturns]
  exact hinv.2.snoc (fun invocation hasks ↦ absurd hasks (hnone invocation))
    (Or.inl ⟨hsame, hnone⟩)

/-- The swap of the request writes nothing, or commits the request. -/
theorem Silent.submits {identity : SigningIdentity} {payload : Json} {event : SignedEventV1}
    {answer : Except StoreError AdmissionStatus} (hsilent : Silent h)
    (hinv : OfLedger B h.now ∧ Orderly B request h.turns)
    (hcreated : identity.createEvent B request.context [request.expectedHead] "agent.request"
      payload = .ok event)
    (occurs : Interleaved B (.call (.admitEvent event (.compareAndSwap request.context
      request.branch (.head request.expectedHead) event.eventId))) h answer h') :
    (OfLedger B h'.now ∧ Orderly B request h'.turns) ∧
      (∀ turn ∈ h'.turns, ∀ invocation, ¬ Asks turn invocation) ∧
      ∀ status, answer = .ok status → ∃ e : StoredEvent B, Requested request e h' ∧
        e.id = event.eventId := by
  obtain ⟨hledger, turn, hturns, hnot, hcases⟩ := occurs.swap hinv.1
  have hnone : ∀ other ∈ h'.turns, ∀ invocation, ¬ Asks other invocation := by
    intro other hother
    rw [hturns] at hother
    rcases List.mem_append.mp hother with hold | hnew
    · exact (hsilent other hold).2
    · exact List.mem_singleton.mp hnew ▸ hnot
  rcases hcases with ⟨hsame, hfailed⟩ | ⟨e, hrender, hcontext, hcommits, htouches, -⟩
  · refine ⟨⟨hledger, ?_⟩, hnone, fun status hok ↦ absurd hok (hfailed status)⟩
    rw [hturns]
    exact hinv.2.snoc (fun invocation hasks ↦ absurd hasks (hnot invocation))
      (Or.inl ⟨hsame, hnot⟩)
  · obtain ⟨hid, -, -, hkind, hparents⟩ := StoredEvent.columns hrender
    have hbody := createEvent_eq_ok hcreated
    have hrequested : Requested request e h' := by
      refine ⟨⟨hcontext, ?_, ?_⟩, ⟨turn, ?_, hcommits⟩, fun other hother ↦ ?_⟩
      · rw [← hkind, hbody]
      · rw [← hparents, hbody]
      · rw [hturns]
        exact List.mem_append_right _ (List.mem_singleton_self _)
      · rw [hturns] at hother
        rcases List.mem_append.mp hother with hold | hnew
        · exact .of_eq (hsilent other hold).1 e.id
        · exact List.mem_singleton.mp hnew ▸ htouches
    refine ⟨⟨hledger, ?_⟩, hnone, fun _ _ ↦ ⟨e, hrequested, hid.symm⟩⟩
    rw [hturns]
    exact hinv.2.snoc (fun invocation hasks ↦ absurd hasks (hnot invocation))
      (Or.inr ⟨e, hrequested.isRequest, turn,
        List.mem_append_right _ (List.mem_singleton_self _), hcommits⟩)

/-- The provider is asked after the commit of the request. -/
theorem Requested.asks {answer : ProviderOutcome} {invocation : InvocationContext}
    (hrequested : Requested request e h) (hinv : OfLedger B h.now ∧ Orderly B request h.turns)
    (hnone : ∀ turn ∈ h.turns, ∀ invocation, ¬ Asks turn invocation)
    (hid : e.id = invocation.requestEventId)
    (occurs : Interleaved B (.ask (.invoke invocation)) h answer h') :
    (OfLedger B h'.now ∧ Orderly B request h'.turns) ∧ Requested request e h' := by
  obtain ⟨hledger, turn, hturns, haction, hsame⟩ :=
    occurs.reads hinv.1 fun operation hcall ↦ by cases hcall
  refine ⟨⟨hledger, ?_⟩, hrequested.snoc hturns (.of_eq hsame e.id)⟩
  obtain ⟨commit, hcommit, hcommits⟩ := hrequested.commit
  rw [hturns]
  refine hinv.2.snoc (fun other hother ↦ ⟨⟨e, hrequested.isRequest, ?_, commit, hcommit,
    hcommits⟩, hnone⟩) (Or.inr ⟨e, hrequested.isRequest, commit, List.mem_append_left _ hcommit,
      hcommits⟩)
  rw [Asks, haction] at hother
  cases hother
  exact hid

/-- The swap of the result. -/
theorem Requested.answers {identity : SigningIdentity} {kind : OutcomeKind} {payload : Json}
    {event : SignedEventV1} {parent : EventId} {answer : Except StoreError AdmissionStatus}
    (hrequested : Requested request e h) (hinv : OfLedger B h.now ∧ Orderly B request h.turns)
    (hparent : e.id = parent)
    (hcreated : identity.createEvent B request.context [parent] kind.eventKind payload = .ok event)
    (occurs : Interleaved B (.call (.admitEvent event (.compareAndSwap request.context
      request.branch (.head parent) event.eventId))) h answer h') :
    (OfLedger B h'.now ∧ Orderly B request h'.turns) ∧
      (∀ status, answer = .ok status → ∃ result : StoredEvent B, IsResult request e result ∧
        result.id = event.eventId ∧ (∃ turn ∈ h'.turns,
          Commits turn request.context request.branch request.expectedHead e) ∧
        ∃ turn ∈ h'.turns, Commits turn request.context request.branch e.id result) ∧
      ∀ current, answer = .error (.staleHead current) → Requested request e h' := by
  subst hparent
  obtain ⟨hledger, turn, hturns, hnot, hcases⟩ := occurs.swap hinv.1
  have horderly := hrequested.orderly hinv.2 hturns hnot
  refine ⟨⟨hledger, horderly⟩, fun status hok ↦ ?_, fun current hstale ↦ ?_⟩
  · rcases hcases with ⟨-, hfailed⟩ | ⟨result, hrender, hcontext, hcommits, -, -⟩
    · exact absurd hok (hfailed status)
    · obtain ⟨hid, -, -, hkind, hparents⟩ := StoredEvent.columns hrender
      have hbody := createEvent_eq_ok hcreated
      obtain ⟨commit, hcommit, hfirst⟩ := hrequested.commit
      rw [hturns]
      refine ⟨result, ⟨hcontext, ?_, ?_⟩, hid.symm, ⟨commit, List.mem_append_left _ hcommit,
        hfirst⟩, turn, List.mem_append_right _ (List.mem_singleton_self _), hcommits⟩
      · rw [← hkind, hbody]
        cases kind with
        | response => exact Or.inl rfl
        | recordedError => exact Or.inr rfl
      · rw [← hparents, hbody]
  · rcases hcases with ⟨hsame, -⟩ | ⟨result, -, -, -, -, hfresh⟩
    · exact hrequested.snoc hturns (.of_eq hsame e.id)
    · exact absurd hstale (hfresh current)

/-- The admission of a detached result. -/
theorem Requested.detached {identity : SigningIdentity} {kind : OutcomeKind} {payload : Json}
    {event : SignedEventV1} {parent : EventId} {answer : Except StoreError AdmissionStatus}
    (hrequested : Requested request e h) (current : Option EventId)
    (hinv : OfLedger B h.now ∧ Orderly B request h.turns) (hparent : e.id = parent)
    (hcreated : identity.createEvent B request.context [parent] kind.eventKind payload = .ok event)
    (occurs : Interleaved B (.call (.admitEvent event .none)) h answer h') :
    (OfLedger B h'.now ∧ Orderly B request h'.turns) ∧
      ∀ status, answer = .ok status →
        Outcome B request h' (.error (.postExecutionConflict event.eventId current)) := by
  subst hparent
  obtain ⟨hledger, turn, hturns, hnot, hlocal, hremote, hstored⟩ := occurs.plain hinv.1
  have htouches : Touches turn e.id := by
    unfold Touches
    rw [hlocal]
    exact ⟨hremote, fun row hrow ↦ Or.inl hrow⟩
  have hrequested' := hrequested.snoc hturns htouches
  refine ⟨⟨hledger, hrequested.orderly hinv.2 hturns hnot⟩, fun status hok ↦ ?_⟩
  obtain ⟨result, hrender, hmem⟩ := hstored status hok
  obtain ⟨hid, hcontext, -, hkind, hparents⟩ := StoredEvent.columns hrender
  have hbody := createEvent_eq_ok hcreated
  have hchild : result.parents = [e.id] := by rw [← hparents, hbody]
  refine ⟨e, result, hrequested.isRequest, ⟨?_, ?_, hchild⟩, hid.symm, hmem, hrequested'.commit,
    fun other hother ↦ ⟨(hrequested'.touches other hother).1, fun row hrow hresult ↦ ?_⟩⟩
  · rw [← hcontext, hbody]
  · rw [← hkind, hbody]
    cases kind with
    | response => exact Or.inl rfl
    | recordedError => exact Or.inr rfl
  · -- A ref at the result is none that the call moved: it moved refs to the request only.
    rcases (hrequested'.touches other hother).2 row hrow with hold | hmoved
    · exact hold
    · obtain ⟨L, hwell, htables⟩ := hledger
      rw [htables, mem_tables_events] at hmem
      have hsame : e.id = result.id := by
        rw [← hid]
        exact eventId_bytes_inj.mp (cell_injective (hmoved.symm.trans hresult))
      refine absurd (TransGen.single ⟨result, hmem, rfl, ?_⟩) (hwell.acyclic result.id)
      rw [hchild, hsame]
      exact List.mem_singleton_self _

end Recording

/-- A recording among other writers keeps its history orderly and ends in an outcome. -/
theorem recordInvocation_keeps (identity : SigningIdentity) (request : InvocationRequest)
    {h : RecordingHistory} (hledger : OfLedger B h.now) (hstart : h.turns = []) :
    Keeps (Interleaved B) (fun h ↦ OfLedger B h.now ∧ Orderly B request h.turns)
      (recordInvocation B identity request).run (fun result h ↦ Outcome B request h result) h := by
  have hinv : OfLedger B h.now ∧ Orderly B request h.turns := ⟨hledger, hstart ▸ .nil⟩
  have hsilent : Silent h := by
    intro turn hturn
    rw [hstart] at hturn
    exact absurd hturn List.not_mem_nil
  have hstore {α : Type} {answer : Except StoreError α} {error : ProviderError}
      (herror : answer.mapError ProviderError.store = .error error) :
      ∀ result current, error ≠ .postExecutionConflict result current := by
    obtain ⟨-, -, rfl⟩ := mapError_eq_error herror
    exact fun _ _ hsame ↦ nomatch hsame
  refine .ofExcept hinv (fun error herror ↦ .error ?_) fun _ _ ↦ .ofExcept hinv
    (fun error herror ↦ .error ?_) fun _ _ ↦ .attempt hinv (fun answer h₁ error occurs herror ↦ ?_)
      fun answer h₁ projection occurs _ ↦ ?_
  · obtain ⟨-, -, rfl⟩ := mapError_eq_error herror
    exact fun _ _ hsame ↦ nomatch hsame
  · obtain rfl := ensure_eq_error herror
    exact fun _ _ hsame ↦ nomatch hsame
  · exact ⟨(hsilent.reads hinv (by simp) (by simp) occurs).2, .error (hstore herror)⟩
  obtain ⟨hsilent, hinv⟩ := hsilent.reads hinv (by simp) (by simp) occurs
  refine .attempt hinv (fun bytes h₂ error occurs herror ↦ ?_) fun bytes h₂ invocationId occurs _ ↦
    ?_
  · refine ⟨(hsilent.reads hinv (by simp) (by simp) occurs).2, .error ?_⟩
    cases bytes with
    | none =>
      obtain rfl := Except.error.inj herror
      exact fun _ _ hsame ↦ nomatch hsame
    | some bytes => cases herror
  obtain ⟨hsilent, hinv⟩ := hsilent.reads hinv (by simp) (by simp) occurs
  refine .ofExcept hinv (fun error herror ↦ .error ?_) fun requestEvent hrequest ↦
    .attempt hinv (fun answer h₃ error occurs herror ↦ ?_) fun answer h₃ status occurs hok ↦ ?_
  · obtain ⟨-, -, rfl⟩ := mapError_eq_error herror
    exact fun _ _ hsame ↦ nomatch hsame
  · exact ⟨(hsilent.submits hinv (mapError_eq_ok.mp hrequest) occurs).1, .error (hstore herror)⟩
  obtain ⟨hinv, hnone, hcommitted⟩ := hsilent.submits hinv (mapError_eq_ok.mp hrequest) occurs
  obtain ⟨e, hrequested, hid⟩ := hcommitted status (mapError_eq_ok.mp hok)
  refine .observe hinv fun outcome h₄ occurs ↦ ?_
  obtain ⟨hinv, hrequested⟩ := hrequested.asks hinv hnone hid occurs
  refine .ofExcept hinv (fun error herror ↦ .error ?_) fun ⟨kind, payload⟩ _ ↦ .ofExcept hinv
    (fun error herror ↦ .error ?_) fun resultEvent hresult ↦ .observe hinv fun committed h₅ occurs
      ↦ ?_
  · cases outcome with
    | response response =>
      rcases hwire : (canonicalize B response).mapError fun _ ↦ ProviderError.providerMalformed with
        failed | wire
      · rw [resultPayload, hwire, error_bind, Except.error.injEq] at herror
        obtain ⟨-, -, rfl⟩ := mapError_eq_error hwire
        exact herror ▸ fun _ _ hsame ↦ nomatch hsame
      · rw [resultPayload, hwire, ok_bind] at herror
        by_cases hfits : wire.length ≤ PROVIDER_RESPONSE_LIMIT
        · rw [ensure_true hfits] at herror
          cases herror
        · rw [ensure_false hfits, error_bind, Except.error.injEq] at herror
          exact herror ▸ fun _ _ hsame ↦ nomatch hsame
    | failure code detail => cases herror
  · obtain ⟨-, -, rfl⟩ := mapError_eq_error herror
    exact fun _ _ hsame ↦ nomatch hsame
  have hcreated := mapError_eq_ok.mp hresult
  obtain ⟨hinv, hanswered, hdetached⟩ := hrequested.answers hinv hid hcreated occurs
  rcases committed with error | status
  · cases error with
    | staleHead current =>
      have hrequested := hdetached current rfl
      refine .attempt hinv (fun answer h₆ error occurs herror ↦ ?_) fun answer h₆ status occurs hok
        ↦ ?_
      · exact ⟨(hrequested.detached current hinv hid hcreated occurs).1,
          .error (hstore herror)⟩
      · obtain ⟨hinv, hconflict⟩ := hrequested.detached current hinv hid hcreated occurs
        exact ⟨hinv, hconflict status (mapError_eq_ok.mp hok)⟩
    | _ => exact ⟨hinv, .error fun _ _ hsame ↦ nomatch hsame⟩
  · obtain ⟨result, hresult, hresultId, hfirst, hsecond⟩ := hanswered status rfl
    exact ⟨hinv, e, result, hrequested.isRequest, hid, hresult, hresultId, hfirst, hsecond⟩

/-- Recording an invocation, whatever other writers commit between its steps and however the
provider answers. -/
theorem recordInvocation_protocol (B : Boundary) (t : Tables) (hreachable : Reachable B t)
    (identity : SigningIdentity) (request : InvocationRequest)
    (now : Program (Action ProviderAsk) (Action.Answer ProviderAsk.Reply)
      (Except ProviderError InvocationReport)) (h : RecordingHistory)
    (hrun : Runs (Interleaved B) (recordInvocation B identity request).run ⟨[], t⟩ now h) :
    Orderly B request h.turns ∧ ∀ result, now = .done result → Outcome B request h result := by
  obtain ⟨L, hwell, rfl⟩ := exists_of_reachable hreachable
  have hkeeps := hrun.keeps (recordInvocation_keeps identity request
    (h := ⟨[], L.tables⟩) ⟨L, hwell, rfl⟩ rfl)
  refine ⟨hkeeps.invariant.2, fun result hdone ↦ ?_⟩
  rw [hdone] at hkeeps
  exact hkeeps.2

section Golden

open Reference Exchange

/-- An invocation without input, over the genesis. -/
def invocation : InvocationRequest := ⟨Golden.context, Golden.main, first.id, .null⟩

theorem projects_first : ∃ projection,
    project Exchange.B branched.tables Golden.context [first.id] .default = .ok projection :=
  project_head branched_wellFormed ⟨first, List.mem_singleton_self _, rfl, rfl⟩ (by decide : 1 ≤ 7)

theorem creates_asked : Golden.identity.createEvent Exchange.B Golden.context [first.id]
    "agent.request" (.obj [("input", .null), ("invocation_id", .str invocationId),
      ("selected_head", .str (first.id.text Exchange.B))]) = .ok asked.event :=
  World.createEvent_eq sound (by simp [world]) (validate (Or.inr (Or.inl rfl))) (by decide) rfl

theorem creates_answered : Golden.identity.createEvent Exchange.B Golden.context [asked.id]
    "agent.response" (.obj [("invocation_id", .str invocationId), ("response", .null)]) =
      .ok answered.event :=
  World.createEvent_eq sound (by simp [world]) (validate (Or.inr (Or.inr rfl))) (by decide) rfl

theorem submits_asked : ∃ status, admitEvent Exchange.B asked.event (.compareAndSwap Golden.context
    Golden.main (.head first.id) asked.id) branched.tables = .ok (requested.tables, status) :=
  admit_swapped branched_wellFormed branched_admits (by decide) first_ne_asked

theorem draws_invocationId : (required (some entropy) ProviderError.internal >>= fun bytes ↦
    Except.ok ("inv1_" ++ Exchange.B.encode64 bytes.1)) = .ok invocationId := rfl

theorem payload_answered : resultPayload Exchange.B invocationId (.response .null) =
    .ok (.response, .obj [("invocation_id", .str invocationId), ("response", .null)]) := by
  rw [resultPayload, World.canonicalize_eq, mapError_ok, ok_bind, ensure_true (by decide), ok_bind]

/-- While the provider works, another writer moves the branch back and then to the response. -/
theorem overtaken_run : ∃ h : RecordingHistory, Runs (Interleaved Exchange.B)
    (recordInvocation Exchange.B Golden.identity invocation).run ⟨[], branched.tables⟩
      (.done (.ok ⟨asked.id, invocationId, .response, answered.id⟩)) h ∧
    h.moments = [branched.tables, branched.tables, requested.tables, requested.tables,
      rewound.tables, overtaken.tables, overtaken.tables] := by
  obtain ⟨projection, hproject⟩ := projects_first
  have hrewind : ∃ status, admitEvent Exchange.B first.event (.compareAndSwap Golden.context
      Golden.main (.head asked.id) first.id) requested.tables = .ok (rewound.tables, status) :=
    admit_swapped requested_wellFormed requested_admits (by decide) first_ne_asked.symm
  have hovertake : ∃ status, admitEvent Exchange.B answered.event (.compareAndSwap Golden.context
      Golden.main (.head first.id) answered.id) rewound.tables = .ok (overtaken.tables, status) :=
    admit_swapped rewound_wellFormed rewound_admits (by decide) first_ne_answered
  have happlied : ∃ status, admitEvent Exchange.B answered.event (.compareAndSwap Golden.context
      Golden.main (.head asked.id) answered.id) overtaken.tables =
        .ok (overtaken.tables, status) := by
    have hsame : overtaken.admitted answered = overtaken := if_neg (by decide)
    refine ⟨.alreadyApplied, (admit_eq_ok overtaken_wellFormed).mpr ⟨answered,
      answered.authentic.renders, ⟨rfl, rfl⟩, overtaken_admits, overtaken, true, ?_, rfl, rfl⟩⟩
    rw [hsame]
    exact .applied (by decide)
  obtain ⟨status₁, hsubmit⟩ := submits_asked
  obtain ⟨status₂, hrewind⟩ := hrewind
  obtain ⟨status₃, hovertake⟩ := hovertake
  obtain ⟨status₄, happlied⟩ := happlied
  have hothers : Passes (Wrote Exchange.B) requested.tables [rewound.tables, overtaken.tables]
      overtaken.tables :=
    .step (.step (.refl _) (.of_body (.admitEvent _ _) hrewind))
      (.of_body (.admitEvent _ _) hovertake)
  refine ⟨?history, ?run, ?moments⟩
  case run =>
    refine .ofExcept (mapError_eq_ok.mpr (World.canonicalize_eq _)) (.ofExcept
      (ensure_true (by decide)) (.attempt (.answers ⟨rfl, Or.inl hproject.symm⟩) rfl ?_))
    refine .attempt (.replies .entropy (some entropy)) draws_invocationId
      (.ofExcept (mapError_eq_ok.mpr creates_asked) (.attempt (.commits (.refl _) hsubmit) rfl ?_))
    refine .observe (.replies (.invoke _) (.response .null)) (.ofExcept payload_answered
      (.ofExcept (mapError_eq_ok.mpr creates_answered) (.observe (.commits hothers happlied) ?_)))
    exact .refl _ _
  case moments => rfl

/-- The recording reports success although the branch never moved from the request to the
response. -/
theorem recordInvocation_overtaken : Reachable Exchange.B branched.tables ∧
    ∃ (h : RecordingHistory) (report : InvocationReport), Runs (Interleaved Exchange.B)
      (recordInvocation Exchange.B Golden.identity invocation).run ⟨[], branched.tables⟩
        (.done (.ok report)) h ∧
      ¬ [Except.ok (some report.requestEventId), Except.ok (some report.resultEventId)] <:+:
        (branched.tables :: h.moments).map fun t ↦
          localRefId t invocation.context invocation.branch := by
  obtain ⟨h, hrun, hmoments⟩ := overtaken_run
  refine ⟨branched_exchange, h, _, hrun, ?_⟩
  rw [hmoments]
  simp only [List.map_cons, List.map_nil, localRefId_tables branched_wellFormed.toWellKeyed,
    localRefId_tables requested_wellFormed.toWellKeyed,
    localRefId_tables rewound_wellFormed.toWellKeyed,
    localRefId_tables overtaken_wellFormed.toWellKeyed]
  decide

/-- The outcome of that recording. -/
theorem recordInvocation_protocol_overtaken : ∃ h : RecordingHistory,
    Orderly Exchange.B invocation h.turns ∧ Outcome Exchange.B invocation h
      (.ok ⟨asked.id, invocationId, .response, answered.id⟩) := by
  obtain ⟨h, hrun, -⟩ := overtaken_run
  obtain ⟨horderly, houtcome⟩ := recordInvocation_protocol Exchange.B branched.tables
    branched_exchange Golden.identity invocation _ h hrun
  exact ⟨h, horderly, houtcome _ rfl⟩

end Golden

end ContextMesh.Store
