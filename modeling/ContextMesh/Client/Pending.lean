import ContextMesh.Client.Detached
import ContextMesh.Delta.Ancestry

/-!
The pending invocations of a store at rest. The query judges the ancestry of the branch for every
invocation event of the context and lists the unanswered requests; it never looks at what it judged,
so `pendingInvocations_exact_iff` holds of branches that reach every unanswered request.
-/

set_option autoImplicit false
set_option relaxedAutoImplicit false

namespace ContextMesh.Store

open Checked Ordered Contract Interaction Relation Keyed Ledger

variable {B : Boundary} {α β : Type}

/-! ### Queries of a store at rest -/

variable (B) in
/-- A store that nobody writes to: every read finds what the tables hold. -/
def still (read : Read) (t : Tables) : read.Answer × Tables := (read.find B t, t)

variable (B) in
/-- What a query returns from a store that nobody writes to while it reads. -/
def Query.answer (t : Tables) (q : Query α) : Except StoreError α := (q.run.interpret (still B) t).1

theorem interpret_still (p : Program Read Read.Answer α) (t : Tables) :
    (p.interpret (still B) t).2 = t := by
  induction p with
  | done value => rfl
  | perform read next ih => exact ih _

theorem answer_bind (t : Tables) (q : Query α) (f : α → Query β) :
    Query.answer B t (q >>= f) = Query.answer B t q >>= fun value ↦ Query.answer B t (f value) := by
  have hrun : (q >>= f).run.interpret (still B) t = _ :=
    Program.interpret_bind (still B) q.run (ExceptT.bindCont f) t
  unfold Query.answer
  rw [hrun, interpret_still]
  cases (q.run.interpret (still B) t).1 with
  | ok value => rfl
  | error error => rfl

/-- A read in front of a query finds its answer. -/
theorem answer_readStep {t : Tables} {read : Read} {found : read.Found}
    (hfound : read.find B t = .ok found) (f : read.Found → Query β) :
    Query.answer B t (readStep read >>= f) = Query.answer B t (f found) := by
  have hread : Query.answer B t (readStep read) = .ok found := hfound
  rw [answer_bind, hread, ok_bind]

theorem answer_ofExcept (t : Tables) (x : Except StoreError α) :
    Query.answer B t (Fallible.ofExcept x) = x := rfl

/-! ### What is pending -/

variable (B) in
/-- A recorded result of the context has the event as its only parent. -/
def Answered (t : Tables) (context : ContextId) (id : EventId) : Prop :=
  ∃ f : StoredEvent B, f.row ∈ t.events ∧ IsRecorded context f ∧ f.parents = [id]

variable (B) in
/-- The list is the set of unanswered requests on the branch, each once. -/
structure IsPending (t : Tables) (context : ContextId) (branch : LocalRefName)
    (events : List SignedEventV1) : Prop where
  nodup : events.Nodup
  mem : ∀ event, event ∈ events ↔ ∃ e : StoredEvent B, e.row ∈ t.events ∧ e.event = event ∧
    e.kind = "agent.request" ∧ OnBranch B t context branch e.id ∧ ¬ Answered B t context e.id

variable (B) in
/-- The ancestry of the branch and the invocation events of the context stay within the bounds of
the query. -/
structure WithinQueryLimits (t : Tables) (context : ContextId) (branch : LocalRefName)
    (scan : InvocationKind) : Prop where
  ancestry : Delta.WithinWireLimits B t .default (OnBranch B t context branch)
  scanned : ∀ es : List (StoredEvent B), (es.map StoredEvent.id).Nodup →
    (∀ e ∈ es, e.row ∈ t.events ∧ IsInvocation context e ∧ (invocationOf e).1 = scan) →
      es.length ≤ MAX_INVOCATION_QUERY_RESULTS
  invocations : ∀ es : List (StoredEvent B), (es.map StoredEvent.id).Nodup →
    (∀ e ∈ es, e.row ∈ t.events ∧ IsInvocation context e) →
      es.length ≤ 2 * MAX_INVOCATION_QUERY_RESULTS

namespace Ledger

variable {L : Ledger B} {context : ContextId} {branch : LocalRefName} {head : EventId}
  {scan : InvocationKind}

/-- A scan within the bounds is judged. -/
theorem judgeInvocations_succeeds (h : L.WellKeyed)
    (hwithin : WithinQueryLimits B L.tables context branch scan) (ancestry : List EventId) :
    ∃ parsed rows, scanInvocations B L.tables context = .ok parsed ∧
      judgeInvocations scan ancestry parsed = .ok rows := by
  have hfresh {p : StoredEvent B → Bool} : ((L.events.filter p).map StoredEvent.id).Nodup :=
    h.events.sublist (List.filter_sublist.map _)
  have hall := hwithin.invocations (L.events.filter fun e ↦ IsInvocation context e) hfresh
    fun e he ↦ ⟨mem_tables_events.mpr (List.mem_filter.mp he).1,
      of_decide_eq_true (List.mem_filter.mp he).2⟩
  have hscanned := hwithin.scanned
    ((L.events.filter fun e ↦ IsInvocation context e).filter fun e ↦ (invocationOf e).1 = scan)
    (h.events.sublist ((List.filter_sublist.trans List.filter_sublist).map _)) fun e he ↦ by
      obtain ⟨he, hkind⟩ := List.mem_filter.mp he
      exact ⟨mem_tables_events.mpr (List.mem_filter.mp he).1,
        of_decide_eq_true (List.mem_filter.mp he).2, of_decide_eq_true hkind⟩
  refine ⟨_, _, scanInvocations_tables, (congrArg (· >>= _) (ensure_true ?_)).trans (ok_bind _ _)⟩
  rw [List.take_of_length_le (hall.trans (Nat.le_succ _)), List.filter_map, List.length_map,
    List.length_map, not_or]
  exact ⟨Nat.not_lt.mpr hscanned, Nat.not_lt.mpr hall⟩

/-- The rows of a query of a store at rest. -/
theorem answer_invocationRows (h : L.WellFormed) (hhead : L.localHead context branch = some head)
    (hwithin : WithinQueryLimits B L.tables context branch scan) :
    ∃ ancestry parsed rows, scanInvocations B L.tables context = .ok parsed ∧
      judgeInvocations scan ancestry parsed = .ok rows ∧
      Query.answer B L.tables (invocationRows context branch scan) = .ok rows := by
  have hheld : L.Holds context head := h.localTargets _ (h.localHead_eq_some.mp hhead)
  have hbelow : OnBranch B L.tables context branch = L.Below [head] := by
    funext id
    rw [onBranch_tables h hhead]
    exact propext (by simp [Below])
  obtain ⟨projection, hproject⟩ : ∃ projection,
      project B L.tables context [head] .default = .ok projection := by
    refine Delta.project_succeeds h rfl ⟨List.cons_ne_nil _ _, ?_⟩
      (fun id hid ↦ List.mem_singleton.mp hid ▸ hheld) (hbelow ▸ hwithin.ancestry)
    exact (by decide : 1 ≤ MAX_PROJECTION_HEADS)
  obtain ⟨parsed, rows, hscan, hjudge⟩ := judgeInvocations_succeeds h.toWellKeyed hwithin
    (projection.events.map SignedEventV1.eventId)
  refine ⟨_, parsed, rows, hscan, hjudge, ?_⟩
  have href : Query.answer B L.tables (localRef context branch) = .ok (some head) := by
    obtain ⟨e, he, hid, hcontext⟩ := hheld
    have hread : Read.find B L.tables (.localRefId context branch) = .ok (some head) :=
      (localRefId_tables h.toWellKeyed context branch).trans (congrArg Except.ok hhead)
    have hfound : Read.find B L.tables (.eventContext head) = .ok (some context) := by
      refine (authoritativeEventContext_tables h.toWellKeyed head).trans (congrArg Except.ok ?_)
      rw [h.find_eq_some.mpr ⟨he, hid⟩, Option.map_some, hcontext]
    refine (answer_readStep hread _).trans ((answer_readStep hfound _).trans ?_)
    rw [answer_bind, answer_ofExcept, ensure_true rfl, ok_bind, answer_ofExcept]
  have hprojected : Read.find B L.tables (.project context [head] .default) = .ok projection :=
    hproject
  have hscanned : Read.find B L.tables (.scanInvocations context) = .ok parsed := hscan
  rw [invocationRows, answer_bind, href, ok_bind, answer_bind, answer_ofExcept, required_some,
    ok_bind]
  refine (answer_readStep hprojected _).trans ((answer_readStep hscanned _).trans ?_)
  rw [answer_ofExcept, hjudge]

theorem invocationOf_request {e : StoredEvent B} : (invocationOf e).1 = .request ↔
    e.kind = "agent.request" := by
  unfold invocationOf
  by_cases hrequest : e.kind = "agent.request"
  · simp [hrequest]
  · simp [hrequest]

/-- The events that the results of a scan answer. -/
theorem mem_answeredBy {id : EventId} :
    id ∈ answeredBy ((L.events.filter fun e ↦ IsInvocation context e).map invocationOf) ↔
      Answered B L.tables context id := by
  unfold answeredBy Answered
  simp only [List.mem_filterMap, List.mem_filter, List.mem_map, decide_eq_true_eq,
    mem_tables_events]
  constructor
  · rintro ⟨item, ⟨⟨f, ⟨hf, hinvocation⟩, rfl⟩, hkind⟩, hparent⟩
    refine ⟨f, hf, invocationOf_result.mp ⟨hinvocation, hkind⟩, ?_⟩
    have hparents : (invocationOf f).2.body.parents = f.parents := rfl
    rw [hparents] at hparent
    split at hparent
    · next parent hsole => rw [hsole, Option.some.inj hparent]
    · cases hparent
  · rintro ⟨f, hf, hrecorded, hsole⟩
    obtain ⟨hinvocation, hkind⟩ := invocationOf_result.mpr hrecorded
    have hparents : (invocationOf f).2.body.parents = [id] := hsole
    refine ⟨invocationOf f, ⟨⟨f, ⟨hf, hinvocation⟩, rfl⟩, hkind⟩, ?_⟩
    rw [hparents]

/-- The unanswered requests of a scan within the bounds, on every branch and on none. -/
theorem judgeInvocations_requests (h : L.WellKeyed) {ancestry : List EventId}
    {parsed : List (InvocationKind × SignedEventV1)} {rows : List InvocationRow}
    (hscan : scanInvocations B L.tables context = .ok parsed)
    (hjudge : judgeInvocations scan ancestry parsed = .ok rows) :
    ((rows.filter fun row ↦ row.kind = .request ∧ ¬ row.linked).map InvocationRow.event).Nodup ∧
    ∀ event, event ∈ (rows.filter fun row ↦ row.kind = .request ∧ ¬ row.linked).map
      InvocationRow.event ↔ ∃ e ∈ L.events, e.event = event ∧ e.context = context ∧
        e.kind = "agent.request" ∧ ¬ Answered B L.tables context e.id := by
  obtain ⟨rfl, rfl⟩ := judgeInvocations_eq_ok hscan hjudge
  constructor
  · rw [List.filter_map, List.map_map]
    refine List.Nodup.map_on (fun e _ f _ hsame ↦ StoredEvent.ext_event hsame) ?_
    exact List.Nodup.of_map _ (h.events.sublist
      ((List.filter_sublist.trans List.filter_sublist).map _))
  · intro event
    simp only [List.mem_map, List.mem_filter, decide_eq_true_eq]
    constructor
    · rintro ⟨row, ⟨⟨e, ⟨he, hinvocation⟩, rfl⟩, hkind, hnot⟩, rfl⟩
      refine ⟨e, he, rfl, hinvocation.1, invocationOf_request.mp hkind, fun hanswered ↦ hnot ?_⟩
      exact decide_eq_true (mem_answeredBy.mpr hanswered)
    · rintro ⟨e, he, rfl, hcontext, hkind, hnot⟩
      refine ⟨_, ⟨⟨e, ⟨he, hcontext, Or.inl hkind⟩, rfl⟩, invocationOf_request.mpr hkind,
        fun hlinked ↦ hnot ?_⟩, rfl⟩
      exact mem_answeredBy.mp (of_decide_eq_true hlinked)

end Ledger

/-- The pending invocations of a branch. Within its limits the query answers; its list is the set
of unanswered requests on the branch exactly when every unanswered request of the context is on the
branch. -/
theorem pendingInvocations_exact_iff (B : Boundary) (t : Tables) (hreachable : Reachable B t)
    (context : ContextId) (branch : LocalRefName) (head : EventId)
    (hhead : localRefId t context branch = .ok (some head))
    (hwithin : WithinQueryLimits B t context branch .request) :
    ∃ events, Query.answer B t (pendingInvocations context branch) = .ok events ∧
      (IsPending B t context branch events ↔
        ∀ e : StoredEvent B, e.row ∈ t.events → e.context = context → e.kind = "agent.request" →
          ¬ Answered B t context e.id → OnBranch B t context branch e.id) := by
  obtain ⟨L, h, rfl⟩ := exists_of_reachable hreachable
  rw [localRefId_tables h.toWellKeyed, Except.ok.injEq] at hhead
  obtain ⟨ancestry, parsed, rows, hscan, hjudge, hrows⟩ := answer_invocationRows h hhead hwithin
  obtain ⟨hnodup, hmem⟩ := judgeInvocations_requests h.toWellKeyed hscan hjudge
  refine ⟨_, by rw [pendingInvocations, answer_bind, hrows, ok_bind, answer_ofExcept], ?_⟩
  constructor
  · intro hpending e he hcontext hkind hopen
    obtain ⟨f, -, hevent, -, hbranch, -⟩ := (hpending.mem e.event).mp ((hmem e.event).mpr
      ⟨e, mem_tables_events.mp he, rfl, hcontext, hkind, hopen⟩)
    exact StoredEvent.ext_event hevent ▸ hbranch
  · intro hreached
    refine ⟨hnodup, fun event ↦ ?_⟩
    rw [hmem]
    constructor
    · rintro ⟨e, he, hevent, hcontext, hkind, hopen⟩
      have hrow := mem_tables_events.mpr he
      exact ⟨e, hrow, hevent, hkind, hreached e hrow hcontext hkind hopen, hopen⟩
    · rintro ⟨e, hrow, hevent, hkind, hbranch, hopen⟩
      have he := mem_tables_events.mp hrow
      obtain ⟨f, hf, hid, hcontext⟩ := h.holds_ancestor
        (h.localTargets _ (h.localHead_eq_some.mp hhead)) ((onBranch_tables h hhead).mp hbranch)
      exact ⟨e, he, hevent, h.event_eq_of_id hf he hid ▸ hcontext, hkind, hopen⟩

section Golden

open Reference Golden

/-- A store of few events is within the limits of every query. -/
theorem withinQueryLimits_of_few {L : Ledger B} (hfew : L.events.length ≤ 7) (context : ContextId)
    (branch : LocalRefName) (scan : InvocationKind) :
    WithinQueryLimits B L.tables context branch scan := by
  have hlength (es : List (StoredEvent B)) (hnodup : (es.map StoredEvent.id).Nodup)
      (hes : ∀ e ∈ es, e.row ∈ L.tables.events) : es.length ≤ 7 :=
    (List.subperm_of_subset (List.Nodup.of_map _ hnodup) fun e he ↦
      mem_tables_events.mp (hes e he)).length_le.trans hfew
  refine ⟨Delta.withinWireLimits_of_few hfew _, fun es hnodup hes ↦ ?_, fun es hnodup hes ↦ ?_⟩
  · exact (hlength es hnodup fun e he ↦ (hes e he).1).trans (by decide)
  · exact (hlength es hnodup fun e he ↦ (hes e he).1).trans (by decide)

theorem grown_reachable : Reachable Golden.B grown.tables := by
  obtain ⟨status, hadmit⟩ :=
    Ledger.admit_none branched_wellFormed (second_admits branched rfl rfl rfl)
  exact branched_reachable.perform (.admitEvent second.event .none) hadmit

/-- The request is the head of the branch and pending there. -/
theorem pendingInvocations_advanced : ∃ events,
    Query.answer Golden.B advanced.tables (pendingInvocations Golden.context Golden.main) =
      .ok events ∧ IsPending Golden.B advanced.tables Golden.context Golden.main events := by
  have hhead : advanced.localHead Golden.context Golden.main = some second.id := by decide
  have hfew : advanced.events.length ≤ 7 := by decide
  obtain ⟨events, hok, hiff⟩ := pendingInvocations_exact_iff Golden.B advanced.tables
    advanced_reachable Golden.context Golden.main second.id
    (hhead ▸ localRefId_tables advanced_wellFormed.toWellKeyed _ _)
    (withinQueryLimits_of_few hfew _ _ _)
  refine ⟨events, hok, hiff.mpr fun e he _ hkind _ ↦ ?_⟩
  rw [onBranch_tables advanced_wellFormed hhead]
  have he : e ∈ [first, second] := mem_tables_events.mp he
  rcases List.mem_cons.mp he with rfl | he
  · exact absurd hkind (by decide)
  · rw [List.mem_singleton.mp he]
    exact .refl

/-- The request was admitted beside the branch, and the branch lists it as pending. -/
theorem pendingInvocations_foreign : Reachable Golden.B grown.tables ∧ ∃ events,
    Query.answer Golden.B grown.tables (pendingInvocations Golden.context Golden.main) =
      .ok events ∧ ¬ IsPending Golden.B grown.tables Golden.context Golden.main events := by
  have hhead : grown.localHead Golden.context Golden.main = some first.id := by decide
  have hfew : grown.events.length ≤ 7 := by decide
  obtain ⟨ancestry, parsed, rows, hscan, hjudge, hrows⟩ := answer_invocationRows
    grown_wellFormed hhead (withinQueryLimits_of_few hfew _ _ .request)
  obtain ⟨-, hmem⟩ := judgeInvocations_requests grown_wellFormed.toWellKeyed hscan hjudge
  refine ⟨grown_reachable, _, by
    rw [pendingInvocations, answer_bind, hrows, ok_bind, answer_ofExcept], fun hpending ↦ ?_⟩
  have hstored : second ∈ grown.events := List.mem_append_right _ (List.mem_singleton_self _)
  have hevents : ∀ f ∈ grown.events, f.kind ≠ "agent.response" ∧ f.kind ≠ "agent.error" := by
    decide
  have hopen : ¬ Answered Golden.B grown.tables Golden.context second.id := by
    rintro ⟨f, hf, ⟨-, hkind⟩, -⟩
    have hnot := hevents f (mem_tables_events.mp hf)
    exact hkind.elim hnot.1 hnot.2
  obtain ⟨e, -, hevent, -, hbranch, -⟩ := (hpending.mem second.event).mp
    ((hmem second.event).mpr ⟨second, hstored, rfl, rfl, rfl, hopen⟩)
  obtain rfl := StoredEvent.ext_event hevent
  rw [onBranch_tables grown_wellFormed hhead] at hbranch
  -- the genesis has no parent
  rcases hbranch.cases_head with heq | ⟨parent, ⟨f, hf, hid, hparent⟩, -⟩
  · exact first_ne_second heq
  · obtain rfl := grown_wellFormed.event_eq_of_id hf
      (List.mem_append_left _ (List.mem_singleton_self first)) hid
    exact absurd hparent List.not_mem_nil

end Golden

end ContextMesh.Store
