import ContextMesh.Client.Queries
import ContextMesh.Client.Branches
import ContextMesh.Ledger.Projection
import ContextMesh.Reference.Exchange

/-!
The detached results among other writers. The query reads the head of the branch, its ancestry and
the events in snapshots of their own; its list is what one moment shows as long as no result comes
below the head of the branch while new results are stored.
-/

set_option autoImplicit false
set_option relaxedAutoImplicit false

namespace ContextMesh.Store

open Checked Contract Interaction Relation Keyed Ledger

variable {B : Boundary}

/-! ### What a moment shows -/

/-- A recorded result of the context. -/
def IsRecorded (context : ContextId) (e : StoredEvent B) : Prop :=
  e.context = context ∧ (e.kind = "agent.response" ∨ e.kind = "agent.error")

variable (B) in
/-- The event is reachable from the head of the branch. -/
def OnBranch (t : Tables) (context : ContextId) (branch : LocalRefName) (id : EventId) : Prop :=
  ∃ head, localRefId t context branch = .ok (some head) ∧ ReflTransGen (t.Parent B) head id

variable (B) in
/-- The list is the set of recorded results that are unreachable from the head of the branch. -/
def Shows (t : Tables) (context : ContextId) (branch : LocalRefName)
    (results : List SignedEventV1) : Prop :=
  (∃ head, localRefId t context branch = .ok (some head)) ∧
    ∀ event, event ∈ results ↔ ∃ e : StoredEvent B, e.row ∈ t.events ∧ e.event = event ∧
      IsRecorded context e ∧ ¬ OnBranch B t context branch e.id

namespace Ledger

variable {L M N : Ledger B} {context : ContextId} {branch : LocalRefName} {head : EventId}
  {results : List SignedEventV1}

/-- Growth adds no ancestors to a held event. -/
theorem Ancestor.of_steps {kind : Change → Prop} (h : L.WellFormed) (hsteps : Steps kind L M)
    (hheld : L.Holds context head) {id : EventId} (hancestor : M.Ancestor head id) :
    L.Ancestor head id := by
  induction hancestor with
  | refl => exact .refl
  | tail _ hlast ih =>
    obtain ⟨f, hf, hid, hparent⟩ := hlast
    obtain ⟨e, he, heid, -⟩ := h.holds_ancestor hheld ih
    have hsame := (hsteps.wellFormed h).event_eq_of_id (hsteps.events_subset e he) hf
      (heid.trans hid.symm)
    exact ih.trans (.of_parent ⟨e, he, heid, hsame ▸ hparent⟩)

theorem onBranch_tables (h : L.WellFormed) (hhead : L.localHead context branch = some head)
    {id : EventId} : OnBranch B L.tables context branch id ↔ L.Ancestor head id := by
  unfold OnBranch
  rw [localRefId_tables h.toWellKeyed, parent_tables, hhead]
  constructor
  · rintro ⟨other, hother, hpath⟩
    rw [Except.ok.injEq, Option.some.injEq] at hother
    exact hother ▸ hpath
  · exact fun hpath ↦ ⟨head, rfl, hpath⟩

theorem shows_tables (h : L.WellFormed) (hhead : L.localHead context branch = some head) :
    Shows B L.tables context branch results ↔ ∀ event, event ∈ results ↔
      ∃ e ∈ L.events, e.event = event ∧ IsRecorded context e ∧ ¬ L.Ancestor head e.id := by
  unfold Shows
  simp only [mem_tables_events, onBranch_tables h hhead]
  rw [and_iff_right ⟨head, by rw [localRefId_tables h.toWellKeyed, hhead]⟩]

/-- What a query returns that read the head in `L` and the events in `M`. -/
def Mixes (L M : Ledger B) (context : ContextId) (head : EventId)
    (results : List SignedEventV1) : Prop :=
  ∀ event, event ∈ results ↔
    ∃ e ∈ M.events, e.event = event ∧ IsRecorded context e ∧ ¬ L.Ancestor head e.id

section Mixes

variable (h : L.WellFormed) (hhead : L.localHead context branch = some head)
  (hresults : Mixes L M context head results)

include h hhead hresults

/-- A ledger on the way from the read of the head to the scan shows the results exactly when it
holds every recorded result of the scan and has none below its head that is not below the head that
was read. -/
theorem shows_iff_of_steps (hfront : Steps Change.KeepsHistory L N)
    (hback : Steps Change.KeepsHistory N M) :
    Shows B N.tables context branch results ↔
      (∀ e ∈ M.events, IsRecorded context e → e ∈ N.events) ∧
        ∀ e ∈ N.events, IsRecorded context e → OnBranch B N.tables context branch e.id →
          L.Ancestor head e.id := by
  obtain ⟨later, hlater, hdescends⟩ := hfront.localHead h hhead
  have hwell := hfront.wellFormed h
  have hheld : L.Holds context head := h.localTargets _ (h.localHead_eq_some.mp hhead)
  have hmono {id : EventId} (hid : L.Ancestor head id) : N.Ancestor later id :=
    hdescends.trans (hid.mono hfront.events_subset)
  rw [shows_tables hwell hlater]
  simp only [onBranch_tables hwell hlater]
  constructor
  · intro hshows
    refine ⟨fun e he hrecorded ↦ ?_, fun e he hrecorded hbelow ↦ ?_⟩
    · by_cases hid : L.Ancestor head e.id
      · obtain ⟨f, hf, hfid, -⟩ := h.holds_ancestor hheld hid
        have hsame := (hback.wellFormed hwell).event_eq_of_id
          (hback.events_subset f (hfront.events_subset f hf)) he hfid
        exact hsame ▸ hfront.events_subset f hf
      · obtain ⟨f, hf, hevent, -⟩ := (hshows e.event).mp ((hresults e.event).mpr
          ⟨e, he, rfl, hrecorded, hid⟩)
        exact StoredEvent.ext_event hevent ▸ hf
    · by_contra hid
      obtain ⟨f, hf, hevent, -, hnot⟩ := (hshows e.event).mp ((hresults e.event).mpr
        ⟨e, hback.events_subset e he, rfl, hrecorded, hid⟩)
      exact hnot (StoredEvent.ext_event hevent ▸ hbelow)
  · rintro ⟨hcomplete, hclean⟩ event
    rw [hresults event]
    constructor
    · rintro ⟨e, he, hevent, hrecorded, hid⟩
      have hmem := hcomplete e he hrecorded
      exact ⟨e, hmem, hevent, hrecorded, fun hbelow ↦ hid (hclean e hmem hrecorded hbelow)⟩
    · rintro ⟨e, he, hevent, hrecorded, hnot⟩
      exact ⟨e, hback.events_subset e he, hevent, hrecorded, fun hid ↦ hnot (hmono hid)⟩

/-- What a ledger shows before the head is read, the ledger of the read shows, too. -/
theorem shows_of_before (hsteps : Steps Change.KeepsHistory L M)
    (hbefore : Steps Change.KeepsHistory N L)
    (hshows : Shows B N.tables context branch results) :
    Shows B L.tables context branch results := by
  refine (shows_iff_of_steps h hhead hresults .refl hsteps).mpr ⟨fun e he hrecorded ↦ ?_,
    fun e he hrecorded hbelow ↦ (onBranch_tables h hhead).mp hbelow⟩
  by_cases hid : L.Ancestor head e.id
  · obtain ⟨f, hf, hfid, -⟩ := h.holds_ancestor (h.localTargets _ (h.localHead_eq_some.mp hhead))
      hid
    have hsame := (hsteps.wellFormed h).event_eq_of_id (hsteps.events_subset f hf) he hfid
    exact hsame ▸ hf
  · obtain ⟨f, hf, hevent, -⟩ := (hshows.2 e.event).mp ((hresults e.event).mpr
      ⟨e, he, rfl, hrecorded, hid⟩)
    exact StoredEvent.ext_event hevent ▸ hbefore.events_subset f (mem_tables_events.mp hf)

end Mixes

/-! ### The scan -/

/-- The events that a scan selects. -/
def IsInvocation (context : ContextId) (e : StoredEvent B) : Prop :=
  e.context = context ∧
    (e.kind = "agent.request" ∨ e.kind = "agent.response" ∨ e.kind = "agent.error")

instance (context : ContextId) : DecidablePred (IsInvocation (B := B) context) := fun e ↦ by
  unfold IsInvocation
  infer_instance

def invocationOf (e : StoredEvent B) : InvocationKind × SignedEventV1 :=
  (if e.kind = "agent.request" then .request else .result, e.event)

theorem parseInvocation_row {e : StoredEvent B} (h : IsInvocation context e) :
    parseInvocation B context e.row = .ok (invocationOf e) := by
  have hkind : InvocationKind.fromKind e.kind = some (invocationOf e).1 := by
    unfold InvocationKind.fromKind invocationOf
    by_cases hrequest : e.kind = "agent.request"
    · rw [if_pos hrequest, if_pos hrequest]
    · rw [if_neg hrequest, if_neg hrequest, if_pos (h.2.resolve_left hrequest)]
  have hwire : blobValue e.row.canonicalWire = .ok e.wire := rfl
  rw [parseInvocation, hwire, ok_bind, e.authentic.parses, mapError_ok, ok_bind, hkind,
    required_some, ok_bind, ensure_true h.1, ok_bind]
  rfl

theorem scanInvocations_tables : scanInvocations B L.tables context =
    .ok (((L.events.filter fun e ↦ IsInvocation context e).take
      (2 * MAX_INVOCATION_QUERY_RESULTS + 1)).map invocationOf) := by
  have hfilter : (L.tables.events.filter fun row ↦ row.contextId = cell context.bytes ∧
      (row.kind = .text "agent.request" ∨ row.kind = .text "agent.response" ∨
        row.kind = .text "agent.error")) =
      (L.events.filter fun e ↦ IsInvocation context e).map StoredEvent.row := by
    simp only [tables, List.filter_map]
    congr 2
    funext e
    refine decide_eq_decide.mpr ?_
    simp [StoredEvent.row, IsInvocation]
  rw [scanInvocations, hfilter, ← List.map_take]
  refine mapEach_map fun e he ↦ parseInvocation_row ?_
  exact of_decide_eq_true (List.mem_filter.mp (List.mem_of_mem_take he)).2

/-- The rows of a scan within the bounds: one for each invocation event of the context. -/
theorem judgeInvocations_eq_ok {scan : InvocationKind} {ancestry : List EventId}
    {parsed : List (InvocationKind × SignedEventV1)} {rows : List InvocationRow}
    (hscan : scanInvocations B L.tables context = .ok parsed)
    (hjudge : judgeInvocations scan ancestry parsed = .ok rows) :
    parsed = (L.events.filter fun e ↦ IsInvocation context e).map invocationOf ∧
      rows = (L.events.filter fun e ↦ IsInvocation context e).map fun e ↦
        ⟨(invocationOf e).1, e.event, e.id ∈ ancestry, e.id ∈ answeredBy parsed⟩ := by
  obtain ⟨hbounds, hjudge⟩ := unit_bind_eq_ok.mp hjudge
  rw [ensure_eq_ok, not_or] at hbounds
  rw [scanInvocations_tables, Except.ok.injEq] at hscan
  rw [Except.ok.injEq] at hjudge
  have hall : (L.events.filter fun e ↦ IsInvocation context e).take
      (2 * MAX_INVOCATION_QUERY_RESULTS + 1) =
        L.events.filter fun e ↦ IsInvocation context e := by
    refine List.take_of_length_le ?_
    have hlength := hbounds.2
    rw [← hscan, List.length_map, List.length_take] at hlength
    omega
  rw [hall] at hscan
  refine ⟨hscan.symm, ?_⟩
  rw [← hjudge]
  conv_lhs => rw [← hscan]
  rw [List.map_map, hscan]
  rfl

theorem invocationOf_result {e : StoredEvent B} :
    IsInvocation context e ∧ (invocationOf e).1 = .result ↔ IsRecorded context e := by
  unfold IsInvocation IsRecorded invocationOf
  by_cases hrequest : e.kind = "agent.request"
  · simp [hrequest]
  · simp [hrequest]

/-- The unreachable results of a scan within the bounds. -/
theorem judgeInvocations_results {parsed : List (InvocationKind × SignedEventV1)}
    {ancestry : List EventId} {rows : List InvocationRow}
    (hscan : scanInvocations B L.tables context = .ok parsed)
    (hjudge : judgeInvocations .result ancestry parsed = .ok rows) (event : SignedEventV1) :
    event ∈ (rows.filter fun row ↦ row.kind = .result ∧ ¬ row.onBranch).map
      InvocationRow.event ↔ ∃ e ∈ L.events, e.event = event ∧ IsRecorded context e ∧
        e.id ∉ ancestry := by
  obtain ⟨-, rfl⟩ := judgeInvocations_eq_ok hscan hjudge
  simp only [List.mem_map, List.mem_filter, decide_eq_true_eq]
  constructor
  · rintro ⟨row, ⟨⟨e, ⟨he, hinvocation⟩, rfl⟩, hkind, hnot⟩, rfl⟩
    exact ⟨e, he, rfl, invocationOf_result.mp ⟨hinvocation, hkind⟩,
      fun hid ↦ hnot (decide_eq_true hid)⟩
  · rintro ⟨e, he, rfl, hrecorded, hnot⟩
    obtain ⟨hinvocation, hkind⟩ := invocationOf_result.mpr hrecorded
    exact ⟨_, ⟨⟨e, ⟨he, hinvocation⟩, rfl⟩, hkind, fun hid ↦ hnot (of_decide_eq_true hid)⟩, rfl⟩

end Ledger

/-! ### Histories of a query -/

abbrev QueryHistory := History Read Read.Answer Tables

variable (B) in
/-- One transaction of another client that keeps the history of branches. -/
def Grew (t t' : Tables) : Prop :=
  ∃ (operation : Operation) (fault : Option Fault), operation.KeepsHistory ∧
    (operation.execute B fault t).1 = t'

/-- Every state is that of a ledger on the way from the first one to the second. -/
def Between (L M : Ledger B) (ts : List Tables) : Prop :=
  ∀ t ∈ ts, ∃ N : Ledger B, t = N.tables ∧ Steps Change.KeepsHistory L N ∧
    Steps Change.KeepsHistory N M

section Histories

variable {L M N : Ledger B} {t : Tables} {ts : List Tables}

theorem Grew.steps (h : L.WellFormed) (hgrew : Grew B L.tables t) :
    ∃ L' : Ledger B, t = L'.tables ∧ Steps Change.KeepsHistory L L' := by
  obtain ⟨operation, fault, hkeeps, hexecute⟩ := hgrew
  rcases transact_cases fault (operation.body B) L.tables with ⟨hsame, -⟩ | ⟨result, hbody, -⟩
  · exact ⟨L, hexecute.symm.trans hsame, .refl⟩
  · obtain ⟨L', htables, hsteps, -⟩ := operation_branches h hkeeps hbody
    exact ⟨L', hexecute.symm.trans htables, hsteps⟩

theorem Between.nil : Between L M [] := fun _ ht ↦ absurd ht List.not_mem_nil

/-- More growth at the end. -/
theorem Between.extend (h : Between L M ts) (hsteps : Steps Change.KeepsHistory M N) :
    Between L N ts := fun t ht ↦ by
  obtain ⟨P, htables, hfront, hback⟩ := h t ht
  exact ⟨P, htables, hfront, hback.trans hsteps⟩

/-- More growth in front. -/
theorem Between.prepend (h : Between M N ts) (hsteps : Steps Change.KeepsHistory L M) :
    Between L N ts := fun t ht ↦ by
  obtain ⟨P, htables, hfront, hback⟩ := h t ht
  exact ⟨P, htables, hsteps.trans hfront, hback⟩

theorem Between.append {us : List Tables} (h : Between L M ts) (h' : Between L M us) :
    Between L M (ts ++ us) := fun t ht ↦ (List.mem_append.mp ht).elim (h t) (h' t)

theorem Between.single (hsteps : Steps Change.KeepsHistory L M) : Between L M [M.tables] :=
  fun _ ht ↦ ⟨M, List.mem_singleton.mp ht, hsteps, .refl⟩

/-- What other clients pass through. -/
theorem between_of_passes (h : L.WellFormed) (hpasses : Passes (Grew B) L.tables ts t) :
    ∃ M : Ledger B, t = M.tables ∧ Steps Change.KeepsHistory L M ∧ Between L M ts := by
  induction hpasses with
  | refl => exact ⟨L, rfl, .refl, .nil⟩
  | step _ moved ih =>
    obtain ⟨M, rfl, hsteps, hbetween⟩ := ih
    obtain ⟨M', rfl, hmore⟩ := moved.steps (hsteps.wellFormed h)
    have hall := hsteps.trans hmore
    exact ⟨M', rfl, hall, (hbetween.extend hmore).append (.single hall)⟩

/-- A query that read the head in `L` and has got to `M`. -/
structure Since (start L M : Ledger B) (h : QueryHistory) : Prop where
  well : L.WellFormed
  before : Steps Change.KeepsHistory start L
  after : Steps Change.KeepsHistory L M
  now : h.now = M.tables
  turns : ∃ first rest, h.turns = first :: rest ∧ first.after = L.tables ∧
    Between start L first.moments ∧ Between L M (rest.flatMap Turn.moments)

variable {start : Ledger B} {h h' : QueryHistory} {read : Read} {answer : read.Answer}

/-- The turn of a read finds its answer in a ledger that others have grown. -/
theorem turn_of_occurs (hwell : L.WellFormed) (hnow : h.now = L.tables)
    (occurs : History.Occurs (Read.Occurs B) (Grew B) read h answer h') :
    ∃ (M : Ledger B) (turn : Turn Read Read.Answer Tables), Steps Change.KeepsHistory L M ∧
      h'.turns = h.turns ++ [turn] ∧ h'.now = M.tables ∧ turn.after = M.tables ∧
      Between L M turn.moments ∧
      ∀ found, answer = .ok found → read.find B M.tables = .ok found := by
  obtain ⟨path, before, hpasses, ⟨hsame, hreads⟩, hturns⟩ := occurs
  rw [hnow] at hpasses
  obtain ⟨M, rfl, hsteps, hbetween⟩ := between_of_passes hwell hpasses
  refine ⟨M, _, hsteps, hturns, hsame, hsame, ?_, fun found hfound ↦ ?_⟩
  · rw [Turn.moments, hsame]
    exact hbetween.append (.single hsteps)
  · rcases hreads with hanswer | ⟨error, herror⟩
    · rw [← hanswer, hfound]
    · rw [hfound] at herror
      cases herror

/-- The read of the head. -/
theorem Since.first (hwell : start.WellFormed)
    (occurs : History.Occurs (Read.Occurs B) (Grew B) read ⟨[], start.tables⟩ answer h') :
    ∃ L : Ledger B, Since start L L h' ∧
      ∀ found, answer = .ok found → read.find B L.tables = .ok found := by
  obtain ⟨L, turn, hsteps, hturns, hnow, hafter, hbetween, hfound⟩ :=
    turn_of_occurs (h := ⟨[], start.tables⟩) hwell rfl occurs
  exact ⟨L, ⟨hsteps.wellFormed hwell, hsteps, .refl, hnow, turn, [], hturns, hafter, hbetween,
    .nil⟩, hfound⟩

/-- Another read. -/
theorem Since.next (hsince : Since start L M h)
    (occurs : History.Occurs (Read.Occurs B) (Grew B) read h answer h') :
    ∃ N : Ledger B, Since start L N h' ∧ Steps Change.KeepsHistory M N ∧
      ∀ found, answer = .ok found → read.find B N.tables = .ok found := by
  obtain ⟨N, turn, hsteps, hturns, hnow, -, hbetween, hfound⟩ :=
    turn_of_occurs (hsince.after.wellFormed hsince.well) hsince.now occurs
  obtain ⟨first, rest, hfirst, hafter, hold, hnew⟩ := hsince.turns
  refine ⟨N, ⟨hsince.well, hsince.before, hsince.after.trans hsteps, hnow, first, rest ++ [turn],
    ?_, hafter, hold, ?_⟩, hsteps, hfound⟩
  · rw [hturns, hfirst, List.cons_append]
  · rw [List.flatMap_append, List.flatMap_singleton]
    exact (hnew.extend hsteps).append (hbetween.prepend hsince.after)

end Histories

/-! ### The query -/

section Query

variable {start : Ledger B} {context : ContextId} {branch : LocalRefName}

/-- The head that a query reads. -/
theorem localRef_keeps (hwell : start.WellFormed) :
    Keeps (History.Occurs (Read.Occurs B) (Grew B)) (fun _ ↦ True) (localRef context branch).run
      (fun result h ↦ ∀ head, result = .ok (some head) →
        ∃ L M : Ledger B, Since start L M h ∧ L.localHead context branch = some head)
      ⟨[], start.tables⟩ := by
  refine .attempt trivial (fun answer h error _ _ ↦ ⟨trivial, fun _ hok ↦ nomatch hok⟩)
    fun answer h found occurs hanswer ↦ ?_
  obtain ⟨L, hsince, hread⟩ := Since.first hwell occurs
  have hhead := hread found hanswer
  change localRefId L.tables context branch = .ok found at hhead
  rw [localRefId_tables hsince.well.toWellKeyed, Except.ok.injEq] at hhead
  cases found with
  | none => exact ⟨trivial, fun _ hok ↦ nomatch hok⟩
  | some head =>
    refine .attempt trivial (fun answer h error _ _ ↦ ⟨trivial, fun _ hok ↦ nomatch hok⟩)
      fun answer h₂ found occurs _ ↦ ?_
    obtain ⟨M, hsince, -⟩ := hsince.next occurs
    refine .ofExcept trivial (fun error _ _ hok ↦ nomatch hok) fun _ _ ↦ ⟨trivial, ?_⟩
    rintro other ⟨⟩
    exact ⟨L, M, hsince, hhead⟩

/-- The rows of a query mix the ancestry of the head with the events of the scan. -/
theorem invocationRows_keeps (hwell : start.WellFormed) (scan : InvocationKind) :
    Keeps (History.Occurs (Read.Occurs B) (Grew B)) (fun _ ↦ True)
      (invocationRows context branch scan).run
      (fun result h ↦ ∀ rows, result = .ok rows → ∃ (L M : Ledger B) (head : EventId)
        (ancestry : List EventId) (parsed : List (InvocationKind × SignedEventV1)),
          Since start L M h ∧ L.localHead context branch = some head ∧
          (∀ id, id ∈ ancestry ↔ L.Ancestor head id) ∧
          scanInvocations B M.tables context = .ok parsed ∧
          judgeInvocations scan ancestry parsed = .ok rows)
      ⟨[], start.tables⟩ := by
  refine Keeps.bindT ((localRef_keeps hwell).mono fun result h _ hresult ↦ ?_)
  cases result with
  | error error => exact fun _ hok ↦ nomatch hok
  | ok found =>
    refine .ofExcept trivial (fun error _ _ hok ↦ nomatch hok) fun head hfound ↦ ?_
    obtain rfl := required_eq_ok.mp hfound
    obtain ⟨L, M, hsince, hhead⟩ := hresult head rfl
    refine .attempt trivial (fun _ _ _ _ _ ↦ ⟨trivial, fun _ hok ↦ nomatch hok⟩)
      fun answer h₂ projection occurs hanswer ↦ ?_
    obtain ⟨N, hsince, -, hread⟩ := hsince.next occurs
    have hproject := hread projection hanswer
    refine .attempt trivial (fun _ _ _ _ _ ↦ ⟨trivial, fun _ hok ↦ nomatch hok⟩)
      fun answer h₃ parsed occurs hanswer ↦ ?_
    obtain ⟨P, hsince', -, hread⟩ := hsince.next occurs
    have hheld : L.Holds context head :=
      hsince.well.localTargets _ (hsince.well.localHead_eq_some.mp hhead)
    refine ⟨trivial, fun rows hok ↦ ⟨L, P, head, _, parsed, hsince', hhead, fun id ↦ ?_,
      hread parsed hanswer, hok⟩⟩
    rw [mem_project_head (hsince.after.wellFormed hsince.well) hproject]
    exact ⟨fun hid ↦ hid.of_steps hsince.well hsince.after hheld,
      fun hid ↦ hid.mono hsince.after.events_subset⟩

theorem detachedResults_keeps (hwell : start.WellFormed) :
    Keeps (History.Occurs (Read.Occurs B) (Grew B)) (fun _ ↦ True)
      (detachedResults context branch).run
      (fun result h ↦ ∀ results, result = .ok results → ∃ (L M : Ledger B) (head : EventId),
        Since start L M h ∧ L.localHead context branch = some head ∧
          Mixes L M context head results)
      ⟨[], start.tables⟩ := by
  refine Keeps.bindT ((invocationRows_keeps hwell .result).mono fun result h _ hresult ↦ ?_)
  cases result with
  | error error => exact fun _ hok ↦ nomatch hok
  | ok rows =>
    refine ⟨trivial, ?_⟩
    rintro results ⟨⟩
    obtain ⟨L, M, head, ancestry, parsed, hsince, hhead, hancestry, hscan, hjudge⟩ :=
      hresult rows rfl
    refine ⟨L, M, head, hsince, hhead, fun event ↦ ?_⟩
    simp only [judgeInvocations_results hscan hjudge event, hancestry]

end Query

/-- The detached results among other clients. The returned list is what one moment of the call shows
exactly when, at some moment from the read of the head on, every recorded result of the scan is
stored and none is below the head of the branch that was not below the head that was read. -/
theorem detachedResults_linearizes_iff (B : Boundary) (start : Tables)
    (hreachable : Reachable B start) (context : ContextId) (branch : LocalRefName)
    (results : List SignedEventV1) (h : QueryHistory)
    (hrun : Runs (History.Occurs (Read.Occurs B) (Grew B)) (detachedResults context branch).run
      ⟨[], start⟩ (.done (.ok results)) h) :
    ∃ first rest, h.turns = first :: rest ∧
      ((∃ t ∈ start :: h.moments, Shows B t context branch results) ↔
        ∃ t ∈ first.after :: rest.flatMap Turn.moments,
          (∀ e : StoredEvent B, e.row ∈ h.now.events → IsRecorded context e →
            e.row ∈ t.events) ∧
          ∀ e : StoredEvent B, e.row ∈ t.events → IsRecorded context e →
            OnBranch B t context branch e.id → OnBranch B first.after context branch e.id) := by
  obtain ⟨K, hwell, rfl⟩ := exists_of_reachable hreachable
  obtain ⟨L, M, head, hsince, hhead, hmixes⟩ :=
    hrun.post (detachedResults_keeps hwell) results rfl
  obtain ⟨first, rest, hturns, hafter, hold, hnew⟩ := hsince.turns
  refine ⟨first, rest, hturns, ?_⟩
  have hmoments : h.moments = first.moments ++ rest.flatMap Turn.moments := by
    rw [History.moments, hturns, List.flatMap_cons]
  have hlast : first.after ∈ first.moments := List.mem_append_right _ (List.mem_singleton_self _)
  -- From the read on, what a moment shows is the condition at that moment.
  have hlater : ∀ t ∈ first.after :: rest.flatMap Turn.moments,
      (Shows B t context branch results ↔
        (∀ e : StoredEvent B, e.row ∈ h.now.events → IsRecorded context e → e.row ∈ t.events) ∧
        ∀ e : StoredEvent B, e.row ∈ t.events → IsRecorded context e →
          OnBranch B t context branch e.id → OnBranch B first.after context branch e.id) := by
    intro t ht
    obtain ⟨N, rfl, hfront, hback⟩ : ∃ N : Ledger B, t = N.tables ∧
        Steps Change.KeepsHistory L N ∧ Steps Change.KeepsHistory N M := by
      rcases List.mem_cons.mp ht with rfl | ht
      · exact ⟨L, hafter, .refl, hsince.after⟩
      · exact hnew t ht
    rw [shows_iff_of_steps hsince.well hhead hmixes hfront hback, hsince.now, hafter]
    simp only [mem_tables_events, onBranch_tables hsince.well hhead]
  constructor
  · rintro ⟨t, ht, hshows⟩
    rw [hmoments, ← List.cons_append] at ht
    rcases List.mem_append.mp ht with ht | ht
    · -- A moment before the read: the moment of the read shows the same.
      obtain ⟨N, rfl, hbefore⟩ : ∃ N : Ledger B, t = N.tables ∧
          Steps Change.KeepsHistory N L := by
        rcases List.mem_cons.mp ht with rfl | ht
        · exact ⟨K, rfl, hsince.before⟩
        · obtain ⟨N, hN, -, hback⟩ := hold t ht
          exact ⟨N, hN, hback⟩
      have hread := shows_of_before hsince.well hhead hmixes hsince.after hbefore hshows
      rw [← hafter] at hread
      exact ⟨first.after, List.mem_cons_self, (hlater _ List.mem_cons_self).mp hread⟩
    · have ht := List.mem_cons_of_mem first.after ht
      exact ⟨t, ht, (hlater t ht).mp hshows⟩
  · rintro ⟨t, ht, hcondition⟩
    refine ⟨t, ?_, (hlater t ht).mpr hcondition⟩
    rw [hmoments]
    rcases List.mem_cons.mp ht with rfl | ht
    · exact List.mem_cons_of_mem _ (List.mem_append_left _ hlast)
    · exact List.mem_cons_of_mem _ (List.mem_append_right _ ht)

section Golden

open Reference Exchange

/-- In a store of few events every scan is within the bounds. -/
theorem judgeInvocations_few {L : Ledger B} (hfew : L.events.length ≤ 7) (context : ContextId)
    (scan : InvocationKind) (ancestry : List EventId) : ∃ parsed rows,
      scanInvocations B L.tables context = .ok parsed ∧
        judgeInvocations scan ancestry parsed = .ok rows := by
  have hlength : ((L.events.filter fun e ↦ IsInvocation context e).take
      (2 * MAX_INVOCATION_QUERY_RESULTS + 1)).length ≤ 7 :=
    (List.length_take_le' _ _).trans ((List.length_filter_le _ _).trans hfew)
  have hbounds (parsed : List (InvocationKind × SignedEventV1)) (hparsed : parsed.length ≤ 7) :
      ¬ ((parsed.filter fun item ↦ item.1 = scan).length > MAX_INVOCATION_QUERY_RESULTS ∨
        parsed.length > 2 * MAX_INVOCATION_QUERY_RESULTS) := by
    have hmax : MAX_INVOCATION_QUERY_RESULTS = 1024 := rfl
    have hfilter := List.length_filter_le (fun item : InvocationKind × SignedEventV1 ↦
      item.1 = scan) parsed
    omega
  refine ⟨_, _, scanInvocations_tables, (congrArg (· >>= _) (ensure_true (hbounds _ ?_))).trans
    (ok_bind _ _)⟩
  rwa [List.length_map]

/-- A read that finds its answer, after the given transactions of others. -/
theorem occurs_read {h : QueryHistory} {path : List Tables} {before : Tables} (read : Read)
    {found : read.Found} (hpasses : Passes (Grew B) h.now path before)
    (hfound : read.find B before = .ok found) :
    History.Occurs (Read.Occurs B) (Grew B) read h (.ok found)
      ⟨h.turns ++ [⟨path, before, read, .ok found, before⟩], before⟩ :=
  ⟨path, before, hpasses, ⟨rfl, Or.inl hfound.symm⟩, rfl⟩

/-- After the head is read, another client appends the response. -/
theorem responded_run : ∃ (results : List SignedEventV1) (h : QueryHistory),
    Runs (History.Occurs (Read.Occurs Exchange.B) (Grew Exchange.B))
      (detachedResults Golden.context Golden.main).run ⟨[], requested.tables⟩
        (.done (.ok results)) h ∧
    h.moments = [requested.tables, requested.tables, responded.tables, responded.tables,
      responded.tables] ∧ answered.event ∈ results := by
  have hkeyed := requested_wellFormed.toWellKeyed
  have hhead : localRefId requested.tables Golden.context Golden.main = .ok (some asked.id) :=
    localRefId_tables hkeyed _ _
  have hcontext : authoritativeEventContext Exchange.B requested.tables asked.id =
      .ok (some Golden.context) := authoritativeEventContext_tables hkeyed _
  have happend : Grew Exchange.B requested.tables responded.tables := by
    refine ⟨.append Golden.identity Golden.context Golden.main asked.id "agent.response"
      answered.event.body.payload, none, trivial, congrArg Prod.fst (transact_ok
        (append_fresh requested_wellFormed requested_admits_answered (by decide) ?_ (by decide)
          asked_ne_answered)).1⟩
    exact World.createEvent_eq sound (by simp [world]) (validate (Or.inr (Or.inr rfl)))
      (by decide) rfl
  have hheld : responded.Holds Golden.context asked.id :=
    ⟨asked, List.mem_cons_of_mem _ List.mem_cons_self, rfl, rfl⟩
  obtain ⟨projection, hproject⟩ := project_head responded_wellFormed hheld (by decide : 3 ≤ 7)
  obtain ⟨parsed, rows, hscan, hjudge⟩ := judgeInvocations_few (L := responded)
    (by decide : 3 ≤ 7) Golden.context .result (projection.events.map SignedEventV1.eventId)
  refine ⟨(rows.filter fun row ↦ row.kind = .result ∧ ¬ row.onBranch).map InvocationRow.event,
    ?history, ?run, ?moments, ?listed⟩
  case run =>
    refine .bindT (.bindT (.attempt (occurs_read (.localRefId _ _) (.refl _) hhead) rfl
      (.attempt (occurs_read (.eventContext _) (.refl _) hcontext) rfl
        (.ofExcept (ensure_true rfl) (.refl _ _)))) (.ofExcept rfl ?_)) (.refl _ _)
    refine .attempt (occurs_read (.project _ _ _) (.step (.refl _) happend) hproject) rfl
      (.attempt (occurs_read (.scanInvocations _) (.refl _) hscan) rfl ?_)
    rw [hjudge]
    exact .refl _ _
  case moments => rfl
  case listed =>
    refine (judgeInvocations_results hscan hjudge _).mpr ⟨answered, ?_, rfl, ⟨rfl, Or.inl rfl⟩,
      fun hid ↦ ?_⟩
    · exact List.mem_append_right _ (List.mem_singleton_self _)
    · -- The request is no descendant of its response.
      rw [mem_project_head responded_wellFormed hproject] at hid
      have hparent : responded.Parent answered.id asked.id := ⟨answered,
        List.mem_append_right _ (List.mem_singleton_self _), rfl, List.mem_singleton_self _⟩
      exact responded_wellFormed.acyclic answered.id (TransGen.head' hparent hid)

/-- The query lists the response as detached, although the response was committed together with the
head that reaches it; no moment of the call shows this list. -/
theorem detachedResults_torn : Reachable Exchange.B requested.tables ∧
    ∃ (results : List SignedEventV1) (h : QueryHistory),
      Runs (History.Occurs (Read.Occurs Exchange.B) (Grew Exchange.B))
        (detachedResults Golden.context Golden.main).run ⟨[], requested.tables⟩
          (.done (.ok results)) h ∧
      ¬ ∃ t ∈ requested.tables :: h.moments,
        Shows Exchange.B t Golden.context Golden.main results := by
  obtain ⟨results, h, hrun, hmoments, hlisted⟩ := responded_run
  refine ⟨requested_exchange, results, h, hrun, ?_⟩
  rw [hmoments]
  rintro ⟨t, ht, hshows⟩
  obtain ⟨e, hrow, hevent, -, hnot⟩ := (hshows.2 answered.event).mp hlisted
  obtain rfl := StoredEvent.ext_event hevent
  have hcases : t = requested.tables ∨ t = responded.tables := by
    simp only [List.mem_cons, List.not_mem_nil, or_false] at ht
    tauto
  rcases hcases with rfl | rfl
  · -- The response is not stored yet.
    have hfresh : ∀ f ∈ requested.events, f.id ≠ answered.id := find_eq_none.mp (by decide)
    exact hfresh answered (mem_tables_events.mp hrow) rfl
  · -- The response is the head.
    have hhead : responded.localHead Golden.context Golden.main = some answered.id := by decide
    exact hnot ((onBranch_tables responded_wellFormed hhead).mpr .refl)

/-- The condition of that call. -/
theorem detachedResults_linearizes_responded : ∃ (results : List SignedEventV1)
    (h : QueryHistory), ∃ first rest, h.turns = first :: rest ∧
      ((∃ t ∈ requested.tables :: h.moments,
        Shows Exchange.B t Golden.context Golden.main results) ↔
        ∃ t ∈ first.after :: rest.flatMap Turn.moments,
          (∀ e : StoredEvent Exchange.B, e.row ∈ h.now.events → IsRecorded Golden.context e →
            e.row ∈ t.events) ∧
          ∀ e : StoredEvent Exchange.B, e.row ∈ t.events → IsRecorded Golden.context e →
            OnBranch Exchange.B t Golden.context Golden.main e.id →
              OnBranch Exchange.B first.after Golden.context Golden.main e.id) := by
  obtain ⟨results, h, hrun, -, -⟩ := responded_run
  exact ⟨results, h, detachedResults_linearizes_iff Exchange.B requested.tables
    requested_exchange Golden.context Golden.main results h hrun⟩

end Golden

end ContextMesh.Store
