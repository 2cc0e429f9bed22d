import ContextMesh.Client.Recording
import ContextMesh.Ledger.Runs

/-!
Branches under concurrent clients. Clients interleave at the granularity of transactions, and each
chooses the head it expects before the transaction that swaps it. No branch is ever removed, a
branch moves only to descendants of its head, and what was committed on a branch stays below its
head.
-/

set_option autoImplicit false
set_option relaxedAutoImplicit false

namespace ContextMesh.Store

open Checked Contract Interaction Relation Keyed Ledger

variable {B : Boundary}

/-! ### Changes that keep the history of branches -/

/-- Every change but a plain move of a branch. -/
def Change.KeepsHistory : Change → Prop
  | .move _ _ _ _ => False
  | _ => True

theorem Change.IsAppend.keepsHistory {change : Change} (h : change.IsAppend) :
    change.KeepsHistory := by
  cases change with
  | move => cases h
  | _ => trivial

theorem Change.IsRecord.keepsHistory {change : Change} (h : change.IsRecord) :
    change.KeepsHistory := by
  cases change with
  | move => cases h
  | _ => trivial

section Changes

variable {L L' : Ledger B}

/-- A change that keeps histories moves a branch only to a child of its head. -/
theorem Step.localHead {change : Change} (h : L.WellFormed) (hstep : Step L change L')
    (hkeeps : change.KeepsHistory) {context : ContextId} {name : LocalRefName} {head : EventId}
    (hhead : L.localHead context name = some head) :
    ∃ later, L'.localHead context name = some later ∧ L'.Ancestor later head := by
  cases hstep with
  | provision | authorize | record | track | forget => exact ⟨head, hhead, .refl⟩
  | move => cases hkeeps
  | @branch context' name' head' holds absent =>
    rw [h.localHead_setLocal]
    by_cases hsame : (context', name') = (context, name)
    · obtain ⟨rfl, rfl⟩ := Prod.mk.inj hsame
      rw [absent] at hhead
      cases hhead
    · rw [if_neg hsame]
      exact ⟨head, hhead, .refl⟩
  | @advance e name' previous stored current parent =>
    rw [h.localHead_setLocal]
    by_cases hsame : (e.context, name') = (context, name)
    · obtain ⟨rfl, rfl⟩ := Prod.mk.inj hsame
      rw [current, Option.some.injEq] at hhead
      rw [if_pos rfl]
      exact ⟨e.id, rfl, .of_parent ⟨e, stored, rfl, hhead ▸ parent⟩⟩
    · rw [if_neg hsame]
      exact ⟨head, hhead, .refl⟩

/-- Along changes that keep histories, the head of a branch stays among the ancestors of its later
heads. -/
theorem Steps.localHead (h : L.WellFormed) (hsteps : Steps Change.KeepsHistory L L')
    {context : ContextId} {name : LocalRefName} {head : EventId}
    (hhead : L.localHead context name = some head) :
    ∃ later, L'.localHead context name = some later ∧ L'.Ancestor later head := by
  induction hsteps with
  | refl => exact ⟨head, hhead, .refl⟩
  | tail hfront hlast ih =>
    obtain ⟨change, hkeeps, hstep⟩ := hlast
    obtain ⟨middle, hmiddle, hancestor⟩ := ih
    obtain ⟨later, hlater, hdescends⟩ := hstep.localHead (Steps.wellFormed h hfront) hkeeps hmiddle
    have hold := hancestor.mono (Steps.events_subset (.one hstep hkeeps))
    exact ⟨later, hlater, hdescends.trans hold⟩

end Changes

/-! ### Operations that keep the history of branches -/

/-- A swap whose expected head is a parent of the event, on a branch of the event's context. -/
def RefMutation.KeepsHistory (event : SignedEventV1) : RefMutation → Prop
  | none => True
  | compareAndSwap context _ (.head expected) newHead =>
    context = event.body.context ∧ newHead = event.eventId ∧ expected ∈ event.body.parents
  | compareAndSwap _ _ .absent _ => False

/-- Every operation but an admission with any other swap. -/
def Operation.KeepsHistory : Operation → Prop
  | admitEvent event mutation => mutation.KeepsHistory event
  | admitWire _ _ => False
  | _ => True

/-- An event committed as the new head of a branch. -/
structure Landing where
  context : ContextId
  branch : LocalRefName
  event : EventId

/-- Where a committed operation landed an event. -/
def Operation.landing : (operation : Operation) → operation.Result → Option Landing
  | append _ context branch _ _ _, event => some ⟨context, branch, SignedEventV1.eventId event⟩
  | merge _ context branch _ _ _, event => some ⟨context, branch, SignedEventV1.eventId event⟩
  | admitEvent event (.compareAndSwap context branch _ _), _ =>
    some ⟨context, branch, event.eventId⟩
  | _, _ => none

/-- A committed operation keeps the history of every branch, and what it landed is the head. -/
theorem operation_branches {L : Ledger B} {t : Tables} (h : L.WellFormed) {operation : Operation}
    {result : operation.Result} (hkeeps : operation.KeepsHistory)
    (hok : operation.body B L.tables = .ok (t, result)) :
    ∃ L', t = L'.tables ∧ Steps Change.KeepsHistory L L' ∧
      ∀ landing ∈ operation.landing result,
        L'.localHead landing.context landing.branch = some landing.event := by
  have hnone {kind : Change → Prop} (hsteps : ∃ L', t = L'.tables ∧ Steps kind L L')
      (hkind : ∀ change, kind change → change.KeepsHistory)
      (hlanding : operation.landing result = none) :
      ∃ L', t = L'.tables ∧ Steps Change.KeepsHistory L L' ∧
        ∀ landing ∈ operation.landing result,
          L'.localHead landing.context landing.branch = some landing.event := by
    obtain ⟨L', ht, hsteps⟩ := hsteps
    exact ⟨L', ht, hsteps.mono hkind, by simp [hlanding]⟩
  cases operation with
  | provisionContext provision =>
    exact hnone (provisionContext_steps h hok) (by rintro _ rfl; trivial) rfl
  | joinContext provision =>
    exact hnone (joinContext_steps h hok) (by rintro _ rfl; trivial) rfl
  | createContext identity branch entropy =>
    exact hnone (createContext_steps h hok) (by rintro _ (rfl | rfl | rfl) <;> trivial) rfl
  | authorizeAuthor context author =>
    exact hnone (authorizeAuthor_steps h hok) (by rintro _ rfl; trivial) rfl
  | admitEvent event mutation =>
    cases mutation with
    | none =>
      refine hnone (admit_steps h hok) ?_ rfl
      rintro change (rfl | ⟨_, _, _, _, hmutation, -⟩)
      · trivial
      · cases hmutation
    | compareAndSwap context name expected newHead =>
      cases expected with
      | absent => cases hkeeps
      | head expected =>
        obtain ⟨rfl, rfl, hparent⟩ := hkeeps
        obtain ⟨L', ht, hsteps, hhead⟩ := admit_advance h hparent hok
        refine ⟨L', ht, hsteps.mono fun _ ↦ Change.IsAppend.keepsHistory, ?_⟩
        rintro landing ⟨⟩
        exact hhead
  | admitWire wire mutation => cases hkeeps
  | append identity context branch expected kind payload =>
    obtain ⟨-, L', ht, hsteps, hhead⟩ := append_steps h hok
    refine ⟨L', ht, hsteps.mono fun _ ↦ Change.IsAppend.keepsHistory, ?_⟩
    rintro landing ⟨⟩
    exact hhead
  | createBranch context name fromHead =>
    exact hnone (createBranch_steps h hok) (by rintro _ rfl; trivial) rfl
  | merge identity context branch expected parents payload =>
    obtain ⟨-, L', ht, hsteps, hhead⟩ := merge_steps h hok
    refine ⟨L', ht, hsteps.mono fun _ ↦ Change.IsAppend.keepsHistory, ?_⟩
    rintro landing ⟨⟩
    exact hhead
  | setRemoteRef peer context name head =>
    exact hnone (setRemoteRef_steps h hok) (by rintro _ rfl; trivial) rfl
  | importBundle peer wire limits =>
    refine hnone (importBundle_steps h hok) ?_ rfl
    rintro change (hrecord | ⟨_, _, _, rfl⟩)
    · exact hrecord.keepsHistory
    · trivial
  | replaceRemoteRefSnapshot peer context refs =>
    exact hnone (replaceRemoteRefSnapshot_steps h hok)
      (by rintro _ (rfl | ⟨_, _, rfl⟩) <;> trivial) rfl

/-! ### Clients of branches -/

/-- A call of a public operation other than a raw admission. -/
def Operation.IsBranchCall : Operation → Prop
  | admitEvent _ _ | admitWire _ _ => False
  | _ => True

variable (B) in
/-- A client that calls public operations other than raw admission, records invocations, reads and
asks, in any order and with any arguments. -/
inductive BranchClient {α : Type} :
    Program (Action ProviderAsk) (Action.Answer ProviderAsk.Reply) α → Prop
  | done (value : α) : BranchClient (.done value)
  | call {operation : Operation}
      {next : Except StoreError operation.Result → Program _ _ α}
      (branch : operation.IsBranchCall) (rest : ∀ answer, BranchClient (next answer)) :
      BranchClient (.perform (.call operation) next)
  | other {action : Action ProviderAsk}
      {next : Action.Answer ProviderAsk.Reply action → Program _ _ α}
      (reads : ∀ operation, action ≠ .call operation)
      (rest : ∀ answer, BranchClient (next answer)) : BranchClient (.perform action next)
  | record {identity : SigningIdentity} {request : InvocationRequest}
      {next : Except ProviderError InvocationReport → Program _ _ α}
      (rest : ∀ report, BranchClient (next report)) :
      BranchClient ((recordInvocation B identity request).run.bind next)

/-- Steps whose calls keep the history of branches. -/
def Action.KeepsHistory : Action ProviderAsk → Prop
  | call operation => operation.KeepsHistory
  | _ => True

/-- Every swap of a recording expects the only parent of its event. -/
theorem recordInvocation_only (identity : SigningIdentity) (request : InvocationRequest) :
    (recordInvocation B identity request).run.Only Action.KeepsHistory := by
  refine .ofExcept fun inputWire _ ↦ .ofExcept fun _ _ ↦ .attempt trivial fun projection ↦
    .attempt trivial fun invocationId ↦ .ofExcept fun requestEvent hrequest ↦ ?_
  have hrequestBody := createEvent_eq_ok (mapError_eq_ok.mp hrequest)
  refine .attempt ⟨?_, rfl, ?_⟩ fun _ ↦ .observe trivial fun outcome ↦
    .ofExcept fun ⟨kind, payload⟩ _ ↦ .ofExcept fun resultEvent hresult ↦ ?_
  · rw [hrequestBody]
  · rw [hrequestBody]
    exact List.mem_singleton_self _
  have hresultBody := createEvent_eq_ok (mapError_eq_ok.mp hresult)
  refine .observe ⟨?_, rfl, ?_⟩ fun committed ↦ ?_
  · rw [hresultBody]
  · rw [hresultBody]
    exact List.mem_singleton_self _
  rcases committed with error | status
  · cases error with
    | staleHead current => exact .attempt trivial fun _ ↦ trivial
    | _ => trivial
  · trivial

theorem BranchClient.only {α : Type}
    {p : Program (Action ProviderAsk) (Action.Answer ProviderAsk.Reply) α}
    (h : BranchClient B p) : p.Only Action.KeepsHistory := by
  induction h with
  | done value => trivial
  | @call operation next branch rest ih =>
    refine ⟨?_, ih⟩
    cases operation with
    | admitEvent | admitWire => cases branch
    | _ => trivial
  | @other action next reads rest ih =>
    refine ⟨?_, ih⟩
    cases action with
    | call operation => exact absurd rfl (reads operation)
    | _ => trivial
  | record rest ih => exact (recordInvocation_only _ _).bind ih

/-! ### The shared store -/

/-- A store shared by clients, with every event committed on a branch so far. -/
structure Shared where
  tables : Tables
  landed : List Landing

/-- A step of a client on the shared store. What a transaction lands is noted when it commits,
whether or not the commit is acknowledged. -/
def Shared.Occurs (B : Boundary) :
    Effect (Action ProviderAsk) (Action.Answer ProviderAsk.Reply) Shared
  | .call operation, s, answer, s' => ∃ fault : Option Fault,
      operation.execute B fault s.tables = (s'.tables, answer) ∧
      s'.landed = s.landed ++
        ((committed fault (operation.body B) s.tables).bind operation.landing).toList
  | action, s, answer, s' =>
    Action.Occurs B (fun _ ↦ True) ProviderAsk.Reply action s.tables answer s'.tables ∧
      s'.landed = s.landed

/-- A call that the database does not fail. -/
theorem Shared.Occurs.of_body {operation : Operation} {s : Shared} {after : Tables}
    {result : operation.Result} (h : operation.body B s.tables = .ok (after, result)) :
    Shared.Occurs B (.call operation) s (.ok result)
      ⟨after, s.landed ++ (operation.landing result).toList⟩ := by
  obtain ⟨htransact, hcommitted⟩ := transact_ok h
  exact ⟨none, htransact, by rw [hcommitted, Option.bind_some]⟩

/-- The clients on the shared store. -/
abbrev Mesh (ι α : Type) := Crew ι (Action ProviderAsk) (Action.Answer ProviderAsk.Reply) α Shared

/-- Every landed event lies below the head of its branch. -/
def Ledger.Retains (L : Ledger B) (landed : List Landing) : Prop :=
  ∀ landing ∈ landed, ∃ head, L.localHead landing.context landing.branch = some head ∧
    L.Ancestor head landing.event

theorem Ledger.Retains.steps {L L' : Ledger B} {landed : List Landing} (h : L.WellFormed)
    (hretains : L.Retains landed) (hsteps : Steps Change.KeepsHistory L L') :
    L'.Retains landed := by
  intro landing hlanding
  obtain ⟨head, hhead, hancestor⟩ := hretains landing hlanding
  obtain ⟨later, hlater, hdescends⟩ := hsteps.localHead h hhead
  exact ⟨later, hlater, hdescends.trans (hancestor.mono hsteps.events_subset)⟩

/-- The shared store has grown out of a ledger by changes that keep histories. -/
def Grown (L : Ledger B) (s : Shared) : Prop :=
  ∃ L', s.tables = L'.tables ∧ Steps Change.KeepsHistory L L' ∧ L'.Retains s.landed

/-- A permitted step of any client grows the store further. -/
theorem Shared.Occurs.grown {L : Ledger B} (h : L.WellFormed) {action : Action ProviderAsk}
    {s s' : Shared} {answer : Action.Answer ProviderAsk.Reply action}
    (hkeeps : action.KeepsHistory) (occurs : Shared.Occurs B action s answer s')
    (hgrown : Grown L s) : Grown L s' := by
  obtain ⟨M, htables, hsteps, hretains⟩ := hgrown
  cases action with
  | call operation =>
    obtain ⟨fault, hexecute, hlanded⟩ := occurs
    have hcases := transact_cases fault (operation.body B) s.tables
    rw [Operation.execute] at hexecute
    rw [hexecute] at hcases
    rcases hcases with ⟨hsame, hnothing⟩ | ⟨result, hbody, hcommitted⟩
    · rw [hnothing, Option.bind_none, Option.toList_none, List.append_nil] at hlanded
      exact ⟨M, hsame.trans htables, hsteps, hlanded ▸ hretains⟩
    · rw [htables] at hbody
      obtain ⟨M', htables', hmore, hlands⟩ := operation_branches (hsteps.wellFormed h) hkeeps hbody
      refine ⟨M', htables', hsteps.trans hmore, fun landing hlanding ↦ ?_⟩
      rw [hlanded, hcommitted, Option.bind_some, List.mem_append, Option.mem_toList] at hlanding
      rcases hlanding with hold | hnew
      · exact hretains.steps (hsteps.wellFormed h) hmore landing hold
      · exact ⟨landing.event, hlands landing hnew, .refl⟩
  | ask question =>
    obtain ⟨hsame, hlanded⟩ := occurs
    exact ⟨M, Eq.trans hsame htables, hsteps, hlanded ▸ hretains⟩
  | project | listLocalRefs | listRemoteRefs =>
    obtain ⟨⟨hsame, -⟩, hlanded⟩ := occurs
    exact ⟨M, hsame.trans htables, hsteps, hlanded ▸ hretains⟩

/-- Interleaved clients of branches only make the store grow. -/
theorem Mesh.grown {ι α : Type} [DecidableEq ι] {L : Ledger B} (h : L.WellFormed)
    {mesh mesh' : Mesh ι α} (honly : ∀ i, (mesh.programs i).Only Action.KeepsHistory)
    (hgrown : Grown L mesh.world)
    (hrun : ReflTransGen (Crew.Step (Shared.Occurs B)) mesh mesh') :
    Grown L mesh'.world ∧ ∀ i, (mesh'.programs i).Only Action.KeepsHistory :=
  Crew.invariant (motive := Grown L)
    (fun _ _ _ _ hkeeps occurs ↦ Shared.Occurs.grown h hkeeps occurs) honly hgrown hrun

/-- No update of a branch is lost: whatever the clients do after a moment, every branch of that
moment is still there with its head below the later head, and every event committed on a branch
before that moment is below the later head of the branch. -/
theorem no_lost_update (B : Boundary) {ι α : Type} [DecidableEq ι] (start now later : Mesh ι α)
    (hclients : ∀ i, BranchClient B (start.programs i))
    (hreachable : Reachable B start.world.tables) (hlanded : start.world.landed = [])
    (hnow : ReflTransGen (Crew.Step (Shared.Occurs B)) start now)
    (hlater : ReflTransGen (Crew.Step (Shared.Occurs B)) now later) :
    (∀ context name head, localRefId now.world.tables context name = .ok (some head) →
      ∃ head', localRefId later.world.tables context name = .ok (some head') ∧
        ReflTransGen (later.world.tables.Parent B) head' head) ∧
    ∀ landing ∈ now.world.landed,
      ∃ head, localRefId later.world.tables landing.context landing.branch = .ok (some head) ∧
        ReflTransGen (later.world.tables.Parent B) head landing.event := by
  obtain ⟨L, hwell, hL⟩ := exists_of_reachable hreachable
  have hstart : Grown L start.world := ⟨L, hL, .refl, by
    rw [hlanded]
    exact fun _ hmem ↦ nomatch hmem⟩
  obtain ⟨⟨M, hM, hsteps, hretains⟩, honly⟩ :=
    Mesh.grown hwell (fun i ↦ (hclients i).only) hstart hnow
  have hwellM := hsteps.wellFormed hwell
  obtain ⟨⟨N, hN, hmore, -⟩, -⟩ := Mesh.grown hwellM honly ⟨M, hM, .refl, hretains⟩ hlater
  have hwellN := hmore.wellFormed hwellM
  simp only [hM, hN, localRefId_tables hwellM.toWellKeyed, localRefId_tables hwellN.toWellKeyed,
    parent_tables, Except.ok.injEq]
  exact ⟨fun context name head hhead ↦ hmore.localHead hwellM hhead, hretains.steps hwellM hmore⟩

section Golden

open Reference Golden

/-- A client that appends the request to its branch. -/
def appender : Program (Action ProviderAsk) (Action.Answer ProviderAsk.Reply) Unit :=
  .perform (.call (.append identity second.context main first.id second.kind
    second.event.body.payload)) fun _ ↦ .done ()

/-- A client that creates a branch at the request. -/
def brancher : Program (Action ProviderAsk) (Action.Answer ProviderAsk.Reply) Unit :=
  .perform (.call (.createBranch Golden.context side second.id)) fun _ ↦ .done ()

/-- One client appends to the branch, then another creates a branch at the new head. -/
theorem no_lost_update_advanced :
    (∀ context name head, localRefId advanced.tables context name = .ok (some head) →
      ∃ head', localRefId (advanced.setLocal ⟨Golden.context, side, second.id⟩).tables
          context name = .ok (some head') ∧
        ReflTransGen ((advanced.setLocal ⟨Golden.context, side, second.id⟩).tables.Parent
          Golden.B) head' head) ∧
    ∀ landing ∈ [(⟨Golden.context, main, second.id⟩ : Landing)],
      ∃ head, localRefId (advanced.setLocal ⟨Golden.context, side, second.id⟩).tables
          landing.context landing.branch = .ok (some head) ∧
        ReflTransGen ((advanced.setLocal ⟨Golden.context, side, second.id⟩).tables.Parent
          Golden.B) head landing.event := by
  let clients : Bool → Program (Action ProviderAsk) (Action.Answer ProviderAsk.Reply) Unit :=
    fun first ↦ if first then appender else brancher
  let start : Mesh Bool Unit := ⟨clients, branched.tables, []⟩
  have hstart : start.programs true = .perform _ fun _ ↦ .done () := rfl
  have happend := Shared.Occurs.of_body (s := start.world) append_branched
  let now : Mesh Bool Unit := ⟨Function.update clients true (.done ()), advanced.tables,
    [⟨Golden.context, main, second.id⟩]⟩
  have hnow : now.programs false = .perform _ fun _ ↦ .done () := rfl
  have hcreate := Shared.Occurs.of_body (s := now.world)
    (createBranch_fresh advanced_wellFormed side
      ⟨second, List.mem_append_right _ (List.mem_singleton_self _), rfl, rfl⟩ rfl)
  refine no_lost_update Golden.B start now _ (fun client ↦ ?_) branched_reachable rfl
    (.single (.perform true hstart happend)) (.single (.perform false hnow hcreate))
  cases client with
  | true => exact .call trivial fun _ ↦ .done ()
  | false => exact .call trivial fun _ ↦ .done ()

end Golden

end ContextMesh.Store
