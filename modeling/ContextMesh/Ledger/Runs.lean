import ContextMesh.Ledger.Refs
import ContextMesh.Ledger.Consistency
import ContextMesh.Store.Operation
import ContextMesh.Reference.Exchange
import ContextMesh.Reference.Marked

/-!
Runs of operations. Every run from an empty store ends in the tables of a well-formed ledger.
-/

set_option autoImplicit false
set_option relaxedAutoImplicit false

namespace ContextMesh.Store

open Checked Contract Relation

variable {B : Boundary}

namespace Ledger

variable {L : Ledger B} {t : Tables}

theorem admitWire_steps (h : L.WellFormed) {wire : Bytes} {mutation : RefMutation}
    {status : AdmissionStatus} (hok : admitWire B wire mutation L.tables = .ok (t, status)) :
    ∃ L', t = L'.tables ∧ Steps (fun _ ↦ True) L L' := by
  obtain ⟨event, -, hok⟩ := bind_eq_ok.mp hok
  obtain ⟨L', rfl, hsteps⟩ := admit_steps h hok
  exact ⟨L', rfl, hsteps.mono fun _ _ ↦ trivial⟩

/-- A successful call takes a well-formed ledger to a ledger reached by changes. -/
theorem operation_steps (h : L.WellFormed) {operation : Operation} {result : operation.Result}
    (hok : operation.body B L.tables = .ok (t, result)) :
    ∃ L', t = L'.tables ∧ Steps (fun _ ↦ True) L L' := by
  have hany {kind : Change → Prop} (hsteps : ∃ L', t = L'.tables ∧ Steps kind L L') :
      ∃ L', t = L'.tables ∧ Steps (fun _ ↦ True) L L' := by
    obtain ⟨L', ht, hsteps⟩ := hsteps
    exact ⟨L', ht, hsteps.mono fun _ _ ↦ trivial⟩
  cases operation with
  | provisionContext provision => exact hany (provisionContext_steps h hok)
  | joinContext provision => exact hany (joinContext_steps h hok)
  | createContext identity branch entropy => exact hany (createContext_steps h hok)
  | authorizeAuthor context author => exact hany (authorizeAuthor_steps h hok)
  | admitEvent event mutation => exact hany (admit_steps h hok)
  | admitWire wire mutation => exact admitWire_steps h hok
  | append identity context branch expected kind payload =>
    obtain ⟨-, L', ht, hsteps, -⟩ := append_steps h hok
    exact hany ⟨L', ht, hsteps⟩
  | createBranch context name fromHead => exact hany (createBranch_steps h hok)
  | merge identity context branch expected parents payload =>
    obtain ⟨-, L', ht, hsteps, -⟩ := merge_steps h hok
    exact hany ⟨L', ht, hsteps⟩
  | setRemoteRef peer context name head => exact hany (setRemoteRef_steps h hok)
  | importBundle peer wire limits => exact hany (importBundle_steps h hok)
  | replaceRemoteRefSnapshot peer context refs => exact hany (replaceRemoteRefSnapshot_steps h hok)

/-- A call extends a store, whatever the database does. -/
theorem execute_extends (h : L.WellFormed) (operation : Operation) (fault : Option Fault) :
    ∃ L' : Ledger B, (operation.execute B fault L.tables).1 = L'.tables ∧ L'.WellFormed ∧
      L.Extends L' := by
  rcases transact_cases fault (operation.body B) L.tables with ⟨hsame, -⟩ | ⟨result, hbody, -⟩
  · exact ⟨L, hsame, h, .refl L⟩
  · obtain ⟨L', hL', hsteps⟩ := operation_steps h hbody
    exact ⟨L', hL', hsteps.wellFormed h, hsteps.extends⟩

/-- A run from the tables of a well-formed ledger is a sequence of changes of the ledger. -/
theorem run_steps (h : L.WellFormed) (hrun : Run B L.tables t) :
    ∃ L', t = L'.tables ∧ Steps (fun _ ↦ True) L L' := by
  refine Run.invariant (motive := fun t ↦ ∃ L', t = L'.tables ∧ Steps (fun _ ↦ True) L L')
    ?_ ⟨L, rfl, .refl⟩ hrun
  rintro _ ⟨M, rfl, hsteps⟩ operation after result hok
  obtain ⟨M', rfl, hmore⟩ := operation_steps (hsteps.wellFormed h) hok
  exact ⟨M', rfl, hsteps.trans hmore⟩

/-- Reachable tables are the tables of a well-formed ledger. -/
theorem exists_of_reachable (hrun : Reachable B t) :
    ∃ L : Ledger B, L.WellFormed ∧ t = L.tables := by
  obtain ⟨L, ht, hsteps⟩ := run_steps (B := B) WellFormed.empty hrun
  exact ⟨L, hsteps.wellFormed .empty, ht⟩

/-- A fresh context is provisioned. -/
theorem provisionContext_fresh (h : L.WellFormed) {provision : ContextProvision}
    (hvalid : validateAuthors B provision.authorizedAuthors = .ok ())
    (hfresh : L.registration provision.context = none) :
    provisionContext B provision L.tables = .ok ((L.provision provision.context
      provision.expectedGenesis provision.authorizedAuthors).tables, ()) := by
  rw [provisionContext, hvalid, ok_bind, contextRow_tables h.toWellKeyed, ok_bind, hfresh,
    Option.map_none]
  dsimp only
  rw [insertProvision_tables provision hfresh h.allowed (validateAuthors_eq_ok hvalid).2, ok_bind]

/-- An admitted event is recorded by a call that moves no ref. -/
theorem admit_none (h : L.WellFormed) {e : StoredEvent B} (hadmits : L.Admits e) :
    ∃ status, (Operation.admitEvent e.event .none).body B L.tables =
      .ok ((L.admitted e).tables, status) :=
  ⟨_, (admit_eq_ok h).mpr
    ⟨e, e.authentic.renders, trivial, hadmits, _, false, .none, rfl, rfl⟩⟩

/-- Events that are admitted one after the other are recorded by as many calls. -/
theorem admitAll_reachable (h : L.WellFormed) {es : List (StoredEvent B)}
    (hadmits : L.AdmitsAll es) (hreachable : Reachable B L.tables) :
    Reachable B (L.admitAll es).tables := by
  induction es generalizing L with
  | nil => exact hreachable
  | cons e rest ih =>
    obtain ⟨hfirst, hrest⟩ := hadmits
    obtain ⟨status, hadmit⟩ := admit_none h hfirst
    exact ih (h.admitted hfirst) hrest (hreachable.perform (.admitEvent e.event .none) hadmit)

/-- A branch is created at a stored event of its context. -/
theorem createBranch_fresh (h : L.WellFormed) {context : ContextId} (name : LocalRefName)
    {head : EventId} (hholds : L.Holds context head) (habsent : L.localHead context name = none) :
    (Operation.createBranch context name head).body B L.tables =
      .ok ((L.setLocal ⟨context, name, head⟩).tables, ⟨context, name, head⟩) := by
  have hinsert := insertLocalRef_tables ⟨context, name, head⟩ habsent
    (h.registration_of_holds hholds) hholds.find_ne_none
  dsimp only at hinsert
  change createBranch B context name head L.tables = _
  rw [createBranch, (requireInContext_tables h.toWellKeyed (u := ())).mpr hholds, ok_bind,
    localRefId_tables h.toWellKeyed, ok_bind, habsent]
  dsimp only
  rw [hinsert, ok_bind]
  rfl

/-- An admitted event is swapped in at the expected head of a branch. -/
theorem admit_swapped (h : L.WellFormed) {e : StoredEvent B} (hadmits : L.Admits e)
    {name : LocalRefName} {expected : EventId}
    (hcurrent : (L.admitted e).localHead e.context name = some expected)
    (hmoved : expected ≠ e.id) :
    ∃ status, admitEvent B e.event (.compareAndSwap e.context name (.head expected) e.id)
      L.tables = .ok (((L.admitted e).setLocal ⟨e.context, name, e.id⟩).tables, status) :=
  ⟨_, (admit_eq_ok h).mpr ⟨e, e.authentic.renders, ⟨rfl, rfl⟩, hadmits, _, false,
    .swapped hcurrent (hcurrent ▸ fun heq ↦ hmoved (Option.some.inj heq)), rfl, rfl⟩⟩

/-- An event created on the head of a branch is appended. -/
theorem append_fresh (h : L.WellFormed) {e : StoredEvent B} (hadmits : L.Admits e)
    {identity : SigningIdentity} {name : LocalRefName} {expected : EventId}
    (hkind : ¬ (e.kind = "context.genesis" ∨ e.kind = "context.merge"))
    (hcreated : identity.createEvent B e.context [expected] e.kind e.event.body.payload =
      .ok e.event)
    (hcurrent : (L.admitted e).localHead e.context name = some expected)
    (hmoved : expected ≠ e.id) :
    (Operation.append identity e.context name expected e.kind e.event.body.payload).body B
      L.tables = .ok (((L.admitted e).setLocal ⟨e.context, name, e.id⟩).tables, e.event) := by
  obtain ⟨status, hadmit⟩ := admit_swapped h hadmits hcurrent hmoved
  change append B identity e.context name expected e.kind e.event.body.payload L.tables = _
  rw [append, ensure_true hkind, ok_bind, hcreated, mapError_ok, ok_bind, hadmit, ok_bind]
  rfl

end Ledger

/-- Every reachable store is well formed: its columns and edges are those of its wires, its events
stand after their parents, its authors are allowed and its refs point into their contexts; and a
context is active exactly when its expected genesis is stored in it. -/
theorem reachable_wellFormed (B : Boundary) (t : Tables) (hrun : Reachable B t) :
    t.WellFormed B ∧ ∀ r : Registration, r.row ∈ t.contexts →
      (r.active = true ↔ t.Holds B r.context r.expected) := by
  obtain ⟨L, hwell, rfl⟩ := Ledger.exists_of_reachable hrun
  have hconsistent := hwell.tables
  exact ⟨hconsistent, fun r hr ↦ hconsistent.active_iff hr⟩

section Golden

open Reference Golden

theorem provisioned_reachable : Reachable Golden.B provisioned.tables :=
  (Run.refl _).perform (.provisionContext ⟨Golden.context, first.id, [Golden.author]⟩)
    (Ledger.provisionContext_fresh Ledger.WellFormed.empty rfl rfl)

theorem rooted_reachable : Reachable Golden.B rooted.tables := by
  obtain ⟨status, hadmit⟩ := Ledger.admit_none provisioned_wellFormed first_admits
  exact provisioned_reachable.perform (.admitEvent first.event .none) hadmit

theorem branched_reachable : Reachable Golden.B branched.tables :=
  rooted_reachable.perform (.createBranch Golden.context main first.id)
    (Ledger.createBranch_fresh rooted_wellFormed main
      ⟨first, List.mem_singleton_self _, rfl, rfl⟩ rfl)

theorem append_branched : (Operation.append identity second.context main first.id second.kind
    second.event.body.payload).body Golden.B branched.tables =
      .ok (advanced.tables, second.event) :=
  Ledger.append_fresh branched_wellFormed (second_admits branched rfl rfl rfl) (by decide)
    (World.createEvent_eq sound (by simp [world]) (validate request (Or.inr rfl)) (by decide) rfl)
    (by decide) first_ne_second

theorem advanced_reachable : Reachable Golden.B advanced.tables :=
  branched_reachable.perform _ append_branched

/-- Two events with an edge between them, and a branch at the later one. -/
theorem reachable_wellFormed_advanced : advanced.tables.WellFormed Golden.B ∧
    ∀ r : Registration, r.row ∈ advanced.tables.contexts →
      (r.active = true ↔ advanced.tables.Holds Golden.B r.context r.expected) :=
  reachable_wellFormed Golden.B _ advanced_reachable

/-- A second context may expect the genesis of the first. It stays pending although that genesis is
stored. -/
theorem pending_expects_stored : ¬ ∀ t, Reachable Golden.B t → ∀ r : Registration,
    r.row ∈ t.contexts →
      (r.active = true ↔ ∃ e : StoredEvent Golden.B, e.row ∈ t.events ∧ e.id = r.expected) := by
  intro h
  let other : ContextId := ⟨zeros 32⟩
  have hfresh : rooted.registration other = none := rfl
  have hreachable := rooted_reachable.perform
    (.provisionContext ⟨other, first.id, [Golden.author]⟩)
    (Ledger.provisionContext_fresh rooted_wellFormed rfl hfresh)
  have hpending := (h _ hreachable ⟨other, first.id, false⟩ (Ledger.mem_tables_contexts.mpr
    (List.mem_append_right _ (List.mem_singleton_self _)))).mpr
      ⟨first, Ledger.mem_tables_events.mpr (List.mem_singleton_self _), rfl⟩
  cases hpending

end Golden

section Exchange

open Reference Exchange

theorem branched_exchange : Reachable Exchange.B branched.tables := by
  have hprovisioned : Reachable Exchange.B provisioned.tables :=
    (Run.refl _).perform (.provisionContext ⟨Golden.context, first.id, [Golden.author]⟩)
      (Ledger.provisionContext_fresh Ledger.WellFormed.empty rfl rfl)
  obtain ⟨status, hadmit⟩ := Ledger.admit_none provisioned_wellFormed first_admits
  have hrooted : Reachable Exchange.B rooted.tables :=
    hprovisioned.perform (.admitEvent first.event .none) hadmit
  exact hrooted.perform (.createBranch Golden.context Golden.main first.id)
    (Ledger.createBranch_fresh rooted_wellFormed Golden.main
      ⟨first, List.mem_singleton_self _, rfl, rfl⟩ rfl)

theorem requested_exchange : Reachable Exchange.B requested.tables := by
  obtain ⟨status, hadmit⟩ : ∃ status, admitEvent Exchange.B asked.event (.compareAndSwap
      Golden.context Golden.main (.head first.id) asked.id) branched.tables =
        .ok (requested.tables, status) :=
    Ledger.admit_swapped branched_wellFormed branched_admits (by decide) first_ne_asked
  exact branched_exchange.perform (.admitEvent asked.event _) hadmit

end Exchange

section Marked

open Reference Marked

theorem provisioned_marked : Reachable Marked.B provisioned.tables :=
  (Run.refl _).perform (.provisionContext ⟨Golden.context, first.id, [Golden.author]⟩)
    (Ledger.provisionContext_fresh Ledger.WellFormed.empty rfl rfl)

theorem advanced_marked : Reachable Marked.B advanced.tables := by
  obtain ⟨_, hfirst⟩ := Ledger.admit_none provisioned_wellFormed first_admits
  have hrooted : Reachable Marked.B rooted.tables :=
    provisioned_marked.perform (.admitEvent first.event .none) hfirst
  obtain ⟨_, hmarked⟩ := Ledger.admit_none rooted_wellFormed marked_admits
  have hgrown : Reachable Marked.B grown.tables :=
    hrooted.perform (.admitEvent marked.event .none) hmarked
  exact hgrown.perform (.createBranch Golden.context Golden.main marked.id)
    (Ledger.createBranch_fresh grown_wellFormed Golden.main
      ⟨marked, List.mem_append_right _ (List.mem_singleton_self _), rfl, rfl⟩ rfl)

end Marked

end ContextMesh.Store
