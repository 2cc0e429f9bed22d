import ContextMesh.Sync.Mesh

/-!
Transfers between stores of one context. Each transfer exports everything that its source holds of
the context, less what its target is known to hold, and imports the bundle into the target. A store
ends up with exactly the events that travelled to it along the transfers, and a sweep through all
stores and back gives all of them one content.
-/

set_option autoImplicit false
set_option relaxedAutoImplicit false

namespace ContextMesh.Sync

open Checked Ordered Contract Store Function Relation

variable {ι : Type} [DecidableEq ι]

/-! ### Transfers -/

/-- An export from one store and its import into another. -/
structure Transfer (ι : Type) where
  source : ι
  target : ι
  peer : PeerName
  requested : List EventId
  known : List EventId
  refs : List LocalRef
  limits : BundleLimits
  within : BundleLimits

def Transfer.route (transfer : Transfer ι) : ι × ι := (transfer.source, transfer.target)

/-- The bundle carries all that the source holds of the context and the target is not known to hold,
and the import allows its size. -/
structure Transfer.Carries (B : Boundary) (context : ContextId) (stores : ι → Tables)
    (transfer : Transfer ι) (bundle : BundleV1 B) (wire : Bytes) : Prop where
  exported : exportBundle B (stores transfer.source) context transfer.requested transfer.known
    transfer.refs transfer.limits = .ok bundle
  rendered : bundle.toWire = .ok wire
  covers : ∀ e ∈ storedIn B (stores transfer.source), e.context = context →
    ∃ head ∈ transfer.requested, ReflTransGen ((stores transfer.source).Parent B) head e.id
  held : ∀ head ∈ transfer.known, (stores transfer.target).Holds B context head
  valid : validateBundleLimits transfer.within = .ok ()
  roomy : transfer.limits.maxEvents ≤ transfer.within.maxEvents ∧
    transfer.limits.maxCanonicalBytes ≤ transfer.within.maxCanonicalBytes ∧
    transfer.limits.maxRefs ≤ transfer.within.maxRefs

/-- What the import of a wire leaves and reports. -/
def Transfer.receive (B : Boundary) (stores : ι → Tables) (transfer : Transfer ι) (wire : Bytes) :
    Tables × Except StoreError ImportReport :=
  (Operation.importBundle transfer.peer wire transfer.within).execute B none
    (stores transfer.target)

/-- Transfers one after the other, with what the imports reported. -/
inductive Transfers (B : Boundary) (context : ContextId) : (ι → Tables) → List (Transfer ι) →
    (ι → Tables) → List (Except StoreError ImportReport) → Prop
  | nil (stores : ι → Tables) : Transfers B context stores [] stores []
  | cons {stores final : ι → Tables} {transfer : Transfer ι} {rest : List (Transfer ι)}
      {answers : List (Except StoreError ImportReport)} {bundle : BundleV1 B} {wire : Bytes}
      (carries : transfer.Carries B context stores bundle wire)
      (others : Transfers B context
        (update stores transfer.target (transfer.receive B stores wire).1) rest final answers) :
      Transfers B context stores (transfer :: rest) final
        ((transfer.receive B stores wire).2 :: answers)

/-- Stores that are provisioned alike for a context, and hold events in it that bundles pass on as
they are: no payload has an object that begins with the raw token. -/
structure Joined (B : Boundary) (context : ContextId) (expected : EventId) (stores : ι → Tables) :
    Prop where
  reachable : ∀ i, Reachable B (stores i)
  agree : ∀ i j, Agree (stores i) (stores j)
  genesis : ∀ i, ∃ state, contextRow (stores i) context = .ok (some (expected, state))
  allowed : ∀ i j author, isAuthorized (stores i) context author =
    isAuthorized (stores j) context author
  unmarked : ∀ i, ∀ e ∈ storedIn B (stores i), e.context = context → e.event.Unmarked B

/-- What the stores hold of a context. -/
def shares (B : Boundary) (context : ContextId) (stores : ι → Tables) (i : ι) :
    Set (StoredEvent B) := {e | e ∈ storedIn B (stores i) ∧ e.context = context}

section Steps

omit [DecidableEq ι] in
theorem mem_shares {B : Boundary} {context : ContextId} {stores : ι → Tables} {i : ι}
    {e : StoredEvent B} :
    e ∈ shares B context stores i ↔ e.row ∈ (stores i).events ∧ e.context = context := Iff.rfl

variable {B : Boundary} {context : ContextId} {expected : EventId} {stores : ι → Tables}
  {transfer : Transfer ι} {bundle : BundleV1 B} {wire : Bytes}

/-- An import changes no allowlist. -/
theorem isAuthorized_imported {t after : Tables} (ht : Reachable B t) {peer : PeerName}
    {limits : BundleLimits} {report : ImportReport}
    (hok : importBundle B peer wire limits t = .ok (after, report)) (author : AuthorId) :
    isAuthorized after context author = isAuthorized t context author := by
  obtain ⟨L, h, rfl⟩ := Ledger.exists_of_reachable ht
  obtain ⟨hvalid, hbytes, bundle, hparses, hevents, hrefs, hrendered, hok⟩ :=
    importBundle_eq_ok.mp hok
  have haccepted : Accepts B wire limits bundle :=
    ⟨hvalid, hbytes, hparses, hevents, hrefs, hrendered⟩
  obtain ⟨es, hes, hcontext⟩ := haccepted.exists_stored
  obtain ⟨-, hall, hheld, rfl, -⟩ := (Ledger.importBundleValue_eq_ok h hes hcontext).mp hok
  have hadmitted := h.admitAll hall
  have hafter := (Ledger.Steps.trackAll hadmitted peer hheld).wellFormed hadmitted
  rw [Ledger.isAuthorized_tables h.toWellKeyed, Ledger.isAuthorized_tables hafter.toWellKeyed,
    (Ledger.trackAll_frame peer bundle.context bundle.refs).2.1, (Ledger.admitAll_refs es).1]

/-- A call keeps the genesis that a context expects. -/
theorem genesis_kept {t : Tables} (ht : Reachable B t) (operation : Operation)
    (fault : Option Fault)
    (hgenesis : ∃ state, contextRow t context = .ok (some (expected, state))) :
    ∃ state, contextRow (operation.execute B fault t).1 context = .ok (some (expected, state)) := by
  obtain ⟨L, h, rfl⟩ := Ledger.exists_of_reachable ht
  obtain ⟨state, hrow⟩ := hgenesis
  obtain ⟨L', hL', hwell, hextends⟩ := Ledger.execute_extends h operation fault
  obtain ⟨s, hs, hexpected⟩ := hextends.expects h hwell (h.registration_of_row hrow)
  rw [hL', Ledger.contextRow_tables hwell.toWellKeyed, hs, Option.map_some, hexpected]
  exact ⟨s.state, rfl⟩

omit [DecidableEq ι] in
/-- What a transfer exports is unmarked. -/
theorem Transfer.Carries.unmarked (h : transfer.Carries B context stores bundle wire)
    (hjoined : Joined B context expected stores) : bundle.Unmarked := by
  obtain ⟨L, hL, hsource⟩ := Ledger.exists_of_reachable (hjoined.reachable transfer.source)
  obtain ⟨-, -, es, hes, hdifference⟩ := Ledger.exportBundle_events hL (hsource ▸ h.exported)
  intro event hevent
  obtain ⟨e, he, rfl⟩ := List.mem_map.mp (hes ▸ hevent)
  obtain ⟨hstored, hin⟩ := hdifference.stored e he
  exact hjoined.unmarked transfer.source e (hsource ▸ mem_storedIn_tables.mpr hstored) hin

omit [DecidableEq ι] in
/-- The import of a transfer succeeds, and the target then holds of the context what it held and
what the source holds. -/
theorem Transfer.Carries.accepted (h : transfer.Carries B context stores bundle wire)
    (hjoined : Joined B context expected stores) :
    ∃ after report, transfer.receive B stores wire = (after, .ok report) ∧
      importBundle B transfer.peer wire transfer.within (stores transfer.target) =
        .ok (after, report) ∧
      ∀ e : StoredEvent B, e.context = context → (e.row ∈ after.events ↔
        e.row ∈ (stores transfer.target).events ∨ e.row ∈ (stores transfer.source).events) := by
  obtain ⟨L, hL, hsource⟩ := Ledger.exists_of_reachable (hjoined.reachable transfer.source)
  obtain ⟨M, hM, htarget⟩ := Ledger.exists_of_reachable (hjoined.reachable transfer.target)
  obtain ⟨state, hrow⟩ := hjoined.genesis transfer.source
  obtain ⟨state', hrow'⟩ := hjoined.genesis transfer.target
  have hagree := hjoined.agree transfer.target transfer.source
  have hallowed := hjoined.allowed transfer.target transfer.source
  obtain ⟨hexported, hrendered, hcovers, hheld, hvalid, hroomy⟩ := id h
  rw [hsource] at hexported hcovers hrow hallowed hagree
  rw [htarget] at hheld hrow' hallowed hagree
  rw [agree_tables hM hL] at hagree
  simp only [mem_storedIn_tables, Ledger.parent_tables] at hcovers
  simp only [Ledger.holds_tables] at hheld
  obtain ⟨r, hr, hexpected⟩ := hL.registration_of_row hrow
  obtain ⟨s, hs, hexpected'⟩ := hM.registration_of_row hrow'
  have hrefs : ∀ ref ∈ transfer.refs,
      L.Below transfer.requested ref.head ∨ M.Holds context ref.head := by
    intro ref href
    obtain ⟨-, -, -, hchecked, -⟩ := exportBundle_eq_ok hexported
    obtain ⟨-, hfound⟩ := hchecked ref href
    rw [Ledger.authoritativeEventContext_tables hL.toWellKeyed, Except.ok.injEq,
      ← hL.toWellKeyed.holds_iff] at hfound
    obtain ⟨e, he, hid, hin⟩ := hfound
    exact Or.inl (hid ▸ hcovers e he hin)
  obtain ⟨M', report, hok, hafter⟩ := Ledger.importBundle_transfers hL hM hr hs
    (hexpected.trans hexpected'.symm) hexported (h.unmarked hjoined)
    (Ledger.exportBundle_authors hL hexported hallowed) hagree hheld hrefs hrendered hvalid hroomy
    transfer.peer
  refine ⟨M'.tables, report, ?_, htarget ▸ hok, fun e hin ↦ ?_⟩
  · rw [Transfer.receive, htarget]
    exact (transact_ok hok).1
  · rw [htarget, hsource, Ledger.mem_tables_events, Ledger.mem_tables_events,
      Ledger.mem_tables_events, hafter]
    exact or_congr_right (and_iff_left_of_imp fun he ↦ hcovers e he hin)

/-- A transfer passes on what its source holds. -/
theorem Transfer.Carries.passes (h : transfer.Carries B context stores bundle wire)
    (hjoined : Joined B context expected stores) :
    shares B context (update stores transfer.target (transfer.receive B stores wire).1) =
      Gossip.pass (shares B context stores) transfer.route := by
  obtain ⟨after, report, hreceived, -, hgained⟩ := h.accepted hjoined
  rw [hreceived]
  funext j
  ext e
  rw [Gossip.mem_pass, mem_shares, mem_shares, mem_shares]
  by_cases hsame : j = transfer.target
  · subst hsame
    show e.row ∈ (update stores transfer.target after transfer.target).events ∧ _ ↔
      _ ∨ transfer.target = transfer.target ∧ e.row ∈ (stores transfer.source).events ∧ _
    rw [update_self]
    constructor
    · rintro ⟨hrow, hin⟩
      rcases (hgained e hin).mp hrow with hold | hnew
      · exact Or.inl ⟨hold, hin⟩
      · exact Or.inr ⟨rfl, hnew, hin⟩
    · rintro (⟨hold, hin⟩ | ⟨-, hnew, hin⟩)
      · exact ⟨(hgained e hin).mpr (Or.inl hold), hin⟩
      · exact ⟨(hgained e hin).mpr (Or.inr hnew), hin⟩
  · have hroute : j ≠ transfer.route.2 := hsame
    rw [update_of_ne hsame]
    simp [hroute]

/-- After a transfer the stores are joined as before. -/
theorem Transfer.Carries.joined (h : transfer.Carries B context stores bundle wire)
    (hjoined : Joined B context expected stores) :
    Joined B context expected
      (update stores transfer.target (transfer.receive B stores wire).1) where
  reachable := (forall_update_iff stores fun _ t ↦ Reachable B t).mpr
    ⟨.step (hjoined.reachable transfer.target) _ none, fun j _ ↦ hjoined.reachable j⟩
  agree := by
    -- a transfer is three steps of a mesh
    have hrun : ReflTransGen (Mesh.Step B) (⟨stores, [], []⟩ : Mesh ι)
        ⟨update stores transfer.target (transfer.receive B stores wire).1, [wire], []⟩ :=
      .tail (.single (.send transfer.source h.exported h.rendered fun event hevent ↦
        (h.unmarked hjoined event hevent).distinguished (bundle.event_verify event hevent)))
        (.deliver transfer.target transfer.peer (List.mem_singleton_self wire) transfer.within none)
    obtain ⟨hreachable', hgossip⟩ := run_simulates hjoined.reachable hjoined.agree rfl hrun
    have hsafe := Gossip.run_safe hgossip (carried_of_idle rfl)
      ((compatible_iff hjoined.reachable).mpr hjoined.agree)
    exact (compatible_iff hreachable').mp hsafe.1
  genesis := (forall_update_iff stores fun _ t ↦
      ∃ state, contextRow t context = .ok (some (expected, state))).mpr
    ⟨genesis_kept (hjoined.reachable transfer.target) _ none (hjoined.genesis _),
      fun j _ ↦ hjoined.genesis j⟩
  allowed i j author := by
    obtain ⟨after, report, hreceived, hok, -⟩ := h.accepted hjoined
    have hkept : ∀ k, isAuthorized
        (update stores transfer.target (transfer.receive B stores wire).1 k) context author =
          isAuthorized (stores transfer.target) context author := by
      refine (forall_update_iff stores fun _ t ↦ isAuthorized t context author =
        isAuthorized (stores transfer.target) context author).mpr
          ⟨?_, fun k _ ↦ hjoined.allowed k transfer.target author⟩
      rw [hreceived]
      exact isAuthorized_imported (hjoined.reachable transfer.target) hok author
    rw [hkept i, hkept j]
  unmarked j e he hin := by
    have hshared : e ∈ Gossip.pass (shares B context stores) transfer.route j :=
      h.passes hjoined ▸ mem_shares.mpr ⟨he, hin⟩
    rcases Gossip.mem_pass.mp hshared with ⟨hold, -⟩ | ⟨-, hbrought, -⟩
    · exact hjoined.unmarked j e hold hin
    · exact hjoined.unmarked transfer.source e hbrought hin

end Steps

/-! ### Runs of transfers -/

section Runs

variable {B : Boundary} {context : ContextId} {expected : EventId} {stores final : ι → Tables}
  {schedule : List (Transfer ι)} {answers : List (Except StoreError ImportReport)}

theorem Transfers.passes (h : Transfers B context stores schedule final answers)
    (hjoined : Joined B context expected stores) :
    (∀ answer ∈ answers, ∃ report, answer = .ok report) ∧
      shares B context final =
        (schedule.map Transfer.route).foldl Gossip.pass (shares B context stores) ∧
      Joined B context expected final := by
  induction h with
  | nil stores => exact ⟨List.forall_mem_nil _, rfl, hjoined⟩
  | cons carries others ih =>
    obtain ⟨after, report, hreceived, -⟩ := carries.accepted hjoined
    obtain ⟨hanswers, hshares, hfinal⟩ := ih (carries.joined hjoined)
    refine ⟨List.forall_mem_cons.mpr ⟨⟨report, congrArg Prod.snd hreceived⟩, hanswers⟩, ?_, hfinal⟩
    rw [hshares, carries.passes hjoined, List.map_cons, List.foldl_cons]

/-- All imports of a run of transfers succeed, and in the end a store holds exactly those events of
the context that travelled to it: what some store held in the beginning from which the transfers
lead, in their order, to this one. -/
theorem transfers_exact (hjoined : Joined B context expected stores)
    (h : Transfers B context stores schedule final answers) :
    (∀ answer ∈ answers, ∃ report, answer = .ok report) ∧
    ∀ (j : ι) (e : StoredEvent B), e.context = context →
      (e.row ∈ (final j).events ↔
        ∃ i, Gossip.Flow (schedule.map Transfer.route) i j ∧ e.row ∈ (stores i).events) := by
  obtain ⟨hanswers, hshares, -⟩ := h.passes hjoined
  refine ⟨hanswers, fun j e hin ↦ ?_⟩
  have hmem := Gossip.mem_passes (shares B context stores)
    (schedule.map Transfer.route) (j := j) (a := e)
  rw [← hshares] at hmem
  simpa only [mem_shares, hin, and_true] using hmem

/-- A sweep of transfers through all stores and back gives them one content of the context and one
history: all that any of them held, shown alike by all of them. -/
theorem sweeps_converge (hjoined : Joined B context expected stores) {replicas : List ι}
    (hall : ∀ i, i ∈ replicas)
    (hroutes : schedule.map Transfer.route = Gossip.sweep replicas ++ Gossip.sweep replicas.reverse)
    (h : Transfers B context stores schedule final answers) :
    (∀ (j : ι) (e : StoredEvent B), e.context = context →
      (e.row ∈ (final j).events ↔ ∃ i, e.row ∈ (stores i).events)) ∧
    ∀ heads, (∀ head ∈ heads, ∃ i, (stores i).Holds B context head) → ∀ i j limits,
      projectOn B (final i) context heads limits = projectOn B (final j) context heads limits := by
  obtain ⟨-, hshares, hfinal⟩ := h.passes hjoined
  have hexact (j : ι) (e : StoredEvent B) (hin : e.context = context) :
      e.row ∈ (final j).events ↔ ∃ i, e.row ∈ (stores i).events := by
    have hmem := Gossip.mem_passes (shares B context stores)
      (schedule.map Transfer.route) (j := j) (a := e)
    rw [← hshares, hroutes] at hmem
    simp only [mem_shares, hin, and_true] at hmem
    rw [hmem]
    exact exists_congr fun i ↦ and_iff_right (Gossip.flow_sweeps (hall i) (hall j))
  refine ⟨hexact, fun heads hheads i j limits ↦ ?_⟩
  refine projectOn_of_agree (hfinal.reachable i) (hfinal.reachable j) (hfinal.agree i j) ?_ limits
  intro head hhead
  obtain ⟨k, e, he, hid, hin⟩ := hheads head hhead
  exact ⟨⟨e, (hexact i e hin).mpr ⟨k, he⟩, hid, hin⟩, ⟨e, (hexact j e hin).mpr ⟨k, he⟩, hid, hin⟩⟩

end Runs

section Golden

open Reference Golden

theorem pair_joined : Joined Golden.B Golden.context first.id pair where
  reachable := pair_reachable
  agree := pair_agree
  genesis i := by
    cases i with
    | false => exact ⟨0, provisioned_row⟩
    | true => exact ⟨1, advanced_row⟩
  allowed i j author := by
    cases i <;> cases j
    · rfl
    · exact provisioned_allowed author
    · exact (provisioned_allowed author).symm
    · rfl
  unmarked i e he _ := by
    cases i with
    | false => exact absurd (mem_storedIn_tables.mp he) List.not_mem_nil
    | true => exact advanced_unmarked e (mem_storedIn_tables.mp he)

/-- The transfer of the request and what is below it. -/
def handover (source target : Bool) : Transfer Bool :=
  ⟨source, target, peer, [second.id], [], [], .default, .default⟩

theorem handover_carries (stores : Bool → Tables) (source : Bool)
    (hreachable : Reachable Golden.B (stores source))
    (hpart : storedIn Golden.B (stores source) ⊆ storedIn Golden.B advanced.tables)
    (hheld : second ∈ storedIn Golden.B (stores source)) (target : Bool) :
    ∃ bundle wire,
      (handover source target).Carries Golden.B Golden.context stores bundle wire := by
  obtain ⟨L, h, hL⟩ := Ledger.exists_of_reachable hreachable
  rw [hL] at hpart hheld
  replace hheld := mem_storedIn_tables.mp hheld
  have hevents : ∀ e ∈ L.events, e = first ∨ e = second := by
    intro e he
    have hstored := mem_storedIn_tables.mp (hpart (mem_storedIn_tables.mpr he))
    rcases List.mem_append.mp hstored with hfirst | hsecond
    · exact Or.inl (List.mem_singleton.mp hfirst)
    · exact Or.inr (List.mem_singleton.mp hsecond)
  have hfew : L.events.length ≤ 7 := by
    have hsubset : L.events ⊆ [first, second] := fun e he ↦ by simpa using hevents e he
    have hle := (List.subperm_of_subset (List.Nodup.of_map _ h.events) hsubset).length_le
    exact hle.trans (by decide : 2 ≤ 7)
  have hholds : L.Holds Golden.context second.id := ⟨second, hheld, rfl, rfl⟩
  have hone : [second.id].length ≤ MAX_BUNDLE_EVENTS := (by decide : 1 ≤ MAX_BUNDLE_EVENTS)
  have hpasses : ∀ e ∈ L.events, e.event.Passes Golden.B := fun e he ↦
    advanced_passes e (mem_storedIn_tables.mp (hpart (mem_storedIn_tables.mpr he)))
  obtain ⟨bundle, hbundle⟩ := Ledger.exportBundle_succeeds h hfew hpasses
    ⟨List.cons_ne_nil _ _, hone⟩ (fun head hhead ↦ List.mem_singleton.mp hhead ▸ hholds)
    (fun ref href ↦ absurd href List.not_mem_nil) (Nat.zero_le _) List.nodup_nil
  obtain ⟨-, -, -, -, -, -, wire, hwire, -⟩ := exportBundle_eq_ok hbundle
  refine ⟨bundle, wire, hL.symm ▸ hbundle, hwire, ?_, fun head hhead ↦ absurd hhead
    List.not_mem_nil, rfl, le_rfl, le_rfl, le_rfl⟩
  intro e he _
  refine ⟨second.id, List.mem_singleton_self _, ?_⟩
  rw [show stores (handover source target).source = L.tables from hL] at he ⊢
  rw [Ledger.parent_tables]
  rcases hevents e (mem_storedIn_tables.mp he) with rfl | rfl
  · exact .single ⟨second, hheld, rfl, List.mem_singleton_self _⟩
  · exact .refl

/-- One transfer from the store with the request to the other one. -/
theorem transfers_exact_pair : ∃ final answers,
    Transfers Golden.B Golden.context pair [handover true false] final answers ∧
      first.row ∈ (final false).events ∧ second.row ∈ (final false).events := by
  obtain ⟨bundle, wire, hcarries⟩ := handover_carries pair true
    advanced_reachable subset_rfl (mem_storedIn_tables.mpr second_stored) false
  have hrun := Transfers.cons hcarries (.nil _)
  have hexact := (transfers_exact pair_joined hrun).2 false
  have hflow : Gossip.Flow ([handover true false].map Transfer.route) true false :=
    .hop (.stay false)
  exact ⟨_, _, hrun, (hexact first rfl).mpr ⟨true, hflow, Ledger.mem_tables_events.mpr
    first_stored⟩, (hexact second rfl).mpr ⟨true, hflow, Ledger.mem_tables_events.mpr
    second_stored⟩⟩

/-- There and back between the two stores. -/
theorem sweeps_converge_pair : ∃ final answers,
    Transfers Golden.B Golden.context pair [handover true false, handover false true] final
      answers ∧ ∀ limits, projectOn Golden.B (final true) Golden.context [second.id] limits =
        projectOn Golden.B (final false) Golden.context [second.id] limits := by
  obtain ⟨bundle, wire, hcarries⟩ := handover_carries pair true
    advanced_reachable subset_rfl (mem_storedIn_tables.mpr second_stored) false
  have hpassed := hcarries.passes pair_joined
  have hjoined := hcarries.joined pair_joined
  have hheld : second ∈ storedIn Golden.B
      (update pair false ((handover true false).receive Golden.B pair wire).1 false) := by
    have hshared : second ∈ Gossip.pass (shares Golden.B Golden.context pair)
        (handover true false).route false :=
      Gossip.mem_pass.mpr (Or.inr ⟨rfl, mem_storedIn_tables.mpr second_stored, rfl⟩)
    rw [← hpassed] at hshared
    exact hshared.1
  have hpart : storedIn Golden.B
      (update pair false ((handover true false).receive Golden.B pair wire).1 false) ⊆
        storedIn Golden.B advanced.tables := by
    rw [update_self]
    rcases execute_cases (B := Golden.B) (.importBundle peer wire .default) none (pair false) with
      hsame | ⟨report, hok⟩
    · rw [Transfer.receive, show (handover true false).peer = peer from rfl]
      rw [show ((Operation.importBundle peer wire (handover true false).within).execute Golden.B
        none (pair (handover true false).target)).1 = pair false from hsame]
      exact fun e he ↦ absurd (mem_storedIn_tables.mp he) List.not_mem_nil
    · rw [show storedIn Golden.B ((handover true false).receive Golden.B pair wire).1 = _ from
        storedIn_imported provisioned_reachable hok]
      rintro e (he | he)
      · exact absurd (mem_storedIn_tables.mp he) List.not_mem_nil
      · exact packet_exported advanced_reachable hcarries.exported hcarries.rendered
          (advanced_distinguished hcarries.exported) he
  obtain ⟨bundle', wire', hcarries'⟩ :=
    handover_carries _ false (hjoined.reachable false) hpart hheld true
  have hrun := Transfers.cons hcarries (.cons hcarries' (.nil _))
  have hall : ∀ i : Bool, i ∈ [true, false] := by decide
  obtain ⟨-, hsame⟩ := sweeps_converge pair_joined hall rfl hrun
  refine ⟨_, _, hrun, fun limits ↦ hsame [second.id] ?_ true false limits⟩
  intro head hhead
  rw [List.mem_singleton.mp hhead]
  exact ⟨true, second, Ledger.mem_tables_events.mpr second_stored, rfl, rfl⟩

end Golden

end ContextMesh.Sync
