import ContextMesh.Ledger.Reimport
import ContextMesh.Sync.Undisturbed

/-!
Repeating a pull while no one else writes. A pull that the page bound has stopped keeps the events
of its pages, and no ref leads to them. The next pull knows the same heads and is answered the same
pages, which the client holds already, so it stops at the same place.
-/

set_option autoImplicit false
set_option relaxedAutoImplicit false

namespace ContextMesh.Sync

open Checked Ordered Contract Store Interaction

variable {B : Boundary} {limits : TransportLimits} {responseLimit : ℕ} {config : PullClientConfig}
  {L M N S : Ledger B} {requested known : List EventId} {expectedHeads : String}
  {state : PullState} {offset left : ℕ} {foreign : List EventRow}

/-- An answered page of events that the client holds makes a round that inserts nothing. -/
theorem Answered.held (hM : M.WellFormed) (hS : S.WellFormed) (hlimits : config.limits.Checked)
    (hstands : Stands B config requested (S.heldHeads config.context known) offset state)
    (hpages : state.report.pages < MAX_PULL_PAGES)
    (answered : Answered B limits responseLimit config requested known expectedHeads S state offset)
    (hfits : answered.bundleWire.length ≤ config.limits.maxBundleBytes)
    (hregistered : M.registration config.context ≠ none)
    (hheld : ∀ e : StoredEvent B, e.event ∈ answered.response.bundle.events → e ∈ M.events) :
    ∃ round : Round B limits responseLimit config requested known expectedHeads M S state offset,
      round.toAnswered = answered ∧ M.admitAll round.events = M ∧ round.imported.inserted = 0 := by
  obtain ⟨source, hsource⟩ := ExportResponse.bundle_of_fromWire answered.reads
  obtain ⟨es, hlisted⟩ := exists_stored (BundleV1.fromWire_authentic hsource)
  have hstored : ∀ e ∈ es, e ∈ M.events := fun e he ↦
    hheld e (hlisted ▸ List.mem_map_of_mem he)
  obtain ⟨hadmits, hsame, hnone⟩ := hM.admitAll_stored hstored
  obtain ⟨round, hround, hevents, hinserted⟩ := answered.admitted hM hS hlimits hstands hpages
    hfits hregistered hlisted hadmits
  exact ⟨round, hround, hevents ▸ hsame, hinserted.trans hnone⟩

/-! ### A pull that the page bound stops -/

/-- The page loop stops at the page bound in a store that holds its pages, and leaves the store as
it is. -/
def StopsAgain (B : Boundary) (limits : TransportLimits) (responseLimit : ℕ)
    (config : PullClientConfig) (requested known : List EventId) (expectedHeads : String)
    (N S : Ledger B) (offset left : ℕ) (state : PullState) : Prop :=
  ∀ (report : PullReport) (turns : List MeetingTurn) (foreign : List EventRow),
    Stands B config requested (S.heldHeads config.context known) offset
      { state with report := report } → report.pages = state.report.pages →
      Keeps (Undisturbed B limits responseLimit) (fun _ ↦ True)
        (pullPages B config requested known expectedHeads left { state with report := report }).run
        (fun result s ↦ result = .error .limitExceeded ∧ s.now = ⟨N.tables, S.tables, foreign⟩)
        ⟨turns, ⟨N.tables, S.tables, foreign⟩⟩

/-- The page loop has imported so many pages of the plan, and more of it is left. -/
structure Cut (B : Boundary) (limits : TransportLimits) (responseLimit : ℕ)
    (config : PullClientConfig) (requested known : List EventId) (expectedHeads : String)
    (M S : Ledger B) (offset left : ℕ) (state : PullState) (foreign : List EventRow)
    (now : Exchange) (es : List (StoredEvent B)) (plan : List SignedEventV1) : Prop where
  now : now = ⟨(M.admitAll es).tables, S.tables, foreign⟩
  admits : M.AdmitsAll es
  planned : planOn B S.tables config.context requested (S.heldHeads config.context known) =
    .ok plan
  pages : Pages B config.context config.limits plan offset left (offset + es.length)
  more : offset + es.length < plan.length
  listed : List.Forall₂ (SignedEventV1.ReadsAs B) ((plan.drop offset).take es.length)
    (es.map StoredEvent.event)
  again : StopsAgain B limits responseLimit config requested known expectedHeads (M.admitAll es) S
    offset left state

theorem Round.registered
    (round : Round B limits responseLimit config requested known expectedHeads M S state offset)
    (hM : M.WellFormed) : M.registration config.context ≠ none := by
  obtain ⟨-, hregistered, -⟩ := (importPage_eq_ok hM round.reads round.bundled).mp round.imports
  rwa [round.accepted.context] at hregistered

/-- Behind a round that is not the last, the loop stands at its end. -/
theorem Round.stands
    (round : Round B limits responseLimit config requested known expectedHeads M S state offset)
    (hstands : Stands B config requested (S.heldHeads config.context known) offset state)
    {nextOffset : ℕ} {fingerprint : Fixed 32} {cursor : String}
    (hnext : round.next = some (nextOffset, fingerprint, cursor)) :
    Stands B config requested (S.heldHeads config.context known) (offset + round.events.length)
      ⟨round.report, some cursor, nextOffset, some fingerprint⟩ := by
  have haccepted := round.accepted
  rw [hnext] at haccepted
  have hstands' := hstands.next haccepted round.adds round.counted
  rwa [round.listed, List.length_map] at hstands'

/-- In a store that holds the events of a cut, the loop goes through a round in front of the cut,
and stops. -/
theorem StopsAgain.round (hN : N.WellFormed) (hS : S.WellFormed) (hlimits : config.limits.Checked)
    (hheads : Heads B requested known) (hpages : state.report.pages < MAX_PULL_PAGES)
    (hregistered : N.registration config.context ≠ none)
    (round : Round B limits responseLimit config requested known expectedHeads M S state offset)
    (hheld : ∀ e ∈ round.events, e ∈ N.events) {nextOffset : ℕ} {fingerprint : Fixed 32}
    {cursor : String} (hnext : round.next = some (nextOffset, fingerprint, cursor))
    (h : StopsAgain B limits responseLimit config requested known expectedHeads N S
      (offset + round.events.length) left
      ⟨round.report, some cursor, nextOffset, some fingerprint⟩) :
    StopsAgain B limits responseLimit config requested known expectedHeads N S offset (left + 1)
      state := by
  intro report turns foreign hstands hsame
  obtain ⟨again, hagain, hkept, -⟩ := Answered.held hN hS hlimits hstands (hsame ▸ hpages)
    ⟨round.wire, round.body, round.plan, round.response, round.next, round.bundleWire,
      round.rendered, round.served, round.planned, round.reads, round.checks, round.accepted,
      round.bundled⟩ round.fits hregistered fun e he ↦ by
        rw [round.listed] at he
        obtain ⟨f, hf, hevent⟩ := List.mem_map.mp he
        exact StoredEvent.ext_event hevent ▸ hheld f hf
  have hnextAgain : again.next = some (nextOffset, fingerprint, cursor) :=
    (congrArg Answered.next hagain).trans hnext
  have hevents : again.events = round.events := by
    have hresponse : again.response = round.response := congrArg Answered.response hagain
    refine List.map_injective_iff.mpr (fun _ _ ↦ StoredEvent.ext_event) ?_
    rw [← again.listed, ← round.listed, hresponse]
  have hstandsNext := again.stands hstands hnextAgain
  rw [hevents] at hstandsNext
  have hpaged : again.report.pages = round.report.pages := by
    rw [again.paged, round.paged]
    exact congrArg (· + 1) hsame
  apply again.goesOn hlimits hheads hstands.rendered
  rw [Round.rest, hnextAgain, Round.after, hkept]
  exact h again.report _ foreign hstandsNext hpaged

/-- A round in front of a cut is part of it. -/
theorem Round.cut
    (round : Round B limits responseLimit config requested known expectedHeads M S state offset)
    (hM : M.WellFormed) (hS : S.WellFormed) (hlimits : config.limits.Checked)
    (hheads : Heads B requested known) (hpages : state.report.pages < MAX_PULL_PAGES)
    {nextOffset : ℕ} {fingerprint : Fixed 32} {cursor : String}
    (hnext : round.next = some (nextOffset, fingerprint, cursor))
    {now : Exchange} {es : List (StoredEvent B)} {plan : List SignedEventV1}
    (hcut : Cut B limits responseLimit config requested known expectedHeads
      (M.admitAll round.events) S (offset + round.events.length) left
      ⟨round.report, some cursor, nextOffset, some fingerprint⟩ foreign now es plan) :
    Cut B limits responseLimit config requested known expectedHeads M S offset (left + 1) state
      foreign now (round.events ++ es) plan := by
  obtain rfl : round.plan = plan := Except.ok.inj (round.planned.symm.trans hcut.planned)
  have hlength : round.response.bundle.events.length = round.events.length := by
    rw [round.listed, List.length_map]
  have hsome : round.plan ≠ [] := List.ne_nil_of_length_pos (Nat.zero_lt_of_lt hcut.more)
  have hpage := round.accepted.page hsome
  rw [hlength] at hpage
  have hslice := round.accepted.slice
  rw [hlength, round.listed] at hslice
  refine ⟨?_, ?_, hcut.planned, ?_, ?_, ?_, ?_⟩
  · rw [Ledger.admitAll_append]
    exact hcut.now
  · exact Ledger.admitsAll_append.mpr ⟨round.admits, hcut.admits⟩
  · rw [List.length_append, ← Nat.add_assoc]
    exact .page hpage hcut.pages
  · rw [List.length_append, ← Nat.add_assoc]
    exact hcut.more
  · rw [List.map_append, List.length_append, List.take_add, List.drop_drop]
    exact List.rel_append hslice hcut.listed
  · have hall := Ledger.admitsAll_append.mpr ⟨round.admits, hcut.admits⟩
    have hN := hM.admitAll hall
    have hkept := (Ledger.Steps.admitAll hM hall).extends.registered hM hN (round.registered hM)
    refine StopsAgain.round hN hS hlimits hheads hpages hkept round (fun e he ↦ ?_) hnext ?_
    · exact (Ledger.mem_events_admitAll hM hall).mpr (Or.inr (List.mem_append_left _ he))
    · have hagain := hcut.again
      rw [← Ledger.admitAll_append] at hagain
      exact hagain

/-- The page loop that has stopped after as many pages as it could import has cut the plan. -/
theorem pullPages_cuts (hM : M.WellFormed) (hS : S.WellFormed) (hlimits : config.limits.Checked)
    (hheads : Heads B requested known)
    (hexpected : requestedHeadFingerprint B config.context requested = .ok expectedHeads)
    (hstands : Stands B config requested (S.heldHeads config.context known) offset state)
    (hpages : state.report.pages + left ≤ MAX_PULL_PAGES) {turns : List MeetingTurn}
    (hstarted : 0 < left ∨ ∃ plan, planOn B S.tables config.context requested
      (S.heldHeads config.context known) = .ok plan ∧ offset < plan.length) :
    Keeps (Undisturbed B limits responseLimit) (fun _ ↦ True)
      (pullPages B config requested known expectedHeads left state).run
      (fun result s ↦ result = .error .limitExceeded →
        pagesImported s.turns = pagesImported turns + left → ∃ es plan,
          Cut B limits responseLimit config requested known expectedHeads M S offset left state
            foreign s.now es plan)
      ⟨turns, ⟨M.tables, S.tables, foreign⟩⟩ := by
  induction left generalizing M offset state turns with
  | zero =>
    obtain ⟨plan, hplan, hmore⟩ := hstarted.resolve_left (lt_irrefl 0)
    refine ⟨trivial, fun _ _ ↦ ⟨[], plan, rfl, trivial, hplan, .refl offset, hmore, .nil, ?_⟩⟩
    exact fun report turns foreign _ _ ↦ ⟨trivial, rfl, rfl⟩
  | succ left ih =>
    apply pullPages_round hM hS hlimits hheads hstands hexpected (by omega)
    · -- Without a round no page is imported.
      intro _ error turns' hnone _ hcount
      rw [pagesImported_append, hnone] at hcount
      omega
    · intro round
      rw [Round.rest]
      cases hnext : round.next with
      | none => exact ⟨trivial, fun h ↦ by cases h⟩
      | some next =>
        obtain ⟨nextOffset, fingerprint, cursor⟩ := next
        have hwell := hM.admitAll round.admits
        have hpaged := round.paged
        have hlength : round.response.bundle.events.length = round.events.length := by
          rw [round.listed, List.length_map]
        have hadvances := round.accepted.advances
        rw [hnext, hlength] at hadvances
        obtain ⟨-, hmore, -⟩ := hadvances
        refine (ih hwell (round.stands hstands hnext) (by dsimp only; omega)
          (Or.inr ⟨round.plan, round.planned, hmore⟩)).mono fun result s _ hcuts herror hcount ↦ ?_
        obtain ⟨es, plan, hcut⟩ := hcuts herror (by
          rw [pagesImported_append]
          change _ = pagesImported turns + 1 + left
          omega)
        exact ⟨_, plan, round.cut hM hS hlimits hheads (by omega) hnext hcut⟩

theorem knownHeads_congr (hlocal : N.localRefs = M.localRefs)
    (hremote : N.remoteRefs = M.remoteRefs) : knownHeads N config = knownHeads M config := by
  rw [knownHeads, knownHeads, Ledger.localRefsOf, Ledger.remoteRefsOf, hlocal, hremote]
  rfl

/-- A failing end of a pull fails with an error of the store. -/
theorem publish_otherwise {refs : List AdvertisedRef} {report : PullReport}
    {motive : MeetingHistory → Prop} (s : MeetingHistory) :
    Keeps (Undisturbed B limits responseLimit) (fun _ ↦ True) (publish config refs report).run
      (fun result s ↦ result = .error .limitExceeded → motive s) s := by
  obtain ⟨turns, t, server, foreign⟩ := s
  cases hreplaced : replaceRemoteRefSnapshot B config.peer config.context refs t with
  | error error => exact publish_stops hreplaced fun failed turns' h ↦ by cases h
  | ok replaced => exact publish_ends hreplaced fun h ↦ by cases h

/-- A pull that has stopped after as many pages as it may import has opened and cut its plan. -/
theorem pull_cuts (hL : L.WellFormed) (hS : S.WellFormed) (hlimits : config.limits.Checked) :
    Keeps (Undisturbed B limits responseLimit) (fun _ ↦ True) (pull B config).run
      (fun result s ↦ result = .error .limitExceeded →
        pagesImported s.turns = config.limits.maxPages →
          Opens B limits responseLimit config L S ∧ requestedHeads S config.context ≠ [] ∧
            ∃ expectedHeads es plan, requestedHeadFingerprint B config.context
              (requestedHeads S config.context) = .ok expectedHeads ∧
              Cut B limits responseLimit config (requestedHeads S config.context)
                (knownHeads L config) expectedHeads L S 0 config.limits.maxPages .start foreign
                s.now es plan)
      ⟨[], ⟨L.tables, S.tables, foreign⟩⟩ := by
  obtain ⟨⟨-, -, hsome, hmax⟩, -⟩ := PullLimits.new_eq_ok.mp hlimits
  apply pull_opens hL hS
  · intro _ error turns' hnone _ hcount
    rw [List.nil_append, hnone] at hcount
    exact absurd hcount.symm hsome
  · intro hopened wire «local» remote _ _ _
    split_ifs with hnone
    · exact publish_otherwise _
    · intro expectedHeads hexpected
      apply Keeps.bindT
      refine (pullPages_cuts hL hS hlimits (hopened.heads hS hnone) hexpected (.start _)
        ((Nat.zero_add _).trans_le hmax) (Or.inl (Nat.pos_of_ne_zero hsome))).mono
          fun result s _ hcuts ↦ ?_
      cases result with
      | ok report => exact publish_otherwise s
      | error error =>
        intro herror hcount
        obtain ⟨es, plan, hcut⟩ := hcuts (congrArg Except.error (Except.error.inj herror))
          (hcount.trans (Nat.zero_add _).symm)
        exact ⟨hopened, hnone, expectedHeads, es, plan, hexpected, hcut⟩

/-- A pull that the page bound stops keeps its pages, stored and behind no ref. The store then has
the old events and the pages, which are the start of the plan unless the identifier hash takes an
event for what its wire reads as. So an event was inserted unless the client held them all; and more
of the plan is left. Repeating the pull changes nothing and stops again, however often it is
repeated. -/
theorem pull_stops_again (B : Boundary) (L S : Ledger B) (hclient : L.WellFormed)
    (hserver : S.WellFormed) (config : PullClientConfig) (hlimits : config.limits.Checked)
    (limits : TransportLimits) (s : MeetingHistory)
    (hrun : Runs (Undisturbed B limits config.transport.maxResponseBodyBytes) (pull B config).run
      ⟨[], ⟨L.tables, S.tables, []⟩⟩ (.done (.error .limitExceeded)) s)
    (hpages : pagesImported s.turns = config.limits.maxPages) :
    ∃ (N : Ledger B) (es : List (StoredEvent B)) (plan : List SignedEventV1),
      s.now = ⟨N.tables, S.tables, []⟩ ∧ N.WellFormed ∧
      planOn B S.tables config.context (requestedHeads S config.context)
        (S.heldHeads config.context (knownHeads L config)) = .ok plan ∧
      Pages B config.context config.limits plan 0 config.limits.maxPages es.length ∧
      es.length < plan.length ∧
      List.Forall₂ (SignedEventV1.ReadsAs B) (plan.take es.length) (es.map StoredEvent.event) ∧
      ((∀ event ∈ plan, event.Distinguished B) →
        es.map StoredEvent.event = plan.take es.length) ∧
      (∀ e, e ∈ N.events ↔ e ∈ L.events ∨ e ∈ es) ∧ N.localRefs = L.localRefs ∧
      N.remoteRefs = L.remoteRefs ∧
      ∀ (result : Except SyncError PullReport) (turns : List MeetingTurn) (s' : MeetingHistory),
        Runs (Undisturbed B limits config.transport.maxResponseBodyBytes) (pull B config).run
          ⟨turns, s.now⟩ (.done result) s' →
        result = .error .limitExceeded ∧ s'.now = s.now := by
  obtain ⟨hopened, hnone, expectedHeads, es, plan, hexpected, hcut⟩ :=
    hrun.post (pull_cuts hclient hserver hlimits) rfl hpages
  have hwell := hclient.admitAll hcut.admits
  obtain ⟨-, hlocal, hremote⟩ := Ledger.admitAll_refs (L := L) es
  have hpaged := hcut.pages
  have hmore := hcut.more
  have hlisted := hcut.listed
  rw [Nat.zero_add] at hpaged hmore
  rw [List.drop_zero] at hlisted
  have hpages : (∀ event ∈ plan, event.Distinguished B) →
      es.map StoredEvent.event = plan.take es.length := fun hdistinguished ↦ by
    obtain ⟨-, -, ps, rfl, -⟩ := Ledger.planOn_tables hserver hcut.planned
    rw [← List.map_take] at hlisted ⊢
    exact congrArg _ (StoredEvent.eq_of_distinguished hlisted fun e he ↦
      hdistinguished e.event (List.mem_map_of_mem (List.mem_of_mem_take he)))
  refine ⟨L.admitAll es, es, plan, hcut.now, hwell, hcut.planned, hpaged, hmore, hlisted, hpages,
    fun e ↦ Ledger.mem_events_admitAll hclient hcut.admits, hlocal, hremote,
    fun result turns s' hagain ↦ ?_⟩
  -- the next pull knows the same heads
  have hknown : knownHeads (L.admitAll es) config = knownHeads L config :=
    knownHeads_congr hlocal hremote
  have hopens : Opens B limits config.transport.maxResponseBodyBytes config (L.admitAll es) S :=
    ⟨hopened.served, hknown ▸ hopened.known⟩
  have hkeeps : Keeps (Undisturbed B limits config.transport.maxResponseBodyBytes) (fun _ ↦ True)
      (pull B config).run
      (fun result s' ↦ result = .error .limitExceeded ∧
        s'.now = ⟨(L.admitAll es).tables, S.tables, []⟩)
      ⟨turns, ⟨(L.admitAll es).tables, S.tables, []⟩⟩ := by
    apply hopens.pull hwell hserver hnone
    intro wire «local» remote expectedHeads' _ _ _ hexpected'
    obtain rfl : expectedHeads = expectedHeads' :=
      Except.ok.inj (hexpected.symm.trans hexpected')
    rw [hknown]
    refine (hcut.again _ _ _ (.start _) rfl).mono fun result s _ hstops ↦ ?_
    obtain ⟨rfl, hnow⟩ := hstops
    exact ⟨rfl, hnow⟩
  rw [hcut.now] at hagain ⊢
  exact hagain.post hkeeps

/-- A pull of one page stops behind it, when more is left. -/
theorem pull_overruns (hL : L.WellFormed) (hS : S.WellFormed)
    (hopened : Opens B limits responseLimit config L S)
    (hsome : requestedHeads S config.context ≠ [])
    (hrequested : requestedHeads S config.context = requested)
    (hknown : knownHeads L config = known)
    (hexpected : requestedHeadFingerprint B config.context requested = .ok expectedHeads)
    (hlimits : config.limits.Checked) (hheads : Heads B requested known)
    (round : Round B limits responseLimit config requested known expectedHeads L S .start 0)
    (hnext : round.next ≠ none) (hone : config.limits.maxPages = 1) :
    Keeps (Undisturbed B limits responseLimit) (fun _ ↦ True) (pull B config).run
      (fun result s ↦ result = .error .limitExceeded ∧ pagesImported s.turns = 1 ∧
        s.now = ⟨(L.admitAll round.events).tables, S.tables, foreign⟩)
      ⟨[], ⟨L.tables, S.tables, foreign⟩⟩ := by
  subst hrequested hknown
  have hrendered := rendered_start B
  apply hopened.pull hL hS hsome
  intro wire «local» remote expectedHeads' _ _ _ hexpected'
  obtain rfl : expectedHeads = expectedHeads' := Except.ok.inj (hexpected.symm.trans hexpected')
  rw [hone]
  apply round.overruns hlimits hheads hrendered hnext
  refine ⟨rfl, ?_, rfl⟩
  rw [List.nil_append, pagesImported_append, pagesImported_opening, pagesImported_turns]

section Golden

open Reference

/-- The first page of the fixture, one event long, is the genesis. A client that holds the genesis
inserts nothing. -/
theorem rooted_round {expectedHeads : String} (hexpected : requestedHeadFingerprint Golden.B
      Golden.context [Golden.second.id] = .ok expectedHeads)
    (hheads : Heads Golden.B [Golden.second.id] []) :
    ∃ round : Round Golden.B .default MAX_SYNC_RESPONSE_BODY_BYTES (goldenPull 1 1)
        [Golden.second.id] [] expectedHeads Golden.rooted Golden.advanced .start 0,
      round.next ≠ none ∧ Golden.rooted.admitAll round.events = Golden.rooted := by
  have hchecked : (goldenPull 1 1).limits.Checked := goldenPull_checked (by decide) (by decide)
  have hstart : Stands Golden.B (goldenPull 1 1) [Golden.second.id] [] 0 .start := .start []
  obtain ⟨answered, hplan⟩ := goldenPull_answered .default hchecked
    (hheads.length_request_le hchecked hstart.rendered) rfl hexpected
  have haccepted := answered.accepted
  rw [hplan] at haccepted
  have hsome : wholePlan ≠ [] := List.cons_ne_nil _ _
  have hlength : answered.response.bundle.events.length = 1 :=
    le_antisymm haccepted.bounded (haccepted.page hsome).fits.1
  have hslice := haccepted.slice
  rw [hlength] at hslice
  have hlisted : answered.response.bundle.events = [Golden.first.event.settle Golden.B] :=
    SignedEventV1.readings_eq hslice fun event hevent ↦
      List.mem_singleton.mp hevent ▸ golden_unmarked (Or.inl rfl)
  rw [StoredEvent.settle_event] at hlisted
  obtain ⟨bundleWire, hbundle, hfits⟩ := haccepted.fits.resolve_left hsome
  rw [hbundle.symm.trans answered.bundled |> Except.ok.inj] at hfits
  obtain ⟨round, rfl, hkept, -⟩ := answered.held Golden.rooted_wellFormed
    Golden.advanced_wellFormed hchecked hstart (by decide : 0 < MAX_PULL_PAGES) hfits
    (Option.some_ne_none _) fun e he ↦ by
      rw [hlisted, List.mem_singleton] at he
      rw [StoredEvent.ext_event he]
      exact List.mem_singleton_self _
  refine ⟨round, fun hnone ↦ ?_, hkept⟩
  have hend := haccepted.advances
  rw [hnone, hlength] at hend
  exact absurd hend (by decide : 0 + 1 ≠ 2)

/-- The first page of the fixture is the genesis, which the client holds already. The pull stops
behind it and has inserted nothing. -/
theorem goldenPull_stops : ∃ s : MeetingHistory,
    Runs (Undisturbed Golden.B .default MAX_SYNC_RESPONSE_BODY_BYTES)
      (pull Golden.B (goldenPull 1 1)).run ⟨[], ⟨Golden.rooted.tables, Golden.advanced.tables, []⟩⟩
      (.done (.error .limitExceeded)) s ∧
    pagesImported s.turns = 1 ∧
    s.now = ⟨Golden.rooted.tables, Golden.advanced.tables, []⟩ := by
  have hchecked : (goldenPull 1 1).limits.Checked := goldenPull_checked (by decide) (by decide)
  have hopened := goldenPull_opens .default (M := Golden.rooted) 1 1
    (by rw [rooted_known]; exact Nat.zero_le _)
  have hsome : requestedHeads Golden.advanced (goldenPull 1 1).context ≠ [] :=
    advanced_requested 1 1 ▸ List.cons_ne_nil _ _
  have hheads := hopened.heads Golden.advanced_wellFormed hsome
  rw [advanced_requested, rooted_known] at hheads
  obtain ⟨expectedHeads, hexpected⟩ :=
    requestedHeadFingerprint_total Golden.context hheads.validated.1
  obtain ⟨round, hnext, hkept⟩ := rooted_round hexpected hheads
  obtain ⟨result, s, hrun⟩ := Runs.finishes Undisturbed.total (pull Golden.B (goldenPull 1 1)).run
    ⟨[], ⟨Golden.rooted.tables, Golden.advanced.tables, []⟩⟩
  obtain ⟨rfl, hpages, hnow⟩ := hrun.post (pull_overruns Golden.rooted_wellFormed
    Golden.advanced_wellFormed hopened hsome (advanced_requested 1 1) (rooted_known 1 1)
    hexpected hchecked hheads round hnext rfl)
  rw [hkept] at hnow
  exact ⟨s, hrun, hpages, hnow⟩

theorem pull_stops_again_golden : ∃ s : MeetingHistory,
    Runs (Undisturbed Golden.B .default MAX_SYNC_RESPONSE_BODY_BYTES)
      (pull Golden.B (goldenPull 1 1)).run ⟨[], ⟨Golden.rooted.tables, Golden.advanced.tables, []⟩⟩
      (.done (.error .limitExceeded)) s ∧
    ∀ (result : Except SyncError PullReport) (turns : List MeetingTurn) (s' : MeetingHistory),
      Runs (Undisturbed Golden.B .default MAX_SYNC_RESPONSE_BODY_BYTES)
        (pull Golden.B (goldenPull 1 1)).run ⟨turns, s.now⟩ (.done result) s' →
      result = .error .limitExceeded ∧ s'.now = s.now := by
  obtain ⟨s, hrun, hpages, -⟩ := goldenPull_stops
  obtain ⟨N, es, plan, -, -, -, -, -, -, -, -, -, -, hagain⟩ := pull_stops_again Golden.B
    Golden.rooted Golden.advanced Golden.rooted_wellFormed Golden.advanced_wellFormed
    (goldenPull 1 1) (goldenPull_checked (by decide) (by decide)) .default s hrun hpages
  exact ⟨s, hrun, hagain⟩

/-- Such a pull need not insert any event. -/
theorem goldenPull_inserts_nothing : ∃ s : MeetingHistory,
    Runs (Undisturbed Golden.B .default MAX_SYNC_RESPONSE_BODY_BYTES)
      (pull Golden.B (goldenPull 1 1)).run ⟨[], ⟨Golden.rooted.tables, Golden.advanced.tables, []⟩⟩
      (.done (.error .limitExceeded)) s ∧
    pagesImported s.turns = (goldenPull 1 1).limits.maxPages ∧
    ¬ ∃ row ∈ s.now.client.events, row ∉ Golden.rooted.tables.events := by
  obtain ⟨s, hrun, hpages, hnow⟩ := goldenPull_stops
  refine ⟨s, hrun, hpages, ?_⟩
  rintro ⟨row, hrow, hnew⟩
  rw [hnow] at hrow
  exact hnew hrow

end Golden

end ContextMesh.Sync
