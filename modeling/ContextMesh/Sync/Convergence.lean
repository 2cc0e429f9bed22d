import ContextMesh.Ledger.Cutting
import ContextMesh.Sync.Undisturbed

/-!
A pull from an honest server converges. Each page is the next slice of one plan, whatever the stores
gain in the meantime; the client holds what stands before the slice, so it admits the slice. After
the last page the client holds all the history of the branches that the server advertised, and what
the pull has added is the part of that history that the client did not hold.
-/

set_option autoImplicit false
set_option relaxedAutoImplicit false

namespace ContextMesh.Sync

open Checked Ordered Contract Store Interaction

/-! ### Favourable meetings -/

section Conditions

variable (B : Boundary) (config : PullClientConfig) (effective : List EventId)

/-- The server answers every request, always with the same effective heads. It has branches, whose
history is by authors that the client allows; the client knows few enough heads, and the plan takes
few enough pages. -/
structure Favourable (L : Ledger B) (turns : List MeetingTurn) : Prop where
  refs : ∀ (path : List Exchange) (before after : Exchange) (answer : Except SyncError Bytes),
    ⟨path, before, .ask (.getRefs config.context), answer, after⟩ ∈ turns →
      (∃ body, answer = .ok body) ∧ ∀ S : Ledger B, S.WellFormed → before.server = S.tables →
        S.localRefsOf config.context ≠ [] ∧ ∀ e ∈ S.events,
          S.Below ((S.localRefsOf config.context).map LocalRef.head) e.id →
            (config.context, e.author) ∈ L.authors
  known : ∀ (path path' : List Exchange) (before before' after after' : Exchange)
    («local» : List LocalRef) (remote : List RemoteRef),
    ⟨path, before, .listLocalRefs config.context, Except.ok «local», after⟩ ∈ turns →
      ⟨path', before', .listRemoteRefs config.peer config.context, Except.ok remote, after'⟩ ∈
        turns →
      (normalize (EventId.text B) («local».map LocalRef.head ++
        remote.map RemoteRef.head)).length ≤ MAX_BUNDLE_REFS
  pages : ∀ (path : List Exchange) (before after : Exchange) (wire : Bytes)
    (answer : Except SyncError Bytes),
    ⟨path, before, .ask (.postExport wire), answer, after⟩ ∈ turns →
      (∃ body, answer = .ok body) ∧ ∀ request, ExportRequest.fromWire B wire = .ok request →
        effectiveKnown B before.server config.context request.knownHeads = .ok effective ∧
        ∀ plan, planOn B before.server config.context request.requestedHeads effective = .ok plan →
          ∃ count ≤ config.limits.maxPages,
            Pages B config.context config.limits plan 0 count plan.length

/-- A page of an empty plan fits the byte bound of the client. -/
def EmptyFits (turns : List MeetingTurn) : Prop :=
  ∀ (path : List Exchange) (before after : Exchange) (wire : Bytes)
    (answer : Except SyncError Bytes),
    ⟨path, before, .ask (.postExport wire), answer, after⟩ ∈ turns →
      ∀ request, ExportRequest.fromWire B wire = .ok request →
        planOn B before.server config.context request.requestedHeads effective = .ok [] →
          Encodes B config.context [] config.limits.maxBundleBytes

/-- No payload of a plan has an object that begins with the raw token: bundles pass the plan on as
it is. -/
def PlanUnmarked (turns : List MeetingTurn) : Prop :=
  ∀ (path : List Exchange) (before after : Exchange) (wire : Bytes)
    (answer : Except SyncError Bytes),
    ⟨path, before, .ask (.postExport wire), answer, after⟩ ∈ turns →
      ∀ request, ExportRequest.fromWire B wire = .ok request → ∀ plan,
        planOn B before.server config.context request.requestedHeads effective = .ok plan →
          ∀ event ∈ plan, event.Unmarked B

/-- Every import of a page has succeeded. -/
def ImportsSucceed (s : MeetingHistory) : Prop :=
  ∀ (path : List Exchange) (before after : Exchange) (wire : Bytes) (limits : BundleLimits)
    (answer : Except StoreError ImportReport),
    ⟨path, before, .call (.importBundle config.peer wire limits), answer, after⟩ ∈ s.turns →
      ∃ report, answer = .ok report

variable {B config effective}

theorem Favourable.front {L : Ledger B} {turns : List MeetingTurn} {turn : MeetingTurn}
    (h : Favourable B config effective L (turns ++ [turn])) :
    Favourable B config effective L turns where
  refs path before after answer hturn :=
    h.refs path before after answer (List.mem_append_left _ hturn)
  known path path' before before' after after' «local» remote hlocal hremote :=
    h.known path path' before before' after after' «local» remote (List.mem_append_left _ hlocal)
      (List.mem_append_left _ hremote)
  pages path before after wire answer hturn :=
    h.pages path before after wire answer (List.mem_append_left _ hturn)

theorem EmptyFits.front {turns : List MeetingTurn} {turn : MeetingTurn}
    (h : EmptyFits B config effective (turns ++ [turn])) : EmptyFits B config effective turns :=
  fun path before after wire answer hturn ↦
    h path before after wire answer (List.mem_append_left _ hturn)

theorem PlanUnmarked.front {turns : List MeetingTurn} {turn : MeetingTurn}
    (h : PlanUnmarked B config effective (turns ++ [turn])) :
    PlanUnmarked B config effective turns :=
  fun path before after wire answer hturn ↦
    h path before after wire answer (List.mem_append_left _ hturn)

theorem ImportsSucceed.snoc {s s' : MeetingHistory} {turn : MeetingTurn}
    (h : ImportsSucceed config s) (hturns : s'.turns = s.turns ++ [turn])
    (hlast : ∀ path before after wire limits (answer : Except StoreError ImportReport),
      turn = ⟨path, before, .call (.importBundle config.peer wire limits), answer, after⟩ →
        ∃ report, answer = .ok report) : ImportsSucceed config s' := by
  intro path before after wire limits answer hturn
  rw [hturns] at hturn
  rcases List.mem_append.mp hturn with hearlier | hnow
  · exact h path before after wire limits answer hearlier
  · exact hlast path before after wire limits answer (List.mem_singleton.mp hnow).symm

end Conditions

variable {B : Boundary} {config : PullClientConfig} {effective requested known : List EventId}
  {L M M' S S' : Ledger B} {expected : EventId} {limits : TransportLimits} {responseLimit : ℕ}

variable (B config effective limits responseLimit) in
/-- The actions of a pull in a favourable meeting. -/
abbrev Fair (L : Ledger B) :
    Effect (Action PeerRequest) (Action.Answer PeerRequest.Reply) MeetingHistory :=
  (Meets B limits responseLimit).within fun s ↦ Favourable B config effective L s.turns ∧
    EmptyFits B config effective s.turns ∧ PlanUnmarked B config effective s.turns

/-! ### Heads -/

/-- What the two stores hold of the heads of a pull. -/
structure Frontier (config : PullClientConfig) (requested known : List EventId)
    (M S : Ledger B) : Prop where
  heads : Heads B requested known
  advertised : ∀ head ∈ requested, S.Holds config.context head
  held : ∀ head ∈ known, M.Holds config.context head
  trusted : ∀ e ∈ S.events, S.Below requested e.id → (config.context, e.author) ∈ M.authors

theorem Frontier.grow (h : Frontier config requested known M S) (hS : S.WellFormed)
    (hS' : S'.WellFormed) (hM : M.Extends M') (hextends : S.Extends S') :
    Frontier config requested known M' S' where
  heads := h.heads
  advertised head hhead := (h.advertised head hhead).mono hextends.events
  held head hhead := (h.held head hhead).mono hM.events
  trusted e he := by
    rintro ⟨head, hhead, hancestor⟩
    rw [hS.ancestor_iff hS' hextends.events (h.advertised head hhead)] at hancestor
    obtain ⟨f, hf, hid, -⟩ := hS.holds_ancestor (h.advertised head hhead) hancestor
    obtain rfl : f = e := hS'.event_eq_of_id (hextends.events f hf) he hid
    exact hM.authors _ (h.trusted f hf ⟨head, hhead, hancestor⟩)

/-- The branches that the server advertises are held, with a history that the client trusts. -/
theorem Frontier.opened (hS : S.WellFormed) {refs : List AdvertisedRef}
    (hadvertised : refs = Sync.advertised S config.context)
    (hsome : S.localRefsOf config.context ≠ []) (hfew : refs.length ≤ MAX_BUNDLE_REFS)
    (htrusted : ∀ e ∈ S.events, S.Below ((S.localRefsOf config.context).map LocalRef.head) e.id →
      (config.context, e.author) ∈ M.authors) :
    Frontier config (normalize (EventId.text B) (refs.map AdvertisedRef.head)) [] M S := by
  have hheads : refs.map AdvertisedRef.head =
      (S.localRefsOf config.context).map LocalRef.head := by
    rw [hadvertised, Sync.advertised, List.map_map]
    rfl
  have hrequested (id : EventId) : id ∈ normalize (EventId.text B) (refs.map AdvertisedRef.head) ↔
      id ∈ (S.localRefsOf config.context).map LocalRef.head := by
    rw [mem_normalize, hheads]
  have hnonempty : normalize (EventId.text B) (refs.map AdvertisedRef.head) ≠ [] := by
    rw [ne_eq, normalize_eq_nil, hheads, List.map_eq_nil_iff]
    exact hsome
  have hlength : (normalize (EventId.text B) (refs.map AdvertisedRef.head)).length ≤
      MAX_BUNDLE_REFS := by
    refine (length_normalize_le _ _).trans ?_
    rwa [List.length_map]
  refine ⟨⟨hnonempty, normalize_canonical EventId.text_injective _, canonical_nil _, hlength,
    Nat.zero_le _⟩, fun head hhead ↦ ?_, fun head hhead ↦ absurd hhead List.not_mem_nil,
    fun e he hbelow ↦ htrusted e he ((Ledger.Below.congr hrequested).mp hbelow)⟩
  obtain ⟨ref, href, rfl⟩ := List.mem_map.mp ((hrequested head).mp hhead)
  obtain ⟨hmem, hcontext⟩ := Ledger.mem_localRefsOf.mp href
  exact hcontext ▸ hS.localTargets ref hmem

/-- The heads that the client lists are known. -/
theorem Frontier.knows (h : Frontier config requested [] M S)
    (hknown : Canonical (EventId.text B) known) (hfew : known.length ≤ MAX_BUNDLE_REFS)
    (hheld : ∀ head ∈ known, M.Holds config.context head) :
    Frontier config requested known M S where
  heads := { h.heads with sortedKnown := hknown, fewKnown := hfew }
  advertised := h.advertised
  held := hheld
  trusted := h.trusted

/-! ### Pages -/

/-- The client holds the start of the plan up to an offset, and has pulled nothing else. -/
structure Reached (config : PullClientConfig) (plan : List SignedEventV1) (offset pages : ℕ)
    (turns : List MeetingTurn) (M : Ledger B) : Prop where
  held : ∀ event ∈ plan.take offset, M.Holds config.context event.eventId
  pulled : ∀ e : StoredEvent B, Pulled turns e.row → e.event ∈ plan.take offset
  paged : Pages B config.context config.limits plan 0 pages offset

/-- The plan that the server follows, when it has answered a page that was not the last. -/
def Planned (config : PullClientConfig) (requested effective : List EventId)
    (plan : List SignedEventV1) (offset pages : ℕ) (S : Ledger B) : Prop :=
  pages = 0 ∨ planOn B S.tables config.context requested effective = .ok plan ∧
    offset < plan.length ∧ ∃ count ≤ config.limits.maxPages,
      Pages B config.context config.limits plan 0 count plan.length

variable {plan plan' : List SignedEventV1} {offset pages : ℕ} {turns : List MeetingTurn}

theorem Reached.start (hnone : ∀ row, ¬ Pulled turns row) :
    Reached config plan 0 0 turns M where
  held _ hevent := absurd hevent List.not_mem_nil
  pulled e hrow := absurd hrow (hnone e.row)
  paged := .refl 0

/-- Before its first page the client has reached the start of any plan, and after it the server
keeps its plan. -/
theorem Reached.replan (h : Reached config plan offset pages turns M)
    (hplanned : Planned config requested effective plan offset pages S) (hS : S.WellFormed)
    (hS' : S'.WellFormed) (hextends : S.Extends S')
    (hplan : planOn B S'.tables config.context requested effective = .ok plan') :
    Reached config plan' offset pages turns M := by
  rcases hplanned with rfl | ⟨hbefore, -⟩
  · obtain ⟨-⟩ := h.paged
    exact ⟨h.held, h.pulled, .refl 0⟩
  · obtain rfl : plan = plan' := Except.ok.inj
      ((Ledger.planOn_mono hS hS' hextends.events hbefore).symm.trans hplan)
    exact h

theorem Reached.grow {turns' : List MeetingTurn} (h : Reached config plan offset pages turns M)
    (hM : M.Extends M') (hquiet : Pulled turns' = Pulled turns) :
    Reached config plan offset pages turns' M' where
  held event hevent := (h.held event hevent).mono hM.events
  pulled e hrow := h.pulled e (hquiet ▸ hrow)
  paged := h.paged

/-- An accepted page of an unmarked plan is the next slice of it. -/
theorem Accepted.events {response : ExportResponse B} {next : Option (ℕ × Fixed 32 × String)}
    (h : Accepted B config requested effective plan offset response next) (hS : S.WellFormed)
    (hplan : planOn B S.tables config.context requested effective = .ok plan)
    (hunmarked : ∀ event ∈ plan, event.Unmarked B) :
    response.bundle.events = (plan.drop offset).take response.bundle.events.length := by
  obtain ⟨-, -, es, rfl, -⟩ := Ledger.planOn_tables hS hplan
  have hslice : ∀ event ∈ ((es.map StoredEvent.event).drop offset).take
      response.bundle.events.length, event ∈ es.map StoredEvent.event := fun event hevent ↦
    List.mem_of_mem_drop (List.mem_of_mem_take hevent)
  refine (SignedEventV1.readings_eq h.slice fun event hevent ↦
    hunmarked event (hslice event hevent)).trans ((List.map_congr_left fun event hevent ↦ ?_).trans
      (List.map_id _))
  obtain ⟨e, -, rfl⟩ := List.mem_map.mp (hslice event hevent)
  exact e.settle_event

/-- The import of an accepted page succeeds at a client that holds what stands before it. -/
theorem Frontier.imports (h : Frontier config requested known M S) (hlimits : config.limits.Checked)
    {w : Exchange} {pulled : EventRow → Prop}
    (hmeeting : Meeting L config.context expected pulled w M S)
    (hplan : planOn B S.tables config.context requested effective = .ok plan)
    (hunmarked : ∀ event ∈ plan, event.Unmarked B)
    (heffective : ∀ head ∈ effective, M.Holds config.context head)
    (hheld : ∀ event ∈ plan.take offset, M.Holds config.context event.eventId)
    {body : Bytes} {response : ExportResponse B} {next : Option (ℕ × Fixed 32 × String)}
    (hresponse : ExportResponse.fromWire B body = .ok response)
    (haccepted : Accepted B config requested effective plan offset response next) {wire : Bytes}
    (hwire : response.bundle.toWire = .ok wire)
    (hfits : wire.length ≤ config.limits.maxBundleBytes) :
    ∃ (es : List (StoredEvent B)) (report : ImportReport),
      importBundle B config.peer wire
        ⟨config.limits.maxEvents, config.limits.maxBundleBytes, MAX_BUNDLE_REFS⟩ M.tables =
          .ok ((M.admitAll es).tables, report) ∧
      M.AdmitsAll es ∧ response.bundle.events = es.map StoredEvent.event ∧
      (∀ e ∈ es, e ∈ S.events ∧ e.context = config.context) ∧
      report.inserted + report.alreadyPresent = response.bundle.events.length := by
  have hslice := haccepted.events hmeeting.serverWellFormed hplan hunmarked
  obtain ⟨-, -, es, rfl, hdifference⟩ := Ledger.planOn_tables hmeeting.serverWellFormed hplan
  obtain ⟨r, hr, hrexpected⟩ := hmeeting.serverGenesis
  obtain ⟨m, hm, hmexpected⟩ := hmeeting.clientGenesis
  -- the page is a slice of the difference
  set count := response.bundle.events.length with hcount
  have hevents : response.bundle.events =
      ((es.drop offset).take count).map StoredEvent.event := by
    rw [hslice, ← List.map_drop, ← List.map_take]
  have hsplit : es = es.take offset ++ ((es.drop offset).take count ++
      (es.drop offset).drop count) := by
    rw [List.take_append_drop, List.take_append_drop]
  have hlisted : ∀ e ∈ (es.drop offset).take count, e ∈ es := fun e he ↦
    List.mem_of_mem_drop (List.mem_of_mem_take he)
  have hadmits : M.AdmitsAll ((es.drop offset).take count) := by
    rw [hsplit] at hdifference
    refine hdifference.admitsSlice hmeeting.serverWellFormed hmeeting.clientWellFormed hr hm
      (hrexpected.trans hmexpected.symm) (fun e he ↦ ?_) hmeeting.agree heffective fun e he ↦ ?_
    · rw [← hsplit] at hdifference
      have hstored := (hdifference.mem_stored hmeeting.serverWellFormed).mp (hlisted e he)
      rw [Ledger.isAuthorized_tables hmeeting.clientWellFormed.toWellKeyed, decide_eq_true_eq]
      exact h.trusted e hstored.1 hstored.2.1
    · refine hheld e.event ?_
      rw [← List.map_take]
      exact List.mem_map_of_mem he
  have hbundle : validateBundleLimits ⟨config.limits.maxEvents, config.limits.maxBundleBytes,
      MAX_BUNDLE_REFS⟩ = .ok () := by
    rw [validateBundleLimits, hlimits.bundleLimits, ok_bind]
  have hregistered : M.registration response.context ≠ none := by
    rw [haccepted.context, hm]
    exact Option.some_ne_none m
  have hcontexts : ∀ e ∈ (es.drop offset).take count, e.context = response.context := by
    intro e he
    rw [haccepted.context]
    exact (hdifference.stored e (hlisted e he)).2
  have himport : importBundle B config.peer wire
      ⟨config.limits.maxEvents, config.limits.maxBundleBytes, MAX_BUNDLE_REFS⟩ M.tables =
        .ok ((M.admitAll ((es.drop offset).take count)).tables, _) :=
    (importPage_eq_ok hmeeting.clientWellFormed hresponse hwire).mpr
      ⟨⟨hbundle, hfits, haccepted.bounded⟩, hregistered, _, hevents, hcontexts, hadmits, rfl, rfl⟩
  refine ⟨(es.drop offset).take count, _, himport, hadmits, hevents,
    fun e he ↦ hdifference.stored e (hlisted e he), ?_⟩
  have hlength := congrArg List.length hevents
  rw [List.length_map] at hlength
  exact (Nat.add_sub_cancel' (Ledger.newCount_le M _)).trans hlength.symm

/-! ### The run -/

/-- The whole plan is imported. -/
def Transferred (B : Boundary) (config : PullClientConfig)
    (requested known effective : List EventId) (L : Ledger B) (expected : EventId)
    (opening : MeetingTurn) (result : Except SyncError PullReport) (s : MeetingHistory) : Prop :=
  ∃ (report : PullReport) (M S : Ledger B) (plan : List SignedEventV1),
    result = .ok report ∧ opening ∈ s.turns ∧
      Meeting L config.context expected (Pulled s.turns) s.now M S ∧
      Frontier config requested known M S ∧
      planOn B S.tables config.context requested effective = .ok plan ∧
      (∀ head ∈ effective, M.Holds config.context head) ∧
      (∀ event ∈ plan, M.Holds config.context event.eventId) ∧
      (∀ e : StoredEvent B, Pulled s.turns e.row → e.event ∈ plan) ∧ ImportsSucceed config s

/-- A page request that is answered goes on with the answer. -/
theorem requestPage_answered {effect : Effect (Action PeerRequest)
      (Action.Answer PeerRequest.Reply) MeetingHistory} {inv : MeetingHistory → Prop} {wire : Bytes}
    {f : Bytes → Pulling PullReport}
    {post : Except SyncError PullReport → MeetingHistory → Prop} {s : MeetingHistory} (hs : inv s)
    (hsize : wire.length ≤ MAX_PULL_REQUEST_BODY_BYTES)
    (h : ∀ (answer : Except SyncError Bytes) s', effect (.ask (.postExport wire)) s answer s' →
      ∃ body, answer = .ok body ∧ Keeps effect inv (f body).run post s') :
    Keeps effect inv (requestPage wire >>= f).run post s := by
  apply Keeps.bindT
  apply Keeps.ofOk (ensure_true hsize)
  refine ⟨hs, fun answer s' occurs ↦ ?_⟩
  obtain ⟨body, rfl, hrest⟩ := h answer s' occurs
  exact ⟨hrest.invariant, hrest⟩

/-- An action that does not write. -/
def Reads : Action PeerRequest → Prop
  | .call _ => False
  | _ => True

theorem reads_ask (question : PeerRequest) : Reads (.ask question) := trivial

theorem reads_listLocalRefs (context : ContextId) : Reads (.listLocalRefs context) := trivial

theorem reads_listRemoteRefs (peer : PeerName) (context : ContextId) :
    Reads (.listRemoteRefs peer context) := trivial

theorem Exchange.occurs_reads {action : Action PeerRequest}
    {answer : action.Answer PeerRequest.Reply} {w w' : Exchange} (hreads : Reads action)
    (occurs : Exchange.Occurs B limits responseLimit action w answer w') : w' = w := by
  cases action with
  | call operation => exact hreads.elim
  | _ => exact occurs.1

/-- An action that does not write leaves a favourable meeting as it is. -/
theorem Fair.reads {action : Action PeerRequest} {answer : action.Answer PeerRequest.Reply}
    {s s' : MeetingHistory} (hreads : Reads action)
    (hmeeting : Meeting L config.context expected (Pulled s.turns) s.now M S)
    (himports : ImportsSucceed config s)
    (occurs : Fair B config effective limits responseLimit L action s answer s') :
    ∃ (path : List Exchange) (M' S' : Ledger B),
      s'.turns = s.turns ++ [⟨path, s'.now, action, answer, s'.now⟩] ∧
        Exchange.Occurs B limits responseLimit action s'.now answer s'.now ∧
        Meeting L config.context expected (Pulled s'.turns) s'.now M' S' ∧ M.Extends M' ∧
        S.Extends S' ∧ Pulled s'.turns = Pulled s.turns ∧ ImportsSucceed config s' := by
  obtain ⟨path, before, M', S', hturns, hoccurs, hmeeting', hM, hS⟩ := hmeeting.turn occurs.1
  have hnow := Exchange.occurs_reads hreads hoccurs
  have hquiet : Pulled s'.turns = Pulled s.turns := pulled_quiet hnow hturns
  rw [← hnow] at hoccurs hturns hmeeting'
  refine ⟨path, M', S', hturns, hoccurs, ?_, hM, hS, hquiet, himports.snoc hturns ?_⟩
  · rw [hquiet]
    exact hmeeting'
  · intro _ _ _ _ _ _ hturn
    cases hturn
    exact hreads.elim

/-- What an answered page request of a favourable meeting has found. -/
theorem Fair.answers {wire : Bytes} {answer : Except SyncError Bytes} {s s' : MeetingHistory}
    (hmeeting : Meeting L config.context expected (Pulled s.turns) s.now M S)
    (himports : ImportsSucceed config s) {state : PullState}
    (hread : ExportRequest.fromWire B wire = .ok (state.carried config requested known))
    (occurs : Fair B config effective limits responseLimit L (.ask (.postExport wire)) s answer
      s') :
    ∃ (M' S' : Ledger B) (body : Bytes) (plan : List SignedEventV1),
      Meeting L config.context expected (Pulled s'.turns) s'.now M' S' ∧ M.Extends M' ∧
        S.Extends S' ∧ answer = .ok body ∧ postExport B limits S'.tables wire = .ok body ∧
        effective = S'.heldHeads config.context known ∧
        planOn B S'.tables config.context requested effective = .ok plan ∧
        (∃ count ≤ config.limits.maxPages,
          Pages B config.context config.limits plan 0 count plan.length) ∧
        (plan = [] → Encodes B config.context [] config.limits.maxBundleBytes) ∧
        (∀ event ∈ plan, event.Unmarked B) ∧
        Pulled s'.turns = Pulled s.turns ∧ ImportsSucceed config s' ∧
        ∃ turn : MeetingTurn, s'.turns = s.turns ++ [turn] := by
  obtain ⟨path, M', S', hturns, ⟨-, hanswer⟩, hmeeting', hM, hS, hquiet, himports'⟩ :=
    Fair.reads (reads_ask _) hmeeting himports occurs
  obtain ⟨-, hfavourable, hempty, hunmarked⟩ := occurs
  have hmem : ⟨path, s'.now, .ask (.postExport wire), answer, s'.now⟩ ∈ s'.turns := by
    rw [hturns]
    exact List.mem_append_right _ (List.mem_singleton_self _)
  obtain ⟨⟨body, rfl⟩, hrequest⟩ := hfavourable.pages _ _ _ _ _ hmem
  obtain ⟨heffective, hbudget⟩ := hrequest _ hread
  have hbefore := hmeeting'.server
  rw [hbefore, Ledger.effectiveKnown_tables hmeeting'.serverWellFormed.toWellKeyed,
    Except.ok.injEq] at heffective
  have hpost : postExport B limits S'.tables wire = .ok body := by
    rw [hbefore] at hanswer
    exact (readResponse_eq_ok.mp hanswer.symm).1
  obtain ⟨-, -, page, hpage, -⟩ := (postExport_eq_ok hread).mp hpost
  obtain ⟨_, _, _, plan, _, hpage, -⟩ :=
    exportResponse_eq_ok hmeeting'.serverWellFormed hread hpage
  have hplan : planOn B S'.tables config.context requested effective = .ok plan := by
    rw [← heffective]
    exact hpage.planned
  refine ⟨M', S', body, plan, hmeeting', hM, hS, rfl, hpost, heffective.symm, hplan,
    hbudget plan (hbefore ▸ hplan), fun hnone ↦ ?_,
    hunmarked _ _ _ _ _ hmem _ hread plan (hbefore ▸ hplan), hquiet, himports', _, hturns⟩
  exact hempty _ _ _ _ _ hmem _ hread (by rw [hbefore, ← hnone]; exact hplan)

/-- The bundle of an accepted page has a wire within the byte bound of the client. -/
theorem Accepted.bundle {response : ExportResponse B} {next : Option (ℕ × Fixed 32 × String)}
    (h : Accepted B config requested effective plan offset response next) {body : Bytes}
    (hresponse : ExportResponse.fromWire B body = .ok response)
    (hempty : plan = [] → Encodes B config.context [] config.limits.maxBundleBytes) :
    ∃ wire, response.bundle.toWire = .ok wire ∧ wire.length ≤ config.limits.maxBundleBytes := by
  rcases h.fits with hnone | hfits
  · obtain ⟨bundle, wire, hparts, hwire, hfits⟩ := hempty hnone
    obtain ⟨-, hcontext, hrefs, -⟩ := ExportResponse.fromWire_eq_ok hresponse
    have hevents : response.bundle.events = [] := by
      have hslice := h.slice
      rw [hnone, List.drop_nil, List.take_nil] at hslice
      exact List.forall₂_nil_left_iff.mp hslice
    have hsame : BundleV1.fromParts B config.context [] [] = .ok response.bundle :=
      BundleV1.fromParts_eq_ok.mpr ⟨hcontext.trans h.context, hevents, hrefs⟩
    obtain rfl : bundle = response.bundle := Except.ok.inj (hparts.symm.trans hsame)
    exact ⟨wire, hwire, hfits⟩
  · exact hfits

/-- The import of an accepted page in a favourable meeting succeeds, and the client has reached the
end of the page. -/
theorem Fair.imports (hlimits : config.limits.Checked) {s s' : MeetingHistory}
    (hmeeting : Meeting L config.context expected (Pulled s.turns) s.now M S)
    (hfrontier : Frontier config requested known M S)
    (hplan : planOn B S.tables config.context requested effective = .ok plan)
    (hunmarked : ∀ event ∈ plan, event.Unmarked B)
    (heffective : ∀ head ∈ effective, M.Holds config.context head)
    (hreached : Reached config plan offset pages s.turns M) {body : Bytes}
    {response : ExportResponse B} {next : Option (ℕ × Fixed 32 × String)}
    (hresponse : ExportResponse.fromWire B body = .ok response)
    (haccepted : Accepted B config requested effective plan offset response next) {wire : Bytes}
    (hwire : response.bundle.toWire = .ok wire)
    (hfits : wire.length ≤ config.limits.maxBundleBytes)
    (himports : ImportsSucceed config s) {answer : Except StoreError ImportReport}
    (occurs : Fair B config effective limits responseLimit L (.call (.importBundle config.peer wire
      ⟨config.limits.maxEvents, config.limits.maxBundleBytes, MAX_BUNDLE_REFS⟩)) s answer s') :
    ∃ (M' S' : Ledger B) (report : ImportReport), answer = .ok report ∧
      Meeting L config.context expected (Pulled s'.turns) s'.now M' S' ∧ M.Extends M' ∧
      S.Extends S' ∧
      (∀ event ∈ plan.take (offset + response.bundle.events.length),
        M'.Holds config.context event.eventId) ∧
      (∀ e : StoredEvent B, Pulled s'.turns e.row →
        e.event ∈ plan.take (offset + response.bundle.events.length)) ∧
      report.inserted + report.alreadyPresent = response.bundle.events.length ∧
      ImportsSucceed config s' ∧ ∃ turn : MeetingTurn, s'.turns = s.turns ++ [turn] := by
  obtain ⟨occurs, -⟩ := occurs
  obtain ⟨path, before, M₂, S', hturns, ⟨after, hexecute, hnow⟩, hmeeting₂, hM, hS⟩ :=
    hmeeting.turn occurs
  have hwell := hmeeting₂.clientWellFormed
  have hfrontier₂ := hfrontier.grow hmeeting.serverWellFormed hmeeting₂.serverWellFormed hM hS
  have hplan₂ := Ledger.planOn_mono hmeeting.serverWellFormed hmeeting₂.serverWellFormed hS.events
    hplan
  obtain ⟨es, report, himport, hadmits, hevents, hstored, hcount⟩ := hfrontier₂.imports hlimits
    hmeeting₂ hplan₂ hunmarked (fun head hhead ↦ (heffective head hhead).mono hM.events)
    (hreached.grow hM rfl).held hresponse haccepted hwire hfits
  have hbody : (Operation.importBundle config.peer wire ⟨config.limits.maxEvents,
      config.limits.maxBundleBytes, MAX_BUNDLE_REFS⟩).body B before.client =
        .ok ((M₂.admitAll es).tables, report) := by
    rw [hmeeting₂.client]
    exact himport
  rw [Operation.execute, (transact_ok hbody).1] at hexecute
  obtain ⟨rfl, rfl⟩ := Prod.mk.inj hexecute
  -- the store after the import
  have hmem (f : StoredEvent B) : f ∈ (M₂.admitAll es).events ↔ f ∈ M₂.events ∨ f ∈ es :=
    Ledger.mem_events_admitAll hwell hadmits
  have hextends : M₂.Extends (M₂.admitAll es) := (Ledger.Steps.admitAll hwell hadmits).extends
  have hagree : ∀ e ∈ (M₂.admitAll es).events, ∀ f ∈ S'.events, e.id = f.id → e.wire = f.wire := by
    intro e he f hf hid
    rcases (hmem e).mp he with hold | hnew
    · exact hmeeting₂.agree e hold f hf hid
    · rw [hmeeting₂.serverWellFormed.event_eq_of_id (hstored e hnew).1 hf hid]
  have hpulled (row : EventRow) : Pulled s'.turns row ↔ Pulled s.turns row ∨
      row ∈ (M₂.admitAll es).tables.events ∧ row ∉ M₂.tables.events := by
    rw [hturns, pulled_append]
    dsimp only
    rw [hnow, hmeeting₂.client]
  have hmeeting' := hmeeting₂.pulls (hwell.admitAll hadmits) hextends hagree hpulled
  rw [← hnow] at hmeeting'
  have htake : plan.take (offset + response.bundle.events.length) =
      plan.take offset ++ es.map StoredEvent.event := by
    rw [List.take_add, ← haccepted.events hmeeting.serverWellFormed hplan hunmarked, hevents]
  refine ⟨_, S', report, rfl, hmeeting', hM.trans hextends, hS, fun event hevent ↦ ?_,
    fun e hrow ↦ ?_, hcount, himports.snoc hturns ?_, _, hturns⟩
  · rw [htake] at hevent
    rcases List.mem_append.mp hevent with hearlier | hnow
    · exact (hreached.held event hearlier).mono (hM.trans hextends).events
    · obtain ⟨e, he, rfl⟩ := List.mem_map.mp hnow
      exact ⟨e, (hmem e).mpr (Or.inr he), rfl, (hstored e he).2⟩
  · rw [htake]
    rcases (hpulled e.row).mp hrow with hearlier | ⟨hnow, hbefore⟩
    · exact List.mem_append_left _ (hreached.pulled e hearlier)
    · rw [Ledger.mem_tables_events] at hnow hbefore
      exact List.mem_append_right _ (List.mem_map_of_mem (((hmem e).mp hnow).resolve_left hbefore))
  · intro path' before' after' wire' limits' answer' hturn
    cases hturn
    exact ⟨report, rfl⟩

/-- The page loop imports the whole plan. The induction is on the pages that the limit leaves; the
loop stands at an offset of the plan, and a plan that needs more pages than the limit is none that
the meeting has. -/
theorem pullPages_converges (hlimits : config.limits.Checked) {expectedHeads : String}
    (hexpected : requestedHeadFingerprint B config.context requested = .ok expectedHeads)
    {left pages offset : ℕ} {plan : List SignedEventV1} {state : PullState} {s : MeetingHistory}
    {M S : Ledger B} (hmeeting : Meeting L config.context expected (Pulled s.turns) s.now M S)
    (hfrontier : Frontier config requested known M S)
    (hreached : Reached config plan offset pages s.turns M)
    (hplanned : Planned (B := B) config requested effective plan offset pages S)
    (hstands : Stands B config requested effective offset state)
    (hpages : state.report.pages = pages) (hleft : pages + left = config.limits.maxPages)
    (himports : ImportsSucceed config s) {opening : MeetingTurn} (hopening : opening ∈ s.turns) :
    Keeps (Fair B config effective limits responseLimit L) (ImportsSucceed config)
      (pullPages B config requested known expectedHeads left state).run
      (Transferred B config requested known effective L expected opening) s := by
  induction left generalizing pages offset plan state s M S with
  | zero =>
    -- the plan takes at most as many pages as were imported, so nothing is left of it
    obtain ⟨⟨-, -, hmaxPages⟩, -⟩ := PullLimits.new_eq_ok.mp hlimits
    rcases hplanned with rfl | ⟨-, hmore, count, hcount, hend⟩
    · omega
    · rw [← hleft, Nat.add_zero] at hcount
      exact absurd (hend.mono hreached.paged hcount) (Nat.not_le.mpr hmore)
  | succ left ih =>
    obtain ⟨hnew, wire, hwire, hsize, hread⟩ := hfrontier.heads.request hlimits hstands.rendered
    rw [pullPages]
    apply Keeps.ofOk hnew
    apply Keeps.ofOk hwire
    apply requestPage_answered himports hsize
    intro answer s₁ occurs₁
    obtain ⟨M₁, S₁, body, plan₁, hmeeting₁, hM₁, hS₁, rfl, hpost, heffective, hplan₁, hbudget,
      hempty, hunmarked₁, hquiet₁, himports₁, turn₁, hturns₁⟩ :=
        Fair.answers hmeeting himports hread occurs₁
    refine ⟨body, rfl, ?_⟩
    have hwell₁ := hmeeting₁.serverWellFormed
    have hfrontier₁ := hfrontier.grow hmeeting.serverWellFormed hwell₁ hM₁ hS₁
    -- the page is unmarked, as the plan is, so the client parses it
    obtain ⟨response, hresponse⟩ : ∃ response, ExportResponse.fromWire B body = .ok response := by
      obtain ⟨-, -, response, hexport, hbody⟩ := (postExport_eq_ok hread).mp hpost
      obtain ⟨_, _, _, plan', _, hpage, -⟩ := exportResponse_eq_ok hwell₁ hread hexport
      rw [heffective] at hplan₁
      obtain rfl : plan₁ = plan' := Except.ok.inj (hplan₁.symm.trans hpage.planned)
      refine ⟨response, hpage.fromWire hwell₁ (fun event hevent ↦ hunmarked₁ event ?_) hbody⟩
      rw [hpage.events] at hevent
      exact List.mem_of_mem_drop (List.mem_of_mem_take hevent)
    obtain ⟨next, hcheck, haccepted⟩ :
        ∃ next, checkPage B config expectedHeads state response = .ok next ∧
          Accepted B config requested effective plan₁ offset response next := by
      rw [heffective] at hstands hplan₁ ⊢
      exact hstands.accepts hwell₁ hread hpost hresponse hplan₁ hexpected
    apply Keeps.ofOk hresponse
    apply Keeps.ofOk hcheck
    obtain ⟨bundleWire, hbundle, hfits⟩ := haccepted.bundle hresponse hempty
    apply Keeps.ofOk (mapError_eq_ok.mpr hbundle)
    apply Keeps.ofOk (mapError_eq_ok.mpr hlimits.bundleLimits)
    have hheld : ∀ head ∈ effective, M₁.Holds config.context head := by
      intro head hhead
      rw [heffective, Ledger.mem_heldHeads hwell₁.toWellKeyed] at hhead
      exact hfrontier₁.held head hhead.1
    apply Keeps.attemptOk himports₁
    intro answer₂ s₂ occurs₂
    have hreached₁ :=
      (hreached.replan hplanned hmeeting.serverWellFormed hwell₁ hS₁ hplan₁).grow hM₁ hquiet₁
    obtain ⟨M₂, S₂, imported, rfl, hmeeting₂, hM₂, hS₂, hheld₂, hpulled₂, hcount, himports₂,
      turn₂, hturns₂⟩ := Fair.imports hlimits hmeeting₁ hfrontier₁ hplan₁ hunmarked₁ hheld hreached₁
        hresponse haccepted hbundle hfits himports₁ occurs₂
    have hopening₂ : opening ∈ s₂.turns := by
      rw [hturns₂, hturns₁]
      exact List.mem_append_left _ (List.mem_append_left _ hopening)
    refine ⟨imported, rfl, ?_⟩
    have hlength := Ledger.planOn_length hwell₁ hplan₁
    have hfew : state.report.pages < MAX_PULL_PAGES := by
      obtain ⟨⟨-, -, -, hmaxPages⟩, -⟩ := PullLimits.new_eq_ok.mp hlimits
      omega
    obtain ⟨report, hreport, hreportPages⟩ := hstands.addPage haccepted hlength hfew hcount
    apply Keeps.ofOk hreport
    have hfrontier₂ := hfrontier₁.grow hwell₁ hmeeting₂.serverWellFormed hM₂ hS₂
    have hplan₂ := Ledger.planOn_mono hwell₁ hmeeting₂.serverWellFormed hS₂.events hplan₁
    cases next with
    | none =>
      have hend : offset + response.bundle.events.length = plan₁.length := haccepted.advances
      rw [hend, List.take_length] at hheld₂ hpulled₂
      exact ⟨himports₂, report, M₂, S₂, plan₁, rfl, hopening₂, hmeeting₂, hfrontier₂, hplan₂,
        fun head hhead ↦ (hheld head hhead).mono hM₂.events, hheld₂, hpulled₂, himports₂⟩
    | some next =>
      obtain ⟨nextOffset, fingerprint, cursor⟩ := next
      obtain ⟨-, hmore, -, -⟩ := haccepted.advances
      have hsome : plan₁ ≠ [] := List.ne_nil_of_length_pos (Nat.zero_lt_of_lt hmore)
      have hreached₂ : Reached config plan₁ (offset + response.bundle.events.length) (pages + 1)
          s₂.turns M₂ := ⟨hheld₂, hpulled₂, hreached₁.paged.snoc (haccepted.page hsome)⟩
      exact ih hmeeting₂ hfrontier₂ hreached₂ (Or.inr ⟨hplan₂, hmore, hbudget⟩)
        (hstands.next haccepted hreport hcount) (hreportPages.trans (congrArg (· + 1) hpages))
        (by omega) himports₂ hopening₂

/-- The pull has ended with a report. The client holds the history of every branch that the server
advertised, and the pull has added what the client did not hold of it and others have not added. -/
def Converged (B : Boundary) (config : PullClientConfig) (L : Ledger B)
    (result : Except SyncError PullReport) (s : MeetingHistory) : Prop :=
  ∃ (report : PullReport) (path : List Exchange) (before after : Exchange) (wire : Bytes)
    (snapshot : RefSnapshot) (M S : Ledger B), result = .ok report ∧
    ⟨path, before, .ask (.getRefs config.context), Except.ok wire, after⟩ ∈ s.turns ∧
    RefSnapshot.fromWire B wire = .ok snapshot ∧
    (s.now.client = M.tables ∧ M.WellFormed) ∧ (s.now.server = S.tables ∧ S.WellFormed) ∧
    (∀ item ∈ snapshot.refs, ∀ id, S.Ancestor item.head id → M.Holds config.context id) ∧
    ∀ e : StoredEvent B, Pulled s.turns e.row ↔
      (e ∈ S.events ∧ ∃ item ∈ snapshot.refs, S.Ancestor item.head e.id) ∧
        e ∉ L.events ∧ e.row ∉ s.now.foreign

/-- A client that holds the plan and the effective heads holds the history of the requested heads,
and has pulled its part of it. -/
theorem Transferred.history {w : Exchange}
    (hmeeting : Meeting L config.context expected (Pulled turns) w M S)
    (hplan : planOn B S.tables config.context requested effective = .ok plan)
    (heffective : ∀ head ∈ effective, M.Holds config.context head)
    (hheld : ∀ event ∈ plan, M.Holds config.context event.eventId)
    (hpulled : ∀ e : StoredEvent B, Pulled turns e.row → e.event ∈ plan) :
    (∀ id, S.Below requested id → M.Holds config.context id) ∧
      ∀ e : StoredEvent B, Pulled turns e.row ↔
        (e ∈ S.events ∧ S.Below requested e.id) ∧ e ∉ L.events ∧ e.row ∉ w.foreign := by
  obtain ⟨-, -, es, rfl, hdifference⟩ := Ledger.planOn_tables hmeeting.serverWellFormed hplan
  have hholds (id : EventId) (hid : S.Below requested id) : M.Holds config.context id := by
    rcases hdifference.below hid with hlisted | ⟨head, hhead, hancestor⟩
    · obtain ⟨e, he, rfl⟩ := List.mem_map.mp hlisted
      exact hheld e.event (List.mem_map_of_mem he)
    · have hhead := heffective head hhead
      exact hmeeting.clientWellFormed.holds_ancestor hhead
        (hmeeting.clientWellFormed.ancestor_of_agree hmeeting.agree hhead hancestor)
  refine ⟨hholds, fun e ↦ ⟨fun hrow ↦ ?_, ?_⟩⟩
  · obtain ⟨f, hf, hsame⟩ := List.mem_map.mp (hpulled e hrow)
    obtain rfl := StoredEvent.ext_event hsame
    obtain ⟨hstored, hbelow, -⟩ := (hdifference.mem_stored hmeeting.serverWellFormed).mp hf
    exact ⟨⟨hstored, hbelow⟩, (hmeeting.fresh f hrow).2⟩
  · rintro ⟨⟨hstored, hbelow⟩, hnew, hforeign⟩
    obtain ⟨f, hf, hid, -⟩ := hholds e.id hbelow
    obtain rfl : f = e := StoredEvent.ext_wire (hmeeting.agree f hf e hstored hid)
    rcases hmeeting.whence f hf with hstart | hother | hrow
    · exact absurd hstart hnew
    · exact absurd hother hforeign
    · exact hrow

/-- The client holds every head of the snapshot, so the replacement of the refs succeeds and ends
the pull. -/
theorem publish_converges {s : MeetingHistory} {path : List Exchange} {before after : Exchange}
    {wire : Bytes} {snapshot : RefSnapshot} (hsnapshot : RefSnapshot.fromWire B wire = .ok snapshot)
    (hrefs : snapshot.refs.length ≤ MAX_BUNDLE_REFS ∧ Canonical refKey snapshot.refs)
    (hrequested : ∀ id, id ∈ requested ↔ id ∈ snapshot.refs.map AdvertisedRef.head)
    {report : PullReport} (htransferred : Transferred B config requested known effective L expected
      ⟨path, before, .ask (.getRefs config.context), Except.ok wire, after⟩ (.ok report) s) :
    Keeps (Fair B config effective limits responseLimit L) (ImportsSucceed config)
      (call (.replaceRemoteRefSnapshot config.peer config.context snapshot.refs) .store >>=
        fun updated ↦ Fallible.ofExcept (.ok { report with remoteRefsUpdated := updated }) :
          Pulling PullReport).run (Converged B config L) s := by
  obtain ⟨report', M, S, plan, hreport, hopening, hmeeting, hfrontier, hplan, heffective, hheld,
    hpulled, himports⟩ := htransferred
  apply Keeps.attemptOk himports
  intro answer s' occurs
  obtain ⟨path', before', M', S', hturns, ⟨final, hexecute, hnow⟩, hmeeting', hM, hS⟩ :=
    hmeeting.turn occurs.1
  have hwell := hmeeting'.clientWellFormed
  have hplan' := Ledger.planOn_mono hmeeting.serverWellFormed hmeeting'.serverWellFormed hS.events
    hplan
  obtain ⟨hholds, -⟩ := Transferred.history hmeeting' hplan'
    (fun head hhead ↦ (heffective head hhead).mono hM.events)
    (fun event hevent ↦ (hheld event hevent).mono hM.events) hpulled
  have htargets : ∀ item ∈ snapshot.refs, M'.Holds config.context item.head := by
    intro item hitem
    exact hholds _ ⟨item.head, (hrequested _).mpr (List.mem_map_of_mem hitem), .refl⟩
  have hactive : ∃ r, M'.registration config.context = some r ∧ r.active = true := by
    obtain ⟨head, hhead⟩ := List.exists_mem_of_ne_nil _ hfrontier.heads.nonempty
    obtain ⟨e, he, -, hcontext⟩ := hholds head ⟨head, hhead, .refl⟩
    rw [← hcontext]
    exact hwell.registration_of_mem he
  -- the replacement changes no event
  obtain ⟨M₂, count, hbody, hwell₂, hextends, hevents⟩ : ∃ (M₂ : Ledger B) (count : ℕ),
      (Operation.replaceRemoteRefSnapshot config.peer config.context snapshot.refs).body B
        M'.tables = .ok (M₂.tables, count) ∧ M₂.WellFormed ∧ M'.Extends M₂ ∧
        M₂.events = M'.events := by
    have hreplaced : replaceRemoteRefSnapshot B config.peer config.context snapshot.refs M'.tables =
        .ok (_, _) := (Ledger.replaceRemoteRefSnapshot_eq_ok hwell).mpr
          ⟨hrefs.1, hrefs.2, hactive, htargets, rfl, rfl⟩
    obtain ⟨remoteRefs, hframe⟩ :=
      Ledger.replaced_frame M' config.peer config.context snapshot.refs
    have hsteps := @Ledger.Steps.replaced B M' config.peer _ _ htargets
    split_ifs at hreplaced
    · exact ⟨M', _, hreplaced, hwell, .refl M', rfl⟩
    · exact ⟨_, _, hreplaced, hsteps.wellFormed hwell, hsteps.extends, by rw [hframe]⟩
  rw [hmeeting'.client, Operation.execute, (transact_ok hbody).1] at hexecute
  obtain ⟨rfl, rfl⟩ := Prod.mk.inj hexecute
  have hquiet (row : EventRow) : Pulled s'.turns row ↔ Pulled s.turns row ∨
      row ∈ M₂.tables.events ∧ row ∉ M'.tables.events := by
    rw [hturns, pulled_append]
    dsimp only
    rw [hnow, hmeeting'.client]
  have hmeeting₂ := hmeeting'.pulls hwell₂ hextends (by rw [hevents]; exact hmeeting'.agree) hquiet
  rw [← hnow] at hmeeting₂
  obtain ⟨hhistory, hexact⟩ := Transferred.history hmeeting₂ hplan'
    (fun head hhead ↦ (heffective head hhead).mono (hM.trans hextends).events)
    (fun event hevent ↦ (hheld event hevent).mono (hM.trans hextends).events) fun e hrow ↦ by
      rw [hquiet, Ledger.mem_tables_events, Ledger.mem_tables_events, hevents, and_not_self_iff,
        or_false] at hrow
      exact hpulled e hrow
  have himports' : ImportsSucceed config s' := himports.snoc hturns fun _ _ _ _ _ _ hturn ↦ by
    cases hturn
  have hbelow (id : EventId) :
      S'.Below requested id ↔ ∃ item ∈ snapshot.refs, S'.Ancestor item.head id := by
    unfold Ledger.Below
    simp only [hrequested, List.mem_map, exists_exists_and_eq_and]
  refine ⟨count, rfl, himports', _, path, before, after, wire, snapshot, M₂, S', rfl, ?_, hsnapshot,
    ⟨hmeeting₂.client, hwell₂⟩, ⟨hmeeting₂.server, hmeeting₂.serverWellFormed⟩,
    fun item hitem id hid ↦ ?_, fun e ↦ ?_⟩
  · rw [hturns]
    exact List.mem_append_left _ hopening
  · exact hhistory id ((hbelow id).mpr ⟨item, hitem, hid⟩)
  · rw [hexact e, hbelow]

/-- In a favourable meeting every import succeeds and the pull converges. -/
theorem pull_fair (hlimits : config.limits.Checked)
    (hstart : Meeting L config.context expected (Pulled []) ⟨M.tables, S.tables, []⟩ M S) :
    Keeps (Fair B config effective limits responseLimit L) (ImportsSucceed config)
      (pull B config).run (Converged B config L) ⟨[], ⟨M.tables, S.tables, []⟩⟩ := by
  have himports : ImportsSucceed config ⟨[], ⟨M.tables, S.tables, []⟩⟩ :=
    fun _ _ _ _ _ _ hturn ↦ absurd hturn List.not_mem_nil
  rw [pull]
  -- the refs of the server
  apply Keeps.attemptOk himports
  intro answer s₁ occurs₁
  obtain ⟨path, M₁, S₁, hturns₁, ⟨-, hanswer⟩, hmeeting₁, hM₁, hS₁, hquiet₁, himports₁⟩ :=
    Fair.reads (reads_ask _) hstart himports occurs₁
  have hopening : ⟨path, s₁.now, .ask (.getRefs config.context), answer, s₁.now⟩ ∈ s₁.turns := by
    rw [hturns₁]
    exact List.mem_append_right _ (List.mem_singleton_self _)
  have hwell₁ := hmeeting₁.serverWellFormed
  obtain ⟨⟨body, rfl⟩, hserver⟩ := occurs₁.2.1.refs _ _ _ _ hopening
  obtain ⟨hsome, htrusted⟩ := hserver S₁ hwell₁ hmeeting₁.server
  have hserved : getRefs B S₁.tables config.context = .ok body := by
    rw [hmeeting₁.server] at hanswer
    exact (readResponse_eq_ok.mp hanswer.symm).1
  obtain ⟨-, hfew, snapshot, hsnapshot, hcontext, hadvertised⟩ := getRefs_eq_ok hwell₁ hserved
  have hrefs : snapshot.refs.length ≤ MAX_BUNDLE_REFS ∧ Canonical refKey snapshot.refs := by
    rw [hadvertised]
    exact ensure_eq_ok.mp (validateRefs_advertised hwell₁ hfew)
  refine ⟨body, rfl, ?_⟩
  apply Keeps.ofOk hsnapshot
  apply Keeps.ofOk (ensure_true hcontext)
  -- the heads that the client knows
  apply Keeps.attemptOk himports₁
  intro answer₂ s₂ occurs₂
  obtain ⟨path₂, M₂, S₂, hturns₂, ⟨-, hlocal⟩, hmeeting₂, hM₂, hS₂, hquiet₂, himports₂⟩ :=
    Fair.reads (reads_listLocalRefs _) hmeeting₁ himports₁ occurs₂
  rw [hmeeting₂.client, Ledger.listLocalRefs_tables hmeeting₂.clientWellFormed] at hlocal
  subst hlocal
  refine ⟨_, rfl, ?_⟩
  apply Keeps.attemptOk himports₂
  intro answer₃ s₃ occurs₃
  obtain ⟨path₃, M₃, S₃, hturns₃, ⟨-, hremote⟩, hmeeting₃, hM₃, hS₃, hquiet₃, himports₃⟩ :=
    Fair.reads (reads_listRemoteRefs _ _) hmeeting₂ himports₂ occurs₃
  obtain ⟨remote, hlisted, hmemRemote⟩ :=
    Ledger.listRemoteRefs_tables hmeeting₃.clientWellFormed config.peer config.context
  rw [hmeeting₃.client, hlisted] at hremote
  subst hremote
  refine ⟨_, rfl, ?_⟩
  have hfewKnown := occurs₃.2.1.known path₂ path₃ s₂.now s₃.now s₂.now s₃.now
    (M₂.localRefsOf config.context) remote
    (by rw [hturns₃, hturns₂]; exact List.mem_append_left _ (List.mem_append_right _
      (List.mem_singleton_self _)))
    (by rw [hturns₃]; exact List.mem_append_right _ (List.mem_singleton_self _))
  apply Keeps.ofOk (ensure_true hfewKnown)
  have hrequested (id : EventId) : id ∈ normalize (EventId.text B)
      (snapshot.refs.map AdvertisedRef.head) ↔ id ∈ snapshot.refs.map AdvertisedRef.head :=
    mem_normalize
  have hopened := ((Frontier.opened hwell₁ hadvertised hsome hrefs.1 fun e he hbelow ↦
    hmeeting₁.grown.authors _ (htrusted e he hbelow)).grow hwell₁ hmeeting₂.serverWellFormed hM₂
      hS₂).grow hmeeting₂.serverWellFormed hmeeting₃.serverWellFormed hM₃ hS₃
  rw [if_neg hopened.heads.nonempty]
  have hfrontier := hopened.knows (normalize_canonical EventId.text_injective _) hfewKnown
    fun head hhead ↦ by
      rw [mem_normalize] at hhead
      rcases List.mem_append.mp hhead with hlocal | hremote
      · obtain ⟨ref, href, rfl⟩ := List.mem_map.mp hlocal
        obtain ⟨hmem, hcontext⟩ := Ledger.mem_localRefsOf.mp href
        have hheld := hmeeting₂.clientWellFormed.localTargets ref hmem
        exact (hcontext ▸ hheld).mono hM₃.events
      · obtain ⟨ref, href, rfl⟩ := List.mem_map.mp hremote
        obtain ⟨hmem, hcontext, -⟩ := (hmemRemote ref).mp href
        exact hcontext ▸ hmeeting₃.clientWellFormed.remoteTargets ref hmem
  obtain ⟨expectedHeads, hexpected⟩ :=
    requestedHeadFingerprint_total (B := B) config.context hfrontier.heads.validated.1
  apply Keeps.ofOk hexpected
  apply Keeps.bindT
  have hopening₃ : ⟨path, s₁.now, .ask (.getRefs config.context), Except.ok body, s₁.now⟩ ∈
      s₃.turns := by
    rw [hturns₃, hturns₂]
    exact List.mem_append_left _ (List.mem_append_left _ hopening)
  have hnothing (row : EventRow) : ¬ Pulled s₃.turns row := by
    rw [hquiet₃, hquiet₂, hquiet₁]
    rintro ⟨turn, hturn, -⟩
    exact List.not_mem_nil hturn
  refine (pullPages_converges hlimits hexpected hmeeting₃ hfrontier
    (@Reached.start B config M₃ [] s₃.turns hnothing) (Or.inl rfl) (.start effective) rfl
      (Nat.zero_add _) himports₃ hopening₃).mono fun result s' _ htransferred ↦ ?_
  obtain ⟨report, -, -, -, rfl, -⟩ := id htransferred
  exact publish_converges hsnapshot hrefs hrequested htransferred

/-- A pull from an honest server converges, whatever others write to the two stores in the meantime:
every import of a page succeeds, and a pull that has ended has ended well. The client then holds the
history of every branch that the server advertised, and the pull has added exactly what the client
did not hold of it and no one else has added. -/
theorem pull_converges (B : Boundary) (L S : Ledger B) (hclient : L.WellFormed)
    (hserver : S.WellFormed) (config : PullClientConfig) (hlimits : config.limits.Checked)
    (limits : TransportLimits) (expected : EventId)
    (hexpects : (∃ r, L.registration config.context = some r ∧ r.expected = expected) ∧
      ∃ r, S.registration config.context = some r ∧ r.expected = expected)
    (hagree : Agree L.tables S.tables) (effective : List EventId)
    (p : Program (Action PeerRequest) (Action.Answer PeerRequest.Reply)
      (Except SyncError PullReport)) (s : MeetingHistory)
    (hrun : Runs (Meets B limits config.transport.maxResponseBodyBytes) (pull B config).run
      ⟨[], ⟨L.tables, S.tables, []⟩⟩ p s)
    (hfavourable : Favourable B config effective L s.turns)
    (hempty : EmptyFits B config effective s.turns)
    (hunmarked : PlanUnmarked B config effective s.turns) :
    ImportsSucceed config s ∧ ∀ result, p = .done result → Converged B config L result s := by
  have hstart : Meeting L config.context expected (Pulled []) ⟨L.tables, S.tables, []⟩ L S := by
    have hnone (row : EventRow) : ¬ Pulled [] row := by
      rintro ⟨turn, hturn, -⟩
      exact List.not_mem_nil hturn
    exact {
      client := rfl
      server := rfl
      clientWellFormed := hclient
      serverWellFormed := hserver
      agree := (agree_tables hclient hserver).mp hagree
      clientGenesis := hexpects.1
      serverGenesis := hexpects.2
      grown := .refl L
      added := fun _ hrow ↦ absurd hrow List.not_mem_nil
      whence := fun _ he ↦ Or.inl he
      fresh := fun e hrow ↦ absurd hrow (hnone e.row) }
  have hback : ∀ action (t : MeetingHistory) answer t',
      Meets B limits config.transport.maxResponseBodyBytes action t answer t' →
        Favourable B config effective L t'.turns ∧ EmptyFits B config effective t'.turns ∧
            PlanUnmarked B config effective t'.turns →
          Favourable B config effective L t.turns ∧ EmptyFits B config effective t.turns ∧
            PlanUnmarked B config effective t.turns := by
    rintro action t answer t' occurs ⟨hfair, hfits, hclear⟩
    obtain ⟨path, before, -, -, hturns⟩ := occurs
    rw [hturns] at hfair hfits hclear
    exact ⟨hfair.front, hfits.front, hclear.front⟩
  have hkeeps :=
    (hrun.within hback ⟨hfavourable, hempty, hunmarked⟩).keeps (pull_fair hlimits hstart)
  refine ⟨hkeeps.invariant, ?_⟩
  rintro result rfl
  exact hkeeps.2

/-! ### Runs of one page -/

/-- A turn in which the client has called its store. -/
def Calls (turn : MeetingTurn) : Prop :=
  ∃ (path : List Exchange) (before after : Exchange) (operation : Operation)
    (answer : Except StoreError operation.Result),
    turn = ⟨path, before, .call operation, answer, after⟩

variable (B config) in
/-- The turns of a pull that has asked for one page. -/
def OnePage (w : Exchange) (known : List EventId) (asked body : Bytes)
    (turns : List MeetingTurn) : Prop :=
  ∃ (opened : Bytes) («local» : List LocalRef) (remote : List RemoteRef)
    (calls : List MeetingTurn),
    turns = openingTurns config w opened «local» remote ++
      ⟨[], w, .ask (.postExport asked), Except.ok body, w⟩ :: calls ∧
    (∀ turn ∈ calls, Calls turn) ∧
    normalize (EventId.text B) («local».map LocalRef.head ++ remote.map RemoteRef.head) = known

section OnePage

variable {w : Exchange} {opened asked body : Bytes} {«local» : List LocalRef}
  {remote : List RemoteRef} {calls : List MeetingTurn}

/-- The only page request of such turns. -/
theorem mem_turns_postExport (hcalls : ∀ turn ∈ calls, Calls turn) {path : List Exchange}
    {before after : Exchange} {wire : Bytes} {answer : Except SyncError Bytes}
    (h : ⟨path, before, .ask (.postExport wire), answer, after⟩ ∈
      openingTurns config w opened «local» remote ++
        ⟨[], w, .ask (.postExport asked), Except.ok body, w⟩ :: calls) :
    before = w ∧ wire = asked ∧ answer = .ok body := by
  simp only [openingTurns, List.cons_append, List.nil_append, List.mem_cons] at h
  rcases h with h | h | h | h | h
  · cases h
  · cases h
  · cases h
  · cases h
    exact ⟨rfl, rfl, rfl⟩
  · obtain ⟨path', before', after', operation, answer', hturn⟩ := hcalls _ h
    cases hturn

/-- An opening, one answered page and calls make a favourable meeting. -/
theorem Favourable.of_turns (hS : S.WellFormed) (hserver : w.server = S.tables)
    (hsome : S.localRefsOf config.context ≠ [])
    (hauthors : ∀ e ∈ S.events, (config.context, e.author) ∈ L.authors)
    (hknown : (normalize (EventId.text B) («local».map LocalRef.head ++
      remote.map RemoteRef.head)).length ≤ MAX_BUNDLE_REFS)
    (hcalls : ∀ turn ∈ calls, Calls turn) {request : ExportRequest}
    (hasked : ExportRequest.fromWire B asked = .ok request)
    (heffective : S.heldHeads config.context request.knownHeads = effective)
    (hbudget : ∀ plan, planOn B S.tables config.context request.requestedHeads effective =
      .ok plan → ∃ count ≤ config.limits.maxPages,
        Pages B config.context config.limits plan 0 count plan.length) :
    Favourable B config effective L (openingTurns config w opened «local» remote ++
      ⟨[], w, .ask (.postExport asked), Except.ok body, w⟩ :: calls) where
  refs := by
    intro path before after answer hturn
    simp only [openingTurns, List.cons_append, List.nil_append, List.mem_cons] at hturn
    rcases hturn with h | h | h | h | h
    · cases h
      refine ⟨⟨opened, rfl⟩, fun S' hS' hsame ↦ ?_⟩
      have htables : S.tables = S'.tables := hserver.symm.trans hsame
      have hrefs := Ledger.listLocalRefs_tables hS config.context
      rw [htables, Ledger.listLocalRefs_tables hS', Except.ok.injEq] at hrefs
      refine ⟨hrefs ▸ hsome, fun e he _ ↦ hauthors e ?_⟩
      rw [← Ledger.mem_tables_events, htables]
      exact Ledger.mem_tables_events.mpr he
    · cases h
    · cases h
    · cases h
    · obtain ⟨path', before', after', operation, answer', hturn⟩ := hcalls _ h
      cases hturn
  known := by
    intro path path' before before' after after' locals remotes hlocal hremote
    simp only [openingTurns, List.cons_append, List.nil_append, List.mem_cons] at hlocal hremote
    have hlocals : locals = «local» := by
      rcases hlocal with h | h | h | h | h
      · cases h
      · cases h
        rfl
      · cases h
      · cases h
      · obtain ⟨_, _, _, _, _, hturn⟩ := hcalls _ h
        cases hturn
    have hremotes : remotes = remote := by
      rcases hremote with h | h | h | h | h
      · cases h
      · cases h
      · cases h
        rfl
      · cases h
      · obtain ⟨_, _, _, _, _, hturn⟩ := hcalls _ h
        cases hturn
    rw [hlocals, hremotes]
    exact hknown
  pages := by
    intro path before after wire answer hturn
    obtain ⟨rfl, rfl, rfl⟩ := mem_turns_postExport hcalls hturn
    refine ⟨⟨body, rfl⟩, fun request' hrequest' ↦ ?_⟩
    obtain rfl : request = request' := Except.ok.inj (hasked.symm.trans hrequest')
    rw [hserver, Ledger.effectiveKnown_tables hS.toWellKeyed, heffective]
    exact ⟨rfl, hbudget⟩

/-- A meeting of one page, the last, is favourable. -/
theorem Answered.favourable (hS : S.WellFormed) (hlimits : config.limits.Checked)
    (hheads : Heads B requested known) (hsome : S.localRefsOf config.context ≠ [])
    (hauthors : ∀ e ∈ S.events, (config.context, e.author) ∈ L.authors) {expectedHeads : String}
    (answered : Answered B limits responseLimit config requested known expectedHeads S .start 0)
    (hlast : answered.next = none) {M : Ledger B} {turns : List MeetingTurn}
    (hturns : OnePage B config ⟨M.tables, S.tables, []⟩ known answered.wire answered.body turns) :
    Favourable B config (S.heldHeads config.context known) L turns ∧
      (answered.plan ≠ [] → EmptyFits B config (S.heldHeads config.context known) turns) ∧
      ((∀ event ∈ answered.plan, event.Unmarked B) →
        PlanUnmarked B config (S.heldHeads config.context known) turns) := by
  obtain ⟨opened, «local», remote, calls, rfl, hcalls, hlisted⟩ := hturns
  have hrendered := rendered_start B
  obtain ⟨-, wire, hwire, -, hread⟩ := hheads.request hlimits hrendered
  obtain rfl : answered.wire = wire := Except.ok.inj (answered.rendered.symm.trans hwire)
  refine ⟨?_, ?_, ?_⟩
  · refine .of_turns hS rfl hsome hauthors (hlisted ▸ hheads.fewKnown) hcalls hread rfl
      fun plan hplan ↦ ?_
    obtain rfl : answered.plan = plan := Except.ok.inj (answered.planned.symm.trans hplan)
    obtain ⟨⟨-, -, hnonzero, -⟩, -⟩ := PullLimits.new_eq_ok.mp hlimits
    have haccepted := answered.accepted
    rw [hlast] at haccepted
    have hend : 0 + answered.response.bundle.events.length = answered.plan.length :=
      haccepted.advances
    by_cases hempty : answered.plan = []
    · rw [hempty]
      exact ⟨0, Nat.zero_le _, .refl 0⟩
    · refine ⟨1, Nat.one_le_iff_ne_zero.mpr hnonzero, .page (haccepted.page hempty) ?_⟩
      rw [hend]
      exact .refl _
  · intro hplan path before after wire' answer hturn request hrequest hnone
    obtain ⟨rfl, rfl, -⟩ := mem_turns_postExport hcalls hturn
    obtain rfl := Except.ok.inj (hread.symm.trans hrequest)
    exact absurd (Except.ok.inj (answered.planned.symm.trans hnone)) hplan
  · intro hunmarked path before after wire' answer hturn request hrequest plan hplan
    obtain ⟨rfl, rfl, -⟩ := mem_turns_postExport hcalls hturn
    obtain rfl := Except.ok.inj (hread.symm.trans hrequest)
    rwa [← Except.ok.inj (answered.planned.symm.trans hplan)]

/-- The end of a pull is one call. -/
theorem publish_calls {refs : List AdvertisedRef} {report : PullReport} (s : MeetingHistory) :
    Keeps (Undisturbed B limits responseLimit) (fun _ ↦ True) (publish config refs report).run
      (fun _ s' ↦ ∃ turn, Calls turn ∧ s'.turns = s.turns ++ [turn]) s := by
  rw [publish]
  apply Keeps.attempt trivial
  · intro answer s' error occurs _
    exact ⟨trivial, _, ⟨_, _, _, _, _, rfl⟩, occurs.turn.2⟩
  · intro answer s' value occurs _
    exact ⟨trivial, _, ⟨_, _, _, _, _, rfl⟩, occurs.turn.2⟩

/-- A pull whose first page is the last asks for one page, and fails when it cannot import it. -/
theorem pull_onePage (hL : L.WellFormed) (hS : S.WellFormed) (hlimits : config.limits.Checked)
    (hopened : Opens B limits responseLimit config L S)
    (hsome : requestedHeads S config.context ≠ [])
    (hrequested : requestedHeads S config.context = requested)
    (hknown : knownHeads L config = known) {expectedHeads : String}
    (hexpected : requestedHeadFingerprint B config.context requested = .ok expectedHeads)
    (answered : Answered B limits responseLimit config requested known expectedHeads S .start 0)
    (hlast : answered.next = none) :
    Keeps (Undisturbed B limits responseLimit) (fun _ ↦ True) (pull B config).run
      (fun result s ↦ OnePage B config ⟨L.tables, S.tables, []⟩ known answered.wire answered.body
          s.turns ∧
        ((∃ error, importBundle B config.peer answered.bundleWire
          ⟨config.limits.maxEvents, config.limits.maxBundleBytes, MAX_BUNDLE_REFS⟩ L.tables =
            .error error) → ∀ report, result ≠ .ok report))
      ⟨[], ⟨L.tables, S.tables, []⟩⟩ := by
  subst hrequested hknown
  have hheads := hopened.heads hS hsome
  have hrendered := rendered_start B
  obtain ⟨⟨-, -, hnonzero, -⟩, -⟩ := PullLimits.new_eq_ok.mp hlimits
  obtain ⟨left, hleft⟩ := Nat.exists_eq_succ_of_ne_zero hnonzero
  apply hopened.pull hL hS hsome
  intro opened «local» remote expectedHeads' _ hlocal hremote hexpected'
  obtain rfl : expectedHeads = expectedHeads' := Except.ok.inj (hexpected.symm.trans hexpected')
  have hlisted := knownHeads_listed hL hlocal hremote
  rw [hleft]
  cases himports : importBundle B config.peer answered.bundleWire
      ⟨config.limits.maxEvents, config.limits.maxBundleBytes, MAX_BUNDLE_REFS⟩ L.tables with
  | error error =>
    apply answered.stops hlimits hheads hrendered himports
    intro failed
    refine ⟨⟨opened, «local», remote, _, rfl, ?_, hlisted⟩, fun _ report ↦ nofun⟩
    intro turn hturn
    rw [List.mem_singleton.mp hturn]
    exact ⟨_, _, _, _, _, rfl⟩
  | ok outcome =>
    obtain ⟨round, rfl, -⟩ := answered.round hL hS (.start _) (by decide : 0 < MAX_PULL_PAGES)
      himports
    apply round.completes hlimits hheads hrendered hlast
    refine (publish_calls _).mono fun result s _ hpublished ↦ ?_
    obtain ⟨turn, hcalls, hturns⟩ := hpublished
    refine ⟨⟨opened, «local», remote, [_, turn], hturns, ?_, hlisted⟩, ?_⟩
    · intro other hother
      rcases List.mem_pair.mp hother with rfl | rfl
      · exact ⟨_, _, _, _, _, rfl⟩
      · exact hcalls
    · rintro ⟨error, herror⟩
      cases herror

end OnePage

section Golden

open Reference

/-- A pull of the fixture in one page of two events, with so many bytes. -/
def onePagePull (bytes : ℕ) : PullClientConfig :=
  ⟨Golden.peer, Golden.context, ⟨2, bytes, 1⟩, .default⟩

theorem onePagePull_checked {bytes : ℕ} (h : bytes ≠ 0 ∧ bytes ≤ MAX_BUNDLE_CANONICAL_BYTES) :
    (onePagePull bytes).limits.Checked :=
  PullLimits.new_eq_ok.mpr ⟨⟨(by decide : 2 ≠ 0 ∧ 2 ≤ MAX_BUNDLE_EVENTS), h,
    (by decide : 1 ≠ 0 ∧ 1 ≤ MAX_PULL_PAGES)⟩, rfl⟩

theorem onePagePull_requested (bytes : ℕ) :
    requestedHeads Golden.advanced (onePagePull bytes).context = [Golden.second.id] :=
  normalize_eq_self (canonical_singleton _ _)

/-- A client that knows few heads opens a pull from the fixture and requests its one head. -/
theorem advanced_ready (limits : TransportLimits) {L : Ledger Golden.B} {bytes : ℕ}
    {known : List EventId} (hknown : knownHeads L (onePagePull bytes) = known)
    (hfew : known.length ≤ MAX_BUNDLE_REFS) :
    Opens Golden.B limits MAX_SYNC_RESPONSE_BODY_BYTES (onePagePull bytes) L Golden.advanced ∧
      requestedHeads Golden.advanced (onePagePull bytes).context ≠ [] ∧
      Heads Golden.B [Golden.second.id] known ∧ ∃ expectedHeads,
        requestedHeadFingerprint Golden.B Golden.context [Golden.second.id] =
          .ok expectedHeads := by
  obtain ⟨wire, hwire⟩ := getRefs_succeeds Golden.advanced_wellFormed advanced_active
    (by decide : 1 ≤ MAX_BUNDLE_REFS)
  have hopened : Opens Golden.B limits MAX_SYNC_RESPONSE_BODY_BYTES (onePagePull bytes) L
      Golden.advanced :=
    ⟨⟨wire, serve_getRefs.mpr ⟨hwire, length_getRefs_le hwire⟩⟩, hknown ▸ hfew⟩
  have hsome : requestedHeads Golden.advanced (onePagePull bytes).context ≠ [] :=
    onePagePull_requested bytes ▸ List.cons_ne_nil _ _
  have hheads := hopened.heads Golden.advanced_wellFormed hsome
  rw [onePagePull_requested, hknown] at hheads
  exact ⟨hopened, hsome, hheads, requestedHeadFingerprint_total Golden.context hheads.validated.1⟩

/-- The plan of the fixture for its one head is all of it, or nothing when the client knows the
head. -/
theorem advanced_planned {known : List EventId} (hfew : known.length ≤ MAX_BUNDLE_REFS)
    (hknown : known = [] ∨ Golden.second.id ∈ known) :
    ∃ plan, planOn Golden.B Golden.advanced.tables Golden.context [Golden.second.id]
        (Golden.advanced.heldHeads Golden.context known) = .ok plan ∧
      (known = [] → plan = wholePlan) ∧ (Golden.second.id ∈ known → plan = []) := by
  have hwell := Golden.advanced_wellFormed
  have hheld : Golden.advanced.Holds Golden.context Golden.second.id :=
    ⟨_, second_stored, rfl, rfl⟩
  rcases hknown with rfl | hknown
  · exact ⟨wholePlan, whole_planned, fun _ ↦ rfl, fun hmem ↦ absurd hmem List.not_mem_nil⟩
  have hkept : (Golden.advanced.heldHeads Golden.context known).length ≤ MAX_BUNDLE_EVENTS :=
    ((List.length_filter_le _ _).trans hfew).trans (by decide)
  obtain ⟨plan, hplan⟩ := Ledger.planOn_of_few hwell (by decide : 2 ≤ 32)
    (List.cons_ne_nil Golden.second.id []) ⟨(by decide : 1 ≤ MAX_BUNDLE_EVENTS), hkept⟩
    (fun head hhead ↦ List.mem_singleton.mp hhead ▸ hheld)
    fun head hhead ↦ ((Ledger.mem_heldHeads hwell.toWellKeyed).mp hhead).2
  obtain ⟨-, -, es, rfl, hdifference⟩ := Ledger.planOn_tables hwell hplan
  refine ⟨_, hplan, fun hnone ↦ absurd hknown (hnone ▸ List.not_mem_nil), fun _ ↦ ?_⟩
  rw [List.map_eq_nil_iff, List.eq_nil_iff_forall_not_mem]
  intro e he
  obtain ⟨-, ⟨head, hhead, hancestor⟩, hunknown⟩ := (hdifference.mem_stored hwell).mp he
  obtain rfl := List.mem_singleton.mp hhead
  exact hunknown ⟨_, (Ledger.mem_heldHeads hwell.toWellKeyed).mpr ⟨hknown, hheld⟩, hancestor⟩

/-- A page with room for it takes all of the plan. -/
theorem whole_pageAt (pages : ℕ) : PageAt Golden.B Golden.context
    ⟨2, MAX_BUNDLE_CANONICAL_BYTES, pages⟩ wholePlan 0 2 := by
  obtain ⟨one, wire, hone, hwire, hfits⟩ :=
    Ledger.encodes_few Golden.advanced_wellFormed whole_planned whole_unmarked 0 (by decide : 1 ≤ 7)
  obtain ⟨two, wire', htwo, hwire', hfits'⟩ :=
    Ledger.encodes_few Golden.advanced_wellFormed whole_planned whole_unmarked 0 (by decide : 2 ≤ 7)
  refine ⟨two, ?_⟩
  change searchPage Golden.B Golden.context (wholePlan.drop 0) MAX_BUNDLE_CANONICAL_BYTES 1 2
    none = _
  rw [searchPage, dif_pos (by decide)]
  dsimp only
  rw [hone, ok_bind, hwire, ok_bind, if_pos hfits, searchPage, dif_pos (by decide)]
  dsimp only
  rw [htwo, ok_bind, hwire', ok_bind, if_pos hfits', searchPage, dif_neg (by decide)]

/-- The fixture answers the page, the last, when the page has room for the plan or the client knows
the head. -/
theorem advanced_answers (limits : TransportLimits) {bytes : ℕ} {known : List EventId}
    (hchecked : (onePagePull bytes).limits.Checked)
    (hheads : Heads Golden.B [Golden.second.id] known)
    (hrequest : ∀ wire, (PullState.start.request (onePagePull bytes) [Golden.second.id]
      known).toWire Golden.B = .ok wire → wire.length ≤ limits.maxRequestBodyBytes)
    (hresponse : limits.maxResponseBodyBytes = MAX_SYNC_RESPONSE_BODY_BYTES)
    (hknown : known = [] ∧ bytes = MAX_BUNDLE_CANONICAL_BYTES ∨ Golden.second.id ∈ known)
    {expectedHeads : String} (hexpected : requestedHeadFingerprint Golden.B Golden.context
      [Golden.second.id] = .ok expectedHeads) :
    ∃ answered : Answered Golden.B limits MAX_SYNC_RESPONSE_BODY_BYTES (onePagePull bytes)
        [Golden.second.id] known expectedHeads Golden.advanced .start 0,
      answered.next = none ∧ (known = [] → answered.plan = wholePlan) ∧
        (Golden.second.id ∈ known → answered.plan = []) := by
  obtain ⟨plan, hplan, hwhole, hnone⟩ :=
    advanced_planned hheads.fewKnown (hknown.imp_left And.left)
  have hstart : Stands Golden.B (onePagePull bytes) [Golden.second.id]
    (Golden.advanced.heldHeads Golden.context known) 0 .start := .start _
  obtain ⟨answered⟩ : Nonempty (Answered Golden.B limits MAX_SYNC_RESPONSE_BODY_BYTES
      (onePagePull bytes) [Golden.second.id] known expectedHeads Golden.advanced .start 0) :=
    Answered.of_few Golden.advanced_wellFormed (by decide : 2 ≤ 7) advanced_unmarked hchecked hheads
      hstart hexpected ⟨hrequest, hresponse, hresponse.le,
        hknown.imp And.right fun hmem ↦ hnone hmem ▸ hplan⟩ advanced_active
      (fun head hhead ↦ ⟨_, second_stored, (List.mem_singleton.mp hhead).symm, rfl⟩)
      (fun plan' _ ↦ by
        cases plan' with
        | nil => exact Or.inr ⟨rfl, rfl⟩
        | cons event rest => exact Or.inl (Nat.succ_pos _)) golden_flag
  obtain rfl : plan = answered.plan := Except.ok.inj (hplan.symm.trans answered.planned)
  refine ⟨answered, ?_, hwhole, hnone⟩
  cases hnext : answered.next with
  | none => rfl
  | some next =>
    have haccepted := answered.accepted
    rw [hnext] at haccepted
    obtain ⟨nextOffset, fingerprint, cursor⟩ := next
    obtain ⟨-, hmore, -⟩ := haccepted.advances
    rcases hknown with ⟨hempty, rfl⟩ | hmem
    · have hpage := haccepted.page (List.ne_nil_of_length_pos (Nat.zero_lt_of_lt hmore))
      rw [hwhole hempty] at hpage hmore
      rw [← (whole_pageAt 1).unique hpage] at hmore
      exact absurd hmore (lt_irrefl 2)
    · rw [hnone hmem] at hmore
      exact absurd hmore (Nat.not_lt_zero _)

theorem rooted_agrees : Agree Golden.rooted.tables Golden.advanced.tables := by
  refine (agree_tables Golden.rooted_wellFormed Golden.advanced_wellFormed).mpr
    fun e he f hf hid ↦ ?_
  rw [List.mem_singleton.mp he] at hid ⊢
  rw [Golden.advanced_wellFormed.event_eq_of_id List.mem_cons_self hf hid]

theorem advanced_authors : ∀ e ∈ Golden.advanced.events,
    (Golden.context, e.author) ∈ Golden.advanced.authors := by
  intro e he
  rcases List.mem_pair.mp he with rfl | rfl
  · exact List.mem_singleton_self _
  · exact List.mem_singleton_self _

/-- A client that holds the genesis behind no ref converges to the fixture: its one page carries the
genesis, too. -/
theorem pull_converges_rooted : ∃ (result : Except SyncError PullReport) (s : MeetingHistory),
    Runs (Meets Golden.B .default MAX_SYNC_RESPONSE_BODY_BYTES)
      (pull Golden.B (onePagePull MAX_BUNDLE_CANONICAL_BYTES)).run
      ⟨[], ⟨Golden.rooted.tables, Golden.advanced.tables, []⟩⟩ (.done result) s ∧
    ImportsSucceed (onePagePull MAX_BUNDLE_CANONICAL_BYTES) s ∧
    Converged Golden.B (onePagePull MAX_BUNDLE_CANONICAL_BYTES) Golden.rooted result s := by
  have hclient := Golden.rooted_wellFormed
  have hserver := Golden.advanced_wellFormed
  have hchecked : (onePagePull MAX_BUNDLE_CANONICAL_BYTES).limits.Checked :=
    onePagePull_checked (by decide)
  have hknown : knownHeads Golden.rooted (onePagePull MAX_BUNDLE_CANONICAL_BYTES) = [] := rfl
  have hrequested := onePagePull_requested MAX_BUNDLE_CANONICAL_BYTES
  obtain ⟨hopened, hsome, hheads, expectedHeads, hexpected⟩ :=
    advanced_ready .default hknown (Nat.zero_le _)
  obtain ⟨answered, hlast, hplan, -⟩ := advanced_answers .default hchecked hheads
    (hheads.length_request_le hchecked (rendered_start _)) rfl (Or.inl ⟨rfl, rfl⟩) hexpected
  obtain ⟨result, s, hrun⟩ := Runs.finishes Undisturbed.total
    (pull Golden.B (onePagePull MAX_BUNDLE_CANONICAL_BYTES)).run
    ⟨[], ⟨Golden.rooted.tables, Golden.advanced.tables, []⟩⟩
  obtain ⟨hturns, -⟩ := hrun.post (pull_onePage hclient hserver hchecked hopened hsome hrequested
    hknown hexpected answered hlast)
  obtain ⟨hfavourable, hempty, hunmarked⟩ := answered.favourable (L := Golden.rooted) hserver
    hchecked hheads (List.cons_ne_nil _ _) advanced_authors hlast hturns
  have hmeets := hrun.mono fun _ _ _ _ occurs ↦ occurs.meets
  obtain ⟨himports, hconverged⟩ := pull_converges Golden.B Golden.rooted Golden.advanced hclient
    hserver _ hchecked .default Golden.first.id ⟨⟨_, rfl, rfl⟩, _, rfl, rfl⟩ rooted_agrees _ _ s
    hmeets hfavourable (hempty (hplan rfl ▸ List.cons_ne_nil _ _))
    (hunmarked (hplan rfl ▸ whole_unmarked))
  exact ⟨result, s, hmeets, himports, hconverged result rfl⟩

/-- A client that holds what the server advertises is sent a page without events. The bundle around
it is longer than the bound on its bytes, so the import of the page fails, and the pull with it. -/
theorem advanced_refuses : ∃ (effective : List EventId) (result : Except SyncError PullReport)
    (s : MeetingHistory),
    Runs (Meets Golden.B .default MAX_SYNC_RESPONSE_BODY_BYTES) (pull Golden.B (onePagePull 1)).run
      ⟨[], ⟨Golden.advanced.tables, Golden.advanced.tables, []⟩⟩ (.done result) s ∧
    Favourable Golden.B (onePagePull 1) effective Golden.advanced s.turns ∧
    PlanUnmarked Golden.B (onePagePull 1) effective s.turns ∧ ∀ report, result ≠ .ok report := by
  have hwell := Golden.advanced_wellFormed
  have hchecked : (onePagePull 1).limits.Checked := onePagePull_checked (by decide)
  have hknown : knownHeads Golden.advanced (onePagePull 1) = [Golden.second.id] :=
    normalize_eq_self (canonical_singleton _ _)
  obtain ⟨hopened, hsome, hheads, expectedHeads, hexpected⟩ :=
    advanced_ready .default hknown (by decide : 1 ≤ MAX_BUNDLE_REFS)
  obtain ⟨answered, hlast, -, hplan⟩ := advanced_answers .default hchecked hheads
    (hheads.length_request_le hchecked (rendered_start _)) rfl
    (Or.inr (List.mem_singleton_self _)) hexpected
  have herror : ∃ error, importBundle Golden.B (onePagePull 1).peer answered.bundleWire
      ⟨(onePagePull 1).limits.maxEvents, (onePagePull 1).limits.maxBundleBytes, MAX_BUNDLE_REFS⟩
      Golden.advanced.tables = .error error := by
    cases himports : importBundle Golden.B (onePagePull 1).peer answered.bundleWire
        ⟨(onePagePull 1).limits.maxEvents, (onePagePull 1).limits.maxBundleBytes, MAX_BUNDLE_REFS⟩
        Golden.advanced.tables with
    | error error => exact ⟨error, rfl⟩
    | ok outcome =>
      obtain ⟨⟨-, hfits, -⟩, -⟩ :=
        (importPage_eq_ok hwell answered.reads answered.bundled).mp himports
      have hlength := canonicalize_length (BundleV1.toWire_eq_ok.mp answered.bundled).1
      rw [hlength, BundleV1.length_toJson] at hfits
      change _ + 98 ≤ 1 at hfits
      omega
  obtain ⟨result, s, hrun⟩ := Runs.finishes Undisturbed.total (pull Golden.B (onePagePull 1)).run
    ⟨[], ⟨Golden.advanced.tables, Golden.advanced.tables, []⟩⟩
  obtain ⟨hturns, hfails⟩ := hrun.post (pull_onePage hwell hwell hchecked hopened hsome
    (onePagePull_requested 1) hknown hexpected answered hlast)
  obtain ⟨hfavourable, -, hunmarked⟩ := answered.favourable (L := Golden.advanced) hwell hchecked
    hheads (List.cons_ne_nil _ _) advanced_authors hlast hturns
  refine ⟨_, result, s, hrun.mono fun _ _ _ _ occurs ↦ occurs.meets, hfavourable,
    hunmarked fun event hevent ↦ ?_, hfails herror⟩
  rw [hplan (List.mem_singleton_self _)] at hevent
  exact absurd hevent List.not_mem_nil

end Golden

end ContextMesh.Sync
