import ContextMesh.Ledger.Reimport
import ContextMesh.Sync.Idempotence

/-!
A caller that repeats a call because it does not know whether the database committed it. The
repeated call finds its own effect in the store and reports success without another effect, so any
number of attempts leaves the tables of the call made once, or the tables from before.
-/

set_option autoImplicit false
set_option relaxedAutoImplicit false

namespace ContextMesh.Store

open Checked Ordered Keyed Contract

variable {B : Boundary}

/-! ### Repeated calls -/

/-- The database runs the transaction to its commit. -/
def Lands : Option Fault → Prop
  | none | some .unacknowledged => True
  | some (.refused _) | some .lost => False

instance : DecidablePred Lands
  | none | some .unacknowledged => isTrue trivial
  | some (.refused _) | some .lost => isFalse not_false

/-- What the caller sees of the outcome of a transaction. -/
def reply {α : Type} (outcome : Except StoreError α) : Option Fault → Except StoreError α
  | none => outcome
  | some (.refused error) => .error error
  | some .lost | some .unacknowledged => outcome.bind fun _ ↦ .error .indeterminateCommit

/-- Every call but the creation of a context is determined by its arguments. A new context draws new
entropy each time. -/
def Operation.Repeatable : Operation → Prop
  | createContext _ _ _ => False
  | _ => True

/-- What a repeated admission reports. -/
def RefMutation.repeated : RefMutation → AdmissionStatus
  | none => .alreadyPresent
  | compareAndSwap _ _ _ _ => .alreadyApplied

/-- What a call reports when it has been committed before. -/
def Operation.repeated : (operation : Operation) → operation.Result → operation.Result
  | provisionContext _, result | joinContext _, result | setRemoteRef _ _ _ _, result => result
  | createContext _ _ _, result => result
  | authorizeAuthor _ _, _ => false
  | admitEvent _ mutation, _ | admitWire _ mutation, _ => mutation.repeated
  | append _ _ _ _ _ _, event | merge _ _ _ _ _ _, event => event
  | createBranch _ _ _, ref => ref
  | importBundle _ _ _, (report : ImportReport) =>
    (⟨0, report.inserted + report.alreadyPresent, 0⟩ : ImportReport)
  | replaceRemoteRefSnapshot _ _ _, _ => (0 : ℕ)

variable (B) in
/-- The attempts of one call, each of which the database may fail, and what they reported. -/
def Operation.attempts (operation : Operation) : List (Option Fault) → Tables →
    Tables × List (Except StoreError operation.Result)
  | [], t => (t, [])
  | fault :: rest, t =>
    let (after, answer) := operation.execute B fault t
    let (final, answers) := operation.attempts rest after
    (final, answer :: answers)

/-- What attempts report whose outcome changes when one of them lands. -/
def replies {α : Type} (first again : Except StoreError α) :
    List (Option Fault) → List (Except StoreError α)
  | [] => []
  | fault :: rest => reply first fault :: replies (if Lands fault then again else first) again rest

theorem transact_landed {α : Type} {body : Tables → Except StoreError (Tables × α)}
    {t after : Tables} {value : α} (h : body t = .ok (after, value)) (fault : Option Fault) :
    transact fault body t = (if Lands fault then after else t, reply (.ok value) fault) := by
  rcases fault with _ | _ | _ | _ <;> simp [transact, reply, Lands, h, Except.bind]

theorem transact_failed {α : Type} {body : Tables → Except StoreError (Tables × α)}
    {t : Tables} {error : StoreError} (h : body t = .error error) (fault : Option Fault) :
    transact fault body t = (t, reply (.error error) fault) := by
  rcases fault with _ | _ | _ | _ <;> simp [transact, reply, h, Except.bind]

/-! ### The allowlist of a new context -/

/-- A canonical list is what sorting any arrangement of it gives. -/
theorem sort_of_perm {α κ : Type} [LinearOrder κ] {key : α → κ} {items other : List α}
    (h : Canonical key items) (hperm : items.Perm other) : sort key other = items := by
  have hdistinct : other.Pairwise fun a b ↦ key a ≠ key b :=
    hperm.pairwise ((canonical_iff_pairwise.mp h).imp fun hlt ↦ ne_of_lt hlt)
      fun hne ↦ Ne.symm hne
  refine (sort_canonical hdistinct).eq_of_mem_iff h fun a ↦ ?_
  rw [mem_sort, hperm.mem_iff]

namespace Ledger

variable {L : Ledger B} {t : Tables}

/-- The allowlist of a context is read back in the order of its texts. -/
theorem authorRows_tables {context : ContextId} {authors : List AuthorId}
    (hcanonical : Canonical (AuthorId.text B) authors)
    (hallowed : (L.authors.filter fun entry ↦ entry.1 = context).map Prod.snd = authors) :
    authorRows B L.tables context = .ok authors := by
  set entries := L.authors.filter fun entry ↦ entry.1 = context with hentries
  have hrows : (L.tables.authorizedAuthors.filter fun row ↦ row.contextId = cell context.bytes) =
      entries.map fun entry ↦ ⟨cell entry.1.bytes, cell entry.2.bytes⟩ := by
    simp only [tables, List.filter_map, hentries]
    congr 2
    funext entry
    simp
  rw [authorRows, hrows, sort_map, mapEach_map (f := fun row : AuthorRow ↦ authorValue row.authorId)
    (h := Prod.snd) (fun entry _ ↦ authorValue_cell _), ok_bind, sort_of_perm hcanonical]
  rw [← hallowed]
  exact ((sort_perm _ entries).map Prod.snd).symm

/-- A context that was just provisioned has its genesis and its allowlist. -/
theorem provision_reads (h : L.WellFormed) {provision : ContextProvision}
    (hvalid : validateAuthors B provision.authorizedAuthors = .ok ())
    (hfresh : L.registration provision.context = none) :
    contextRow (L.provision provision.context provision.expectedGenesis
        provision.authorizedAuthors).tables provision.context =
          .ok (some (provision.expectedGenesis, 0)) ∧
      authorRows B (L.provision provision.context provision.expectedGenesis
        provision.authorizedAuthors).tables provision.context =
          .ok provision.authorizedAuthors := by
  obtain ⟨hne, hnodup⟩ := validateAuthors_eq_ok hvalid
  have hcanonical : Canonical (AuthorId.text B) provision.authorizedAuthors := by
    obtain ⟨-, hvalid⟩ := unit_bind_eq_ok.mp hvalid
    obtain ⟨-, hvalid⟩ := unit_bind_eq_ok.mp hvalid
    exact ensure_eq_ok.mp hvalid
  have hM : (L.provision provision.context provision.expectedGenesis
      provision.authorizedAuthors).WellFormed := h.provision hfresh hne hnodup
  constructor
  · have hregistered := hM.registration_eq_some.mpr
      ⟨List.mem_append_right L.registrations (List.mem_singleton_self
        (⟨provision.context, provision.expectedGenesis, false⟩ : Registration)), rfl⟩
    rw [contextRow_tables hM.toWellKeyed, hregistered]
    rfl
  · refine authorRows_tables hcanonical ?_
    -- no entry of the old allowlist is about the new context
    have hold : (L.authors.filter fun entry ↦ entry.1 = provision.context) = [] := by
      rw [List.filter_eq_nil_iff]
      intro entry hentry hcontext
      obtain ⟨r, hr, hsame⟩ := h.allowed entry hentry
      exact registration_eq_none.mp hfresh r hr (hsame.trans (of_decide_eq_true hcontext))
    simp [Ledger.provision, List.filter_append, hold, List.filter_map, Function.comp_def]

theorem provisionContext_again (h : L.WellFormed) {provision : ContextProvision} {u : Unit}
    (hok : provisionContext B provision L.tables = .ok (t, u)) :
    provisionContext B provision t = .ok (t, ()) := by
  obtain ⟨hvalid, hread⟩ := unit_bind_eq_ok.mp hok
  rw [contextRow_tables h.toWellKeyed, ok_bind] at hread
  cases hr : L.registration provision.context with
  | none =>
    rw [provisionContext_fresh h hvalid hr, Except.ok.injEq, Prod.mk.injEq] at hok
    obtain ⟨rfl, -⟩ := hok
    obtain ⟨hrow, hauthors⟩ := provision_reads h hvalid hr
    rw [provisionContext, hvalid, ok_bind, hrow, ok_bind]
    dsimp only
    rw [hauthors, ok_bind, ensure_true ⟨rfl, rfl⟩, ok_bind]
  | some r =>
    rw [hr] at hread
    obtain ⟨authors, -, hread⟩ := bind_eq_ok.mp hread
    obtain ⟨-, hread⟩ := unit_bind_eq_ok.mp hread
    rw [Except.ok.injEq, Prod.mk.injEq] at hread
    obtain ⟨rfl, -⟩ := hread
    exact hok

theorem joinContext_again (h : L.WellFormed) {provision : ContextProvision} {u : Unit}
    (hok : joinContext B provision L.tables = .ok (t, u)) :
    joinContext B provision t = .ok (t, ()) := by
  obtain ⟨hvalid, hread⟩ := unit_bind_eq_ok.mp hok
  rw [contextRow_tables h.toWellKeyed, ok_bind] at hread
  cases hr : L.registration provision.context with
  | none =>
    rw [hr] at hread
    obtain ⟨inserted, hinserted, hread⟩ := bind_eq_ok.mp hread
    rw [Except.ok.injEq, Prod.mk.injEq] at hread
    rw [insertProvision_tables provision hr h.allowed (validateAuthors_eq_ok hvalid).2,
      Except.ok.injEq] at hinserted
    obtain ⟨rfl, -⟩ := hread
    rw [← hinserted]
    obtain ⟨hrow, hauthors⟩ := provision_reads h hvalid hr
    rw [joinContext, hvalid, ok_bind, hrow, ok_bind]
    dsimp only
    rw [ensure_true ⟨rfl, rfl⟩, ok_bind, hauthors, ok_bind, ensure_true rfl, ok_bind]
  | some r =>
    rw [hr] at hread
    obtain ⟨-, hread⟩ := unit_bind_eq_ok.mp hread
    obtain ⟨authors, -, hread⟩ := bind_eq_ok.mp hread
    obtain ⟨-, hread⟩ := unit_bind_eq_ok.mp hread
    rw [Except.ok.injEq, Prod.mk.injEq] at hread
    obtain ⟨rfl, -⟩ := hread
    exact hok

/-! ### Each call, repeated -/

theorem authorizeAuthor_again (h : L.WellFormed) {context : ContextId} {author : AuthorId}
    {changed : Bool} (hok : authorizeAuthor context author L.tables = .ok (t, changed)) :
    authorizeAuthor context author t = .ok (t, false) := by
  rw [authorizeAuthor, contextRow_tables h.toWellKeyed, ok_bind] at hok
  obtain ⟨hregistered, hok⟩ := unit_bind_eq_ok.mp hok
  replace hregistered : L.registration context ≠ none := fun hnone ↦ by
    rw [hnone] at hregistered
    exact ensure_eq_ok.mp hregistered rfl
  obtain ⟨inserted, hinserted, hok⟩ := bind_eq_ok.mp hok
  rw [Except.ok.injEq, Prod.mk.injEq] at hok
  -- either way the author stands in the allowlist afterwards
  obtain ⟨M, hM, rfl, hallowed⟩ : ∃ M : Ledger B, M.WellFormed ∧ t = M.tables ∧
      (context, author) ∈ M.authors ∧ M.registration context ≠ none := by
    rw [Tables.insertOrIgnoreAuthor] at hinserted
    by_cases hold : L.tables.hasAuthor context author
    · rw [if_pos hold, Except.ok.injEq] at hinserted
      exact ⟨L, h, by rw [← hok.1, ← hinserted], hasAuthor_tables.mp hold, hregistered⟩
    · rw [if_neg hold] at hinserted
      have hnew := fun hauthor ↦ hold (hasAuthor_tables.mpr hauthor)
      rw [Tables.insertAuthor, ensure_true ⟨hold, hasContext_tables.mpr hregistered⟩, ok_bind,
        ok_bind, Except.ok.injEq] at hinserted
      refine ⟨L.authorize context author, h.authorize hregistered hnew, ?_,
        List.mem_append_right _ (List.mem_singleton_self _), hregistered⟩
      rw [← hok.1, ← hinserted]
      simp [tables, Ledger.authorize]
  obtain ⟨hallowed, hregistered⟩ := hallowed
  have hrow : (M.registration context).map (fun r ↦ (r.expected, r.state)) ≠ none := fun hnone ↦
    hregistered (Option.map_eq_none_iff.mp hnone)
  rw [authorizeAuthor, contextRow_tables hM.toWellKeyed, ok_bind, ensure_true hrow, ok_bind,
    Tables.insertOrIgnoreAuthor, if_pos (hasAuthor_tables.mpr hallowed), ok_bind]
  rfl

/-- A ref that was moved to the event is found there. -/
theorem swaps_again {M : Ledger B} (hM : M.WellKeyed) {id : EventId} {mutation : RefMutation}
    {N : Ledger B} {applied : Bool} (hswaps : Swaps M id mutation N applied)
    (htargets : ∀ context name expected newHead,
      mutation = .compareAndSwap context name expected newHead → newHead = id) :
    ∃ again, Swaps N id mutation N again ∧
      (if again then .alreadyApplied else .alreadyPresent) = mutation.repeated := by
  cases hswaps with
  | none => exact ⟨false, .none, rfl⟩
  | applied current => exact ⟨true, .applied current, rfl⟩
  | @swapped context name expected newHead current moved =>
    have hhead : (M.setLocal ⟨context, name, id⟩).localHead context name = some newHead := by
      rw [hM.localHead_setLocal, if_pos rfl, htargets context name expected newHead rfl]
    exact ⟨true, .applied hhead, rfl⟩

theorem admitEvent_again (h : L.WellFormed) {event : SignedEventV1} {mutation : RefMutation}
    {status : AdmissionStatus} (hok : admitEvent B event mutation L.tables = .ok (t, status)) :
    admitEvent B event mutation t = .ok (t, mutation.repeated) := by
  obtain ⟨e, hrender, htargets, hadmits, N, applied, hswaps, rfl, -⟩ := (admit_eq_ok h).mp hok
  obtain ⟨hid, hcontext, -⟩ := StoredEvent.columns hrender
  have hadmitted := h.admitted hadmits
  have hN : N.WellFormed := by
    refine (Swaps.steps hswaps ?_).wellFormed hadmitted
    rintro context name expected newHead rfl
    exact ⟨e, mem_admitted h hadmits, rfl, hcontext.symm.trans htargets.1.symm⟩
  have hstored : e ∈ N.events := by
    have hevents : N.events = (L.admitted e).events := by cases hswaps <;> rfl
    rw [hevents]
    exact mem_admitted h hadmits
  have hfound := hN.find_ne_none hstored
  have hkept : N.admitted e = N := if_neg hfound
  obtain ⟨again, hagain, hstatus⟩ := swaps_again hadmitted.toWellKeyed hswaps <| by
    rintro context name expected newHead rfl
    exact htargets.2.trans hid
  refine (admit_eq_ok hN).mpr ⟨e, hrender, htargets, hN.admits_of_mem hstored, N, again,
    hkept.symm ▸ hagain, rfl, ?_⟩
  rw [if_neg hfound, hstatus]

theorem admitWire_again (h : L.WellFormed) {wire : Bytes} {mutation : RefMutation}
    {status : AdmissionStatus} (hok : admitWire B wire mutation L.tables = .ok (t, status)) :
    admitWire B wire mutation t = .ok (t, mutation.repeated) := by
  obtain ⟨event, hevent, hok⟩ := bind_eq_ok.mp hok
  rw [admitWire, hevent, ok_bind]
  exact admitEvent_again h hok

theorem append_again (h : L.WellFormed) {identity : SigningIdentity} {context : ContextId}
    {branch : LocalRefName} {expected : EventId} {kind : String} {payload : Json}
    {event : SignedEventV1}
    (hok : append B identity context branch expected kind payload L.tables = .ok (t, event)) :
    append B identity context branch expected kind payload t = .ok (t, event) := by
  obtain ⟨hkind, hok⟩ := unit_bind_eq_ok.mp hok
  obtain ⟨created, hcreated, hok⟩ := bind_eq_ok.mp hok
  obtain ⟨⟨moved, status⟩, hadmit, hok⟩ := bind_eq_ok.mp hok
  rw [Except.ok.injEq, Prod.mk.injEq] at hok
  obtain ⟨rfl, rfl⟩ := hok
  rw [append, hkind, ok_bind, hcreated, ok_bind, admitEvent_again h hadmit, ok_bind]

theorem merge_again (h : L.WellFormed) {identity : SigningIdentity} {context : ContextId}
    {branch : LocalRefName} {expected : EventId} {parents : List EventId} {payload : Json}
    {event : SignedEventV1}
    (hok : merge B identity context branch expected parents payload L.tables = .ok (t, event)) :
    merge B identity context branch expected parents payload t = .ok (t, event) := by
  obtain ⟨hcount, hok⟩ := unit_bind_eq_ok.mp hok
  obtain ⟨hshape, hok⟩ := unit_bind_eq_ok.mp hok
  obtain ⟨created, hcreated, hok⟩ := bind_eq_ok.mp hok
  obtain ⟨⟨moved, status⟩, hadmit, hok⟩ := bind_eq_ok.mp hok
  rw [Except.ok.injEq, Prod.mk.injEq] at hok
  obtain ⟨rfl, rfl⟩ := hok
  rw [merge, hcount, ok_bind]
  dsimp only
  rw [hshape, ok_bind, hcreated, ok_bind, admitEvent_again h hadmit, ok_bind]

theorem createBranch_again (h : L.WellFormed) {context : ContextId} {name : LocalRefName}
    {fromHead : EventId} {ref : LocalRef}
    (hok : createBranch B context name fromHead L.tables = .ok (t, ref)) :
    createBranch B context name fromHead t = .ok (t, ref) := by
  obtain ⟨hholds, hread⟩ := unit_bind_eq_ok.mp hok
  rw [requireInContext_tables h.toWellKeyed] at hholds
  rw [localRefId_tables h.toWellKeyed, ok_bind] at hread
  cases hhead : L.localHead context name with
  | none =>
    have hfresh : createBranch B context name fromHead L.tables =
        .ok ((L.setLocal ⟨context, name, fromHead⟩).tables, ⟨context, name, fromHead⟩) :=
      createBranch_fresh h name hholds hhead
    rw [hok, Except.ok.injEq, Prod.mk.injEq] at hfresh
    obtain ⟨rfl, rfl⟩ := hfresh
    have hM : (L.setLocal ⟨context, name, fromHead⟩).WellFormed := h.setLocal hholds
    have hcurrent : (L.setLocal ⟨context, name, fromHead⟩).localHead context name =
        some fromHead := by
      rw [h.toWellKeyed.localHead_setLocal, if_pos rfl]
    rw [createBranch, (requireInContext_tables hM.toWellKeyed (u := ())).mpr hholds, ok_bind,
      localRefId_tables hM.toWellKeyed, ok_bind, hcurrent]
    dsimp only
    rw [ensure_true rfl, ok_bind]
  | some head =>
    rw [hhead] at hread
    obtain ⟨-, hread⟩ := unit_bind_eq_ok.mp hread
    rw [Except.ok.injEq, Prod.mk.injEq] at hread
    obtain ⟨rfl, -⟩ := hread
    exact hok

/-- A ref that is set already is set to itself. -/
theorem setRemote_again (L : Ledger B) (ref : RemoteRef) :
    (L.setRemote ref).setRemote ref = L.setRemote ref := by
  set key : RemoteRef → PeerName × ContextId × LocalRefName :=
    fun other ↦ (other.peer, other.context, other.name)
  have hpresent : ¬ ∀ other ∈ put key ref L.remoteRefs, key other ≠ key ref := fun hall ↦
    hall ref (mem_put.mpr (Or.inl rfl)) rfl
  show ({ L with remoteRefs := put key ref (put key ref L.remoteRefs) } : Ledger B) = _
  rw [put_of_present hpresent]
  have hsame : ((put key ref L.remoteRefs).map fun other ↦
      if key other = key ref then ref else other) = put key ref L.remoteRefs := by
    refine (List.map_congr_left fun other hother ↦ ?_).trans (List.map_id _)
    rcases mem_put.mp hother with rfl | ⟨-, hkey⟩
    · exact if_pos rfl
    · exact if_neg hkey
  rw [hsame]
  rfl

theorem setRemoteRef_again (h : L.WellFormed) {peer : PeerName} {context : ContextId}
    {name : LocalRefName} {head : EventId} {u : Unit}
    (hok : setRemoteRef B peer context name head L.tables = .ok (t, u)) :
    setRemoteRef B peer context name head t = .ok (t, ()) := by
  obtain ⟨hholds, hok⟩ := unit_bind_eq_ok.mp hok
  rw [requireInContext_tables h.toWellKeyed] at hholds
  obtain ⟨updated, hupdated, hok⟩ := bind_eq_ok.mp hok
  rw [Except.ok.injEq, Prod.mk.injEq] at hok
  obtain ⟨rfl, -⟩ := hok
  set ref : RemoteRef := ⟨peer, context, name, head⟩ with href
  have hupsert := upsertRemoteRef_tables ref (h.registration_of_holds hholds)
    hholds.find_ne_none
  rw [hupdated, Except.ok.injEq] at hupsert
  obtain rfl := hupsert
  have hM : (L.setRemote ref).WellFormed := h.setRemote hholds
  have hagain := upsertRemoteRef_tables ref (hM.registration_of_holds hholds)
    hholds.find_ne_none
  rw [setRemote_again] at hagain
  rw [setRemoteRef, (requireInContext_tables hM.toWellKeyed (u := ())).mpr hholds, ok_bind, hagain,
    ok_bind]

/-- An imported bundle is imported again as a bundle of stored events and current refs. -/
theorem importBundle_repeated (h : L.WellFormed) {peer : PeerName} {wire : Bytes}
    {limits : BundleLimits} {report : ImportReport}
    (hok : importBundle B peer wire limits L.tables = .ok (t, report)) :
    importBundle B peer wire limits t =
      .ok (t, ⟨0, report.inserted + report.alreadyPresent, 0⟩) := by
  obtain ⟨hvalid, hbytes, bundle, hparses, hevents, hrefs, hrendered, hok⟩ :=
    importBundle_eq_ok.mp hok
  have haccepted : Accepts B wire limits bundle :=
    ⟨hvalid, hbytes, hparses, hevents, hrefs, hrendered⟩
  obtain ⟨es, hes, hcontext⟩ := haccepted.exists_stored
  obtain ⟨hregistered, hall, hheld, rfl, rfl⟩ :=
    (importBundleValue_eq_ok h hes hcontext).mp hok
  have hadmitted := h.admitAll hall
  have hM := (Steps.trackAll hadmitted peer hheld).wellFormed hadmitted
  have hevents : ((L.admitAll es).trackAll peer bundle.context bundle.refs).events =
      (L.admitAll es).events := (trackAll_frame peer bundle.context bundle.refs).2.2.1
  have hstored : ∀ e ∈ es, e ∈
      ((L.admitAll es).trackAll peer bundle.context bundle.refs).events := fun e he ↦ by
    rw [hevents]
    exact (mem_events_admitAll h hall).mpr (Or.inr he)
  obtain ⟨hadmits, hkept, hnone⟩ := hM.admitAll_stored hstored
  obtain ⟨hrefsKept, hrefsNone⟩ := trackAll_current
    (hadmitted.remoteHead_trackAll peer hheld bundle.refs_canonical).1
  have hcount := newCount_le L es
  refine (haccepted.importBundle_eq peer _).trans
    ((importBundleValue_eq_ok hM hes hcontext).mpr ⟨?_, hadmits, ?_, ?_, ?_⟩)
  · intro hunknown
    obtain ⟨r, hr⟩ := Option.ne_none_iff_exists'.mp hregistered
    have hextends := (Steps.admitAll h hall).extends.trans
      (Steps.trackAll hadmitted peer hheld).extends
    obtain ⟨s, hs, -⟩ := hextends.expects h hM ⟨r, hr, rfl⟩
    rw [hunknown] at hs
    cases hs
  · rw [hkept]
    intro item hitem
    obtain ⟨e, he, hid, hsame⟩ := hheld item hitem
    exact ⟨e, hevents ▸ he, hid, hsame⟩
  · rw [hkept, hrefsKept]
  · rw [hkept, hnone, hrefsNone, Nat.add_sub_cancel' hcount, Nat.sub_zero]

end Ledger

/-- A call that was committed reports success when it is repeated, and has no further effect. -/
theorem Operation.again {L : Ledger B} (h : L.WellFormed) {operation : Operation}
    (hrepeatable : operation.Repeatable) {t : Tables} {result : operation.Result}
    (hok : operation.body B L.tables = .ok (t, result)) :
    operation.body B t = .ok (t, operation.repeated result) := by
  cases operation with
  | provisionContext provision => exact Ledger.provisionContext_again h hok
  | joinContext provision => exact Ledger.joinContext_again h hok
  | createContext identity branch entropy => exact hrepeatable.elim
  | authorizeAuthor context author => exact Ledger.authorizeAuthor_again h hok
  | admitEvent event mutation => exact Ledger.admitEvent_again h hok
  | admitWire wire mutation => exact Ledger.admitWire_again h hok
  | append identity context branch expected kind payload => exact Ledger.append_again h hok
  | createBranch context name fromHead => exact Ledger.createBranch_again h hok
  | merge identity context branch expected parents payload => exact Ledger.merge_again h hok
  | setRemoteRef peer context name head => exact Ledger.setRemoteRef_again h hok
  | importBundle peer wire limits => exact Ledger.importBundle_repeated h hok
  | replaceRemoteRefSnapshot peer context refs =>
    obtain ⟨N, rfl, -, -, -, -, hagain⟩ := Sync.replaceRemoteRefSnapshot_again h hok
    exact hagain

/-! ### Attempts -/

/-- Attempts of a call that the store refuses leave the store alone and fail. -/
theorem Operation.attempts_failed {operation : Operation} {t : Tables} {error : StoreError}
    (hfails : operation.body B t = .error error) (faults : List (Option Fault)) :
    operation.attempts B faults t = (t, faults.map (reply (.error error))) := by
  induction faults with
  | nil => rfl
  | cons fault rest ih =>
    rw [attempts, execute, transact_failed hfails]
    dsimp only
    rw [ih, List.map_cons]

/-- Attempts of a call that has its effect already. -/
theorem Operation.attempts_settled {operation : Operation} {t : Tables}
    {result : operation.Result} (hok : operation.body B t = .ok (t, result))
    (faults : List (Option Fault)) :
    operation.attempts B faults t = (t, faults.map (reply (.ok result))) := by
  induction faults with
  | nil => rfl
  | cons fault rest ih =>
    rw [attempts, execute, transact_landed hok, ite_self]
    dsimp only
    rw [ih, List.map_cons]

theorem replies_settled {α : Type} (outcome : Except StoreError α) (faults : List (Option Fault)) :
    replies outcome outcome faults = faults.map (reply outcome) := by
  induction faults with
  | nil => rfl
  | cons fault rest ih => rw [replies, ite_self, ih, List.map_cons]

/-- Only an attempt that lands reports success. -/
theorem exists_lands_of_mem_replies {α : Type} {first again : Except StoreError α} {value : α}
    {faults : List (Option Fault)} (h : .ok value ∈ replies first again faults) :
    ∃ fault ∈ faults, Lands fault := by
  induction faults generalizing first with
  | nil => cases h
  | cons fault rest ih =>
    rcases List.mem_cons.mp h with hfirst | hrest
    · refine ⟨fault, List.mem_cons_self, ?_⟩
      rcases fault with _ | _ | _ | _
      · trivial
      · cases hfirst
      · cases first <;> cases hfirst
      · cases first <;> cases hfirst
    · obtain ⟨other, hother, hlands⟩ := ih hrest
      exact ⟨other, List.mem_cons_of_mem _ hother, hlands⟩

/-- Attempts of a call that the store would accept, none of which it has committed before. -/
theorem Operation.attempts_committed {L : Ledger B} (h : L.WellFormed) {operation : Operation}
    (hrepeatable : operation.Repeatable) {after : Tables} {result : operation.Result}
    (hok : operation.body B L.tables = .ok (after, result)) (faults : List (Option Fault)) :
    operation.attempts B faults L.tables =
      (if ∃ fault ∈ faults, Lands fault then after else L.tables,
        replies (.ok result) (.ok (operation.repeated result)) faults) := by
  have hagain := operation.again h hrepeatable hok
  induction faults with
  | nil => rfl
  | cons fault rest ih =>
    rw [attempts, execute, transact_landed hok, replies]
    dsimp only
    by_cases hlands : Lands fault
    · -- the first commit: the other attempts find its effect
      have hfirst : ∃ other ∈ fault :: rest, Lands other := ⟨fault, List.mem_cons_self, hlands⟩
      rw [if_pos hlands, attempts_settled hagain, if_pos hfirst, if_pos hlands, replies_settled]
    · rw [if_neg hlands, ih, if_neg hlands]
      simp only [List.mem_cons, exists_eq_or_imp, hlands, false_or]

/-- However often a call is attempted and however the database fails the attempts, the call has its
effect once or not at all: once as soon as one attempt is committed, acknowledged or not. An attempt
that reports success means that the effect is there. A call that the store refuses is refused each
time and has no effect. -/
theorem attempts_exactly_once {t : Tables} (hreachable : Reachable B t) (operation : Operation)
    (hrepeatable : operation.Repeatable) (faults : List (Option Fault)) :
    (∀ error, operation.body B t = .error error →
      operation.attempts B faults t = (t, faults.map (reply (.error error)))) ∧
    ∀ after result, operation.body B t = .ok (after, result) →
      operation.attempts B faults t =
        (if ∃ fault ∈ faults, Lands fault then after else t,
          replies (.ok result) (.ok (operation.repeated result)) faults) ∧
      ((∃ value, .ok value ∈ (operation.attempts B faults t).2) →
        (operation.attempts B faults t).1 = after) := by
  obtain ⟨L, h, rfl⟩ := Ledger.exists_of_reachable hreachable
  constructor
  · exact fun error hfails ↦ operation.attempts_failed hfails faults
  · intro after result hok
    refine ⟨operation.attempts_committed h hrepeatable hok faults, ?_⟩
    rintro ⟨value, hvalue⟩
    rw [operation.attempts_committed h hrepeatable hok faults] at hvalue ⊢
    exact if_pos (exists_lands_of_mem_replies hvalue)

section Golden

open Reference Golden

/-- An append whose commit is not acknowledged is attempted again. -/
theorem attempts_exactly_once_branched :
    (Operation.append identity second.context main first.id second.kind
      second.event.body.payload).attempts Golden.B [some .lost, some .unacknowledged, none]
        branched.tables =
      (advanced.tables,
        [.error .indeterminateCommit, .error .indeterminateCommit, .ok second.event]) := by
  have honce := ((attempts_exactly_once branched_reachable (.append identity second.context main
    first.id second.kind second.event.body.payload) trivial
    [some .lost, some .unacknowledged, none]).2 _ _ append_branched).1
  rw [honce, if_pos ⟨none, by simp, trivial⟩]
  simp [replies, reply, Lands, Operation.repeated, Except.bind]

end Golden

end ContextMesh.Store
