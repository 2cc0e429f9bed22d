import ContextMesh.Ledger.Import

/-!
Every operation of the store, on the tables of a well-formed ledger, either fails or leaves the
tables of a ledger reached by changes of the kinds the operation may make.
-/

set_option autoImplicit false
set_option relaxedAutoImplicit false

namespace ContextMesh.Store

open Checked Ordered Keyed Contract Relation

variable {B : Boundary}

/-- A change that neither moves nor deletes a local ref, and touches no remote ref. -/
def Change.IsRecord : Change → Prop
  | .record _ _ => True
  | _ => False

/-- Recording, and branch movement that keeps every branch's history. -/
def Change.IsAppend : Change → Prop
  | .record _ _ | .branch _ _ _ | .advance _ _ _ _ => True
  | _ => False

theorem createEvent_eq_ok {identity : SigningIdentity} {context : ContextId}
    {parents : List EventId} {kind : String} {payload : Json} {event : SignedEventV1}
    (h : identity.createEvent B context parents kind payload = .ok event) :
    event.body = ⟨EVENT_VERSION, context, parents, kind, identity.author B, payload⟩ := by
  obtain ⟨body, hbody, h⟩ := bind_eq_ok.mp h
  obtain ⟨-, hbody⟩ := unit_bind_eq_ok.mp hbody
  obtain ⟨-, h⟩ := unit_bind_eq_ok.mp h
  obtain ⟨-, h⟩ := unit_bind_eq_ok.mp h
  obtain ⟨id, -, h⟩ := bind_eq_ok.mp h
  rw [Except.ok.injEq] at h hbody
  rw [← h, ← hbody]

/-- Valid allowlists are nonempty and have no repeats. -/
theorem validateAuthors_eq_ok {authors : List AuthorId} {u : Unit}
    (h : validateAuthors B authors = .ok u) : authors ≠ [] ∧ authors.Nodup := by
  obtain ⟨-, h⟩ := unit_bind_eq_ok.mp h
  obtain ⟨hne, h⟩ := unit_bind_eq_ok.mp h
  exact ⟨ensure_eq_ok.mp hne, (ensure_eq_ok.mp h).nodup⟩

namespace Ledger

variable {L : Ledger B} {t : Tables}

theorem insertProvision_steps (h : L.WellFormed) {provision : ContextProvision}
    (hvalid : validateAuthors B provision.authorizedAuthors = .ok ())
    (hfresh : L.registration provision.context = none)
    (hok : insertProvision provision L.tables = .ok t) :
    ∃ L', t = L'.tables ∧ Steps (· = .provision provision.context) L L' := by
  obtain ⟨hne, hnodup⟩ := validateAuthors_eq_ok hvalid
  rw [insertProvision_tables provision hfresh h.allowed hnodup, Except.ok.injEq] at hok
  exact ⟨_, hok.symm, .one (.provision hfresh hne hnodup) rfl⟩

theorem provisionContext_steps (h : L.WellFormed) {provision : ContextProvision} {u : Unit}
    (hok : provisionContext B provision L.tables = .ok (t, u)) :
    ∃ L', t = L'.tables ∧ Steps (· = .provision provision.context) L L' := by
  obtain ⟨hvalid, hok⟩ := unit_bind_eq_ok.mp hok
  rw [contextRow_tables h.toWellKeyed, ok_bind] at hok
  cases hr : L.registration provision.context with
  | none =>
    rw [hr] at hok
    obtain ⟨inserted, hinserted, hok⟩ := bind_eq_ok.mp hok
    rw [Except.ok.injEq, Prod.mk.injEq] at hok
    exact insertProvision_steps h hvalid hr (hok.1 ▸ hinserted)
  | some r =>
    rw [hr] at hok
    obtain ⟨authors, -, hok⟩ := bind_eq_ok.mp hok
    obtain ⟨-, hok⟩ := unit_bind_eq_ok.mp hok
    rw [Except.ok.injEq, Prod.mk.injEq] at hok
    exact ⟨L, hok.1.symm, .refl⟩

theorem joinContext_steps (h : L.WellFormed) {provision : ContextProvision} {u : Unit}
    (hok : joinContext B provision L.tables = .ok (t, u)) :
    ∃ L', t = L'.tables ∧ Steps (· = .provision provision.context) L L' := by
  obtain ⟨hvalid, hok⟩ := unit_bind_eq_ok.mp hok
  rw [contextRow_tables h.toWellKeyed, ok_bind] at hok
  cases hr : L.registration provision.context with
  | none =>
    rw [hr] at hok
    obtain ⟨inserted, hinserted, hok⟩ := bind_eq_ok.mp hok
    rw [Except.ok.injEq, Prod.mk.injEq] at hok
    exact insertProvision_steps h hvalid hr (hok.1 ▸ hinserted)
  | some r =>
    rw [hr] at hok
    obtain ⟨-, hok⟩ := unit_bind_eq_ok.mp hok
    obtain ⟨authors, -, hok⟩ := bind_eq_ok.mp hok
    obtain ⟨-, hok⟩ := unit_bind_eq_ok.mp hok
    rw [Except.ok.injEq, Prod.mk.injEq] at hok
    exact ⟨L, hok.1.symm, .refl⟩

theorem authorizeAuthor_steps (h : L.WellFormed) {context : ContextId} {author : AuthorId}
    {changed : Bool} (hok : authorizeAuthor context author L.tables = .ok (t, changed)) :
    ∃ L', t = L'.tables ∧ Steps (· = .authorize context author) L L' := by
  rw [authorizeAuthor, contextRow_tables h.toWellKeyed, ok_bind] at hok
  obtain ⟨hregistered, hok⟩ := unit_bind_eq_ok.mp hok
  have hregistered : L.registration context ≠ none := fun hnone ↦ by
    rw [hnone] at hregistered
    exact ensure_eq_ok.mp hregistered rfl
  obtain ⟨inserted, hinserted, hok⟩ := bind_eq_ok.mp hok
  rw [Except.ok.injEq, Prod.mk.injEq] at hok
  rw [Tables.insertOrIgnoreAuthor] at hinserted
  split_ifs at hinserted with hold
  · rw [Except.ok.injEq] at hinserted
    exact ⟨L, by rw [← hok.1, ← hinserted], .refl⟩
  · rw [hasAuthor_tables] at hold
    rw [Tables.insertAuthor, ensure_true ⟨fun hauthor ↦ hold (hasAuthor_tables.mp hauthor),
      hasContext_tables.mpr hregistered⟩, ok_bind, ok_bind, Except.ok.injEq] at hinserted
    refine ⟨L.authorize context author, ?_, .one (.authorize hregistered hold) rfl⟩
    rw [← hok.1, ← hinserted]
    simp [tables, Ledger.authorize]

/-- A swap of a stored event is a branch, an advance or a plain move of its ref. -/
theorem Swaps.steps {id : EventId} {mutation : RefMutation} {L' : Ledger B} {applied : Bool}
    (hswaps : Swaps L id mutation L' applied)
    (hholds : ∀ context name expected newHead,
      mutation = .compareAndSwap context name expected newHead → L.Holds context id) :
    Steps (fun change ↦ ∃ context name expected newHead,
      mutation = .compareAndSwap context name expected newHead ∧
        (change = .branch context name id ∨
          ∃ previous, change = .move context name previous id)) L L' := by
  cases hswaps with
  | none => exact .refl
  | applied => exact .refl
  | @swapped context name expected newHead current moved =>
    have hid := hholds context name expected newHead rfl
    cases expected with
    | absent => exact .single ⟨_, ⟨_, _, _, _, rfl, Or.inl rfl⟩, .branch hid current⟩
    | head previous =>
      exact .single ⟨_, ⟨_, _, _, _, rfl, Or.inr ⟨previous, rfl⟩⟩, .move hid current⟩

/-- Admission records the event and moves at most its own ref. -/
theorem admit_steps (h : L.WellFormed) {event : SignedEventV1} {mutation : RefMutation}
    {status : AdmissionStatus} (hok : admitEvent B event mutation L.tables = .ok (t, status)) :
    ∃ L', t = L'.tables ∧ Steps (fun change ↦
      change = .record event.body.context event.eventId ∨
        ∃ context name expected newHead,
          mutation = .compareAndSwap context name expected newHead ∧
            (change = .branch context name event.eventId ∨
              ∃ previous, change = .move context name previous event.eventId)) L L' := by
  obtain ⟨e, hrender, htargets, hadmits, L', applied, hswaps, rfl, -⟩ := (admit_eq_ok h).mp hok
  obtain ⟨hid, hcontext, -⟩ := StoredEvent.columns hrender
  refine ⟨L', rfl, ReflTransGen.trans ((Steps.admitted hadmits).mono fun change hchange ↦
    Or.inl (by rw [hchange, hid, hcontext])) ((Swaps.steps hswaps ?_).mono fun change hchange ↦
      Or.inr (by rw [hid]; exact hchange))⟩
  rintro context name expected newHead rfl
  exact ⟨e, mem_admitted h hadmits, rfl, hcontext.symm.trans htargets.1.symm⟩

/-- Admission of a child of the expected head records it and advances its branch, or finds the
branch there; either way the branch ends at the event. -/
theorem admit_advance (h : L.WellFormed) {event : SignedEventV1} {name : LocalRefName}
    {expected : EventId} {status : AdmissionStatus} (hparent : expected ∈ event.body.parents)
    (hok : admitEvent B event (.compareAndSwap event.body.context name (.head expected)
      event.eventId) L.tables = .ok (t, status)) :
    ∃ L', t = L'.tables ∧ Steps Change.IsAppend L L' ∧
      L'.localHead event.body.context name = some event.eventId := by
  obtain ⟨e, hrender, htargets, hadmits, L', applied, hswaps, rfl, -⟩ := (admit_eq_ok h).mp hok
  obtain ⟨hid, hcontext, -, -, hparents⟩ := StoredEvent.columns hrender
  have hadmitted : Steps Change.IsAppend L (L.admitted e) :=
    (Steps.admitted hadmits).mono fun change hchange ↦ by rw [hchange]; trivial
  rw [hcontext, hid] at hswaps
  rw [hcontext, hid]
  rw [hparents] at hparent
  cases hswaps with
  | applied current => exact ⟨_, rfl, hadmitted, current⟩
  | swapped current moved =>
    have hstep : Step (L.admitted e) (.advance e.context name expected e.id)
        ((L.admitted e).setLocal ⟨e.context, name, e.id⟩) :=
      .advance (mem_admitted h hadmits) current hparent
    refine ⟨_, rfl, hadmitted.tail ⟨.advance e.context name expected e.id, trivial, hstep⟩, ?_⟩
    have hwell := hstep.wellFormed (h.admitted hadmits)
    exact hwell.localHead_eq_some.mpr (mem_put.mpr (Or.inl rfl))

theorem append_steps (h : L.WellFormed) {identity : SigningIdentity} {context : ContextId}
    {branch : LocalRefName} {expected : EventId} {kind : String} {payload : Json}
    {event : SignedEventV1}
    (hok : append B identity context branch expected kind payload L.tables = .ok (t, event)) :
    event.body.context = context ∧ ∃ L', t = L'.tables ∧ Steps Change.IsAppend L L' ∧
      L'.localHead context branch = some event.eventId := by
  obtain ⟨-, hok⟩ := unit_bind_eq_ok.mp hok
  obtain ⟨created, hcreated, hok⟩ := bind_eq_ok.mp hok
  obtain ⟨⟨admitted, status⟩, hadmit, hok⟩ := bind_eq_ok.mp hok
  rw [Except.ok.injEq, Prod.mk.injEq] at hok
  obtain ⟨rfl, rfl⟩ := hok
  have hbody := createEvent_eq_ok (mapError_eq_ok.mp hcreated)
  have hcontext : created.body.context = context := by rw [hbody]
  refine ⟨hcontext, ?_⟩
  rw [← hcontext] at hadmit ⊢
  exact admit_advance h (by rw [hbody]; exact List.mem_singleton_self _) hadmit

theorem merge_steps (h : L.WellFormed) {identity : SigningIdentity} {context : ContextId}
    {branch : LocalRefName} {expected : EventId} {parents : List EventId} {payload : Json}
    {event : SignedEventV1}
    (hok : merge B identity context branch expected parents payload L.tables = .ok (t, event)) :
    event.body.context = context ∧ ∃ L', t = L'.tables ∧ Steps Change.IsAppend L L' ∧
      L'.localHead context branch = some event.eventId := by
  obtain ⟨-, hok⟩ := unit_bind_eq_ok.mp hok
  obtain ⟨hshape, hok⟩ := unit_bind_eq_ok.mp hok
  obtain ⟨created, hcreated, hok⟩ := bind_eq_ok.mp hok
  obtain ⟨⟨admitted, status⟩, hadmit, hok⟩ := bind_eq_ok.mp hok
  rw [Except.ok.injEq, Prod.mk.injEq] at hok
  obtain ⟨rfl, rfl⟩ := hok
  have hbody := createEvent_eq_ok (mapError_eq_ok.mp hcreated)
  have hcontext : created.body.context = context := by rw [hbody]
  refine ⟨hcontext, ?_⟩
  rw [← hcontext] at hadmit ⊢
  refine admit_advance h ?_ hadmit
  rw [hbody]
  exact (ensure_eq_ok.mp hshape).2

theorem createBranch_steps (h : L.WellFormed) {context : ContextId} {name : LocalRefName}
    {fromHead : EventId} {ref : LocalRef}
    (hok : createBranch B context name fromHead L.tables = .ok (t, ref)) :
    ∃ L', t = L'.tables ∧ Steps (· = .branch context name fromHead) L L' := by
  obtain ⟨hholds, hok⟩ := unit_bind_eq_ok.mp hok
  rw [requireInContext_tables h.toWellKeyed] at hholds
  rw [localRefId_tables h.toWellKeyed, ok_bind] at hok
  cases hhead : L.localHead context name with
  | none =>
    rw [hhead] at hok
    obtain ⟨inserted, hinserted, hok⟩ := bind_eq_ok.mp hok
    rw [Except.ok.injEq, Prod.mk.injEq] at hok
    have hinsert := insertLocalRef_tables ⟨context, name, fromHead⟩ hhead
      (h.registration_of_holds hholds) hholds.find_ne_none
    dsimp only at hinsert
    rw [hinsert, Except.ok.injEq] at hinserted
    exact ⟨_, by rw [← hok.1, ← hinserted], .one (.branch hholds hhead) rfl⟩
  | some head =>
    rw [hhead] at hok
    obtain ⟨-, hok⟩ := unit_bind_eq_ok.mp hok
    rw [Except.ok.injEq, Prod.mk.injEq] at hok
    exact ⟨L, hok.1.symm, .refl⟩

theorem setRemoteRef_steps (h : L.WellFormed) {peer : PeerName} {context : ContextId}
    {name : LocalRefName} {head : EventId} {u : Unit}
    (hok : setRemoteRef B peer context name head L.tables = .ok (t, u)) :
    ∃ L', t = L'.tables ∧ Steps (· = .track peer context name head) L L' := by
  obtain ⟨hholds, hok⟩ := unit_bind_eq_ok.mp hok
  rw [requireInContext_tables h.toWellKeyed] at hholds
  obtain ⟨updated, hupdated, hok⟩ := bind_eq_ok.mp hok
  rw [Except.ok.injEq, Prod.mk.injEq] at hok
  have hupsert := upsertRemoteRef_tables ⟨peer, context, name, head⟩
    (h.registration_of_holds hholds) hholds.find_ne_none
  dsimp only at hupsert
  rw [hupsert, Except.ok.injEq] at hupdated
  exact ⟨_, by rw [← hok.1, ← hupdated], .one (.track hholds) rfl⟩

/-- A context that was just provisioned waits for its genesis and admits it. -/
theorem admits_genesis (h : L.WellFormed) {context : ContextId} {author : AuthorId}
    {e : StoredEvent B} (hfresh : L.registration context = none) (hcontext : e.context = context)
    (hauthor : e.author = author) (hkind : e.kind = "context.genesis") (hparents : e.parents = [])
    (hnew : (L.provision context e.id [author]).find e.id = none) :
    (L.provision context e.id [author]).registration e.context =
        some ⟨context, e.id, false⟩ ∧
      (L.provision context e.id [author]).Admits e := by
  have hM : (L.provision context e.id [author]).WellFormed :=
    h.provision hfresh (List.cons_ne_nil _ _) (List.nodup_singleton _)
  have hmem : (⟨context, e.id, false⟩ : Registration) ∈
      (L.provision context e.id [author]).registrations :=
    List.mem_append_right _ (List.mem_singleton_self _)
  refine ⟨hM.registration_eq_some.mpr ⟨hmem, hcontext.symm⟩, ⟨_, hmem, hcontext.symm, ?_⟩, ?_, ?_,
    ?_⟩
  · rw [if_neg Bool.false_ne_true]
    exact ⟨rfl, hkind, hparents⟩
  · rw [hcontext, hauthor]
    exact List.mem_append_right _ (List.mem_singleton_self _)
  · rw [hparents]
    exact List.forall_mem_nil _
  · exact fun f hf hfid ↦ absurd hfid (find_eq_none.mp hnew f hf)

/-- A new context is provisioned, activated by its genesis and branched. -/
theorem createContext_steps (h : L.WellFormed) {identity : SigningIdentity} {branch : LocalRefName}
    {entropy : Option (Fixed 32)} {created : ContextId × SignedEventV1 × LocalRef}
    (hok : createContext B identity branch entropy L.tables = .ok (t, created)) :
    ∃ L', t = L'.tables ∧ Steps (fun change ↦ change = .provision created.1 ∨
      change = .record created.1 created.2.1.eventId ∨
      change = .branch created.1 branch created.2.1.eventId) L L' := by
  obtain ⟨bytes, -, hok⟩ := bind_eq_ok.mp hok
  obtain ⟨genesis, hgenesis, hok⟩ := bind_eq_ok.mp hok
  obtain ⟨wire, hwire, hok⟩ := bind_eq_ok.mp hok
  rw [mapError_eq_ok] at hgenesis hwire
  have hbody := createEvent_eq_ok hgenesis
  rw [contextRow_tables h.toWellKeyed, ok_bind] at hok
  obtain ⟨hfresh, hok⟩ := unit_bind_eq_ok.mp hok
  rw [ensure_eq_ok, Option.map_eq_none_iff] at hfresh
  obtain ⟨contexts, hcontexts, hok⟩ := bind_eq_ok.mp hok
  obtain ⟨authors, hauthors, hok⟩ := bind_eq_ok.mp hok
  obtain ⟨events, hevents, hok⟩ := bind_eq_ok.mp hok
  obtain ⟨activated, hactivated, hok⟩ := bind_eq_ok.mp hok
  obtain ⟨refs, hrefs, hok⟩ := bind_eq_ok.mp hok
  rw [Except.ok.injEq, Prod.mk.injEq] at hok
  obtain ⟨rfl, rfl⟩ := hok
  dsimp only
  let e : StoredEvent B := ⟨genesis, wire, by
    have hsettled : Settled B (genesis.toJson B) := by
      refine SignedEventV1.settled_toJson (by rw [hbody]) ?_
      rw [hbody]
      exact settled_obj List.Pairwise.nil (by simp)
    exact ⟨SignedEventV1.fromWire_of_settled hwire hsettled, hwire⟩⟩
  have hcontext : e.context = ⟨bytes⟩ := congrArg EventBodyV1.context hbody
  have hparents : e.parents = [] := congrArg EventBodyV1.parents hbody
  have hkind : e.kind = "context.genesis" := congrArg EventBodyV1.kind hbody
  have hauthor : e.author = identity.author B := congrArg EventBodyV1.author hbody
  -- the provision
  have hprovision := insertProvision_tables ⟨⟨bytes⟩, genesis.eventId, [identity.author B]⟩ hfresh
    h.allowed (List.nodup_singleton _)
  have hprovisioned : authors =
      (L.provision ⟨bytes⟩ genesis.eventId [identity.author B]).tables := by
    rw [insertProvision, hcontexts, ok_bind, foldEach, hauthors, ok_bind, foldEach,
      Except.ok.injEq] at hprovision
    exact hprovision
  have hprovisionStep : Step L (.provision ⟨bytes⟩)
      (L.provision ⟨bytes⟩ genesis.eventId [identity.author B]) :=
    .provision hfresh (by simp) (List.nodup_singleton _)
  have hM := hprovisionStep.wellFormed h
  set M := L.provision ⟨bytes⟩ genesis.eventId [identity.author B] with hMdef
  -- the genesis
  have hnew : M.find e.id = none := by
    obtain ⟨hguard, -⟩ := unit_bind_eq_ok.mp hevents
    rw [ensure_eq_ok, hprovisioned] at hguard
    by_contra hfound
    exact hguard.1 (hasEvent_tables.mpr hfound)
  obtain ⟨hregistered, hadmits⟩ := admits_genesis h hfresh hcontext hauthor hkind hparents hnew
  obtain ⟨rows, hinsert, hactivate⟩ := insertEventRows_activate hM hregistered hadmits hnew
  have hrows : events = rows := by
    have : insertEventRows e.event e.wire M.tables = .ok events := by
      rw [insertEventRows]
      change (M.tables.insertEvent e.id e.context e.author e.kind wire >>= fun inserted ↦
        inserted.insertEdges e.id 0 e.parents) = .ok events
      rw [hcontext, hauthor, hkind, ← hprovisioned, hevents, ok_bind, hparents]
      rfl
    rw [hinsert, Except.ok.injEq] at this
    exact this.symm
  have hrecorded : activated = (M.record e).tables := by
    rw [activateIfPending, if_pos (Registration.state_eq_zero.mpr rfl), hcontext,
      ← hrows] at hactivate
    exact Except.ok.inj (hactivated.symm.trans hactivate)
  have hrecordStep : Step M (.record e.context e.id) (M.record e) := .record hadmits hnew
  have hN := hrecordStep.wellFormed hM
  -- the branch
  have hholds : (M.record e).Holds ⟨bytes⟩ genesis.eventId :=
    ⟨e, List.mem_append_right _ (List.mem_singleton_self _), rfl, hcontext⟩
  have habsent : (M.record e).localHead ⟨bytes⟩ branch = none := h.localHead_of_fresh hfresh branch
  have hbranch := insertLocalRef_tables ⟨⟨bytes⟩, branch, genesis.eventId⟩ habsent
    (hN.registration_of_holds hholds) hholds.find_ne_none
  dsimp only at hbranch
  rw [hrecorded, hbranch, Except.ok.injEq] at hrefs
  refine ⟨_, hrefs.symm, ?_⟩
  refine ReflTransGen.tail (ReflTransGen.tail (.single ⟨_, Or.inl rfl, hprovisionStep⟩)
    ⟨_, Or.inr (Or.inl ?_), hrecordStep⟩) ⟨_, Or.inr (Or.inr rfl), .branch hholds habsent⟩
  rw [hcontext]

end Ledger

end ContextMesh.Store
