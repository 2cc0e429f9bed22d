import ContextMesh.Codec.Sizes
import ContextMesh.Evaluation.Chain
import ContextMesh.Ledger.Confluence
import ContextMesh.Ledger.Runs

/-!
Planting a chain. The same kinds and payloads are valid in every context, so a chain that is built
in one fresh context can be built in another: what is stored there differs in its context, in its
parents and in its identifiers only.
-/

set_option autoImplicit false
set_option relaxedAutoImplicit false

namespace ContextMesh.Evaluation

open Checked Ordered Contract Relation Store Ledger ContextMesh.Delta Delivery Selection

variable {B : Boundary}

/-! ### Creation in another context -/

/-- Bodies of one kind and payload with as many parents have the same canonical length. -/
theorem length_elsewhere (context context' : ContextId) {parents parents' : List EventId}
    (hlength : parents.length = parents'.length) (kind : String) (author : AuthorId)
    (payload : Json) :
    canonicalLength B
        ((⟨EVENT_VERSION, context, parents, kind, author, payload⟩ : EventBodyV1).toJson B) =
      canonicalLength B
        ((⟨EVENT_VERSION, context', parents', kind, author, payload⟩ : EventBodyV1).toJson B) := by
  have hcontext : ∀ other : ContextId, canonicalLength B (.str (other.text B)) = 50 := by
    intro other
    rw [ContextId.text, canonicalLength_fixedText _ (by decide)]
    decide
  have hparents : canonicalLength B (.arr (parents.map fun id ↦ .str (id.text B))) =
      canonicalLength B (.arr (parents'.map fun id ↦ .str (id.text B))) := by
    change canonicalLength B (Sync.headsValue B parents) =
      canonicalLength B (Sync.headsValue B parents')
    rw [Sync.length_headsValue, Sync.length_headsValue, hlength]
  rw [EventBodyV1.toJson, EventBodyV1.toJson,
    canonicalLength_obj (EventBodyV1.toJson_increasing _),
    canonicalLength_obj (EventBodyV1.toJson_increasing _)]
  simp only [List.map_cons, List.map_nil, hcontext, hparents, List.length_cons]

/-- An identity creates an event exactly when its body is valid. -/
theorem createEvent_ok_iff {identity : SigningIdentity} {context : ContextId}
    {parents : List EventId} {kind : String} {payload : Json} :
    (∃ event, identity.createEvent B context parents kind payload = .ok event) ↔
      (⟨EVENT_VERSION, context, parents, kind, identity.author B, payload⟩ : EventBodyV1).validate
        B = .ok () := by
  constructor
  · rintro ⟨event, hevent⟩
    obtain ⟨body, hbody, -⟩ := bind_eq_ok.mp hevent
    exact (unit_bind_eq_ok.mp hbody).1
  · intro hvalid
    obtain ⟨bytes, hbytes⟩ := canonicalize_total (B := B)
      ((⟨EVENT_VERSION, context, parents, kind, identity.author B, payload⟩ : EventBodyV1).toJson B)
    have hid : deriveEventId B ⟨EVENT_VERSION, context, parents, kind, identity.author B, payload⟩ =
        .ok ⟨B.deriveKey EVENT_ID_DOMAIN bytes⟩ := by
      rw [deriveEventId, EventBodyV1.canonicalBytes_of_valid hvalid, hbytes, ok_bind]
    obtain ⟨event, hsigned⟩ : ∃ event, identity.signBody B
        ⟨EVENT_VERSION, context, parents, kind, identity.author B, payload⟩ = .ok event :=
      ⟨_, SigningIdentity.signBody_eq_ok.mpr ⟨hvalid, rfl, _, hid, rfl⟩⟩
    exact ⟨event, bind_eq_ok.mpr ⟨_, unit_bind_eq_ok.mpr ⟨hvalid, rfl⟩, hsigned⟩⟩

/-- What an identity creates in one context it creates in every other, over as many parents. -/
theorem createEvent_elsewhere {identity : SigningIdentity} {context context' : ContextId}
    {parents parents' : List EventId} {kind : String} {payload : Json} {event : SignedEventV1}
    (hlength : parents.length = parents'.length) (hcanonical : Canonical (EventId.text B) parents')
    (hok : identity.createEvent B context parents kind payload = .ok event) :
    ∃ event', identity.createEvent B context' parents' kind payload = .ok event' := by
  obtain ⟨hversion, hcount, hkind, -, hpayload, hbytes, hbody⟩ :=
    EventBodyV1.validate_eq_ok.mp (createEvent_ok_iff.mp ⟨event, hok⟩)
  rw [length_elsewhere context context' hlength] at hbody
  refine createEvent_ok_iff.mpr (EventBodyV1.validate_eq_ok.mpr
    ⟨hversion, ?_, hkind, hcanonical, hpayload, hbytes, hbody⟩)
  exact hlength ▸ hcount

/-- What an honest identity creates with a settled payload can be stored as it is. -/
theorem exists_stored (hhonest : Honest B) {identity : SigningIdentity} {context : ContextId}
    {parents : List EventId} {kind : String} {payload : Json} {event : SignedEventV1}
    (hsettled : validateJsonValue payload 1 = .ok () → Settled B payload)
    (hok : identity.createEvent B context parents kind payload = .ok event) :
    ∃ e : StoredEvent B, e.event = event := by
  obtain ⟨body, hsigned⟩ := SigningIdentity.createEvent_signs hok
  have hverify := SigningIdentity.verify_of_signBody hhonest hsigned
  obtain ⟨wire, hwire⟩ := canonicalize_total (B := B) (event.toJson B)
  have hrender : event.toWire B = .ok wire := SignedEventV1.toWire_eq_ok.mpr ⟨hverify, hwire⟩
  obtain ⟨hversion, -, -, -, hpayload, -⟩ :=
    EventBodyV1.validate_eq_ok.mp (SignedEventV1.verify_validate hverify)
  have hplain : Settled B event.body.payload := by
    rw [createEvent_eq_ok hok] at hpayload ⊢
    exact hsettled hpayload
  exact ⟨⟨event, wire, SignedEventV1.fromWire_of_settled hrender
    (SignedEventV1.settled_toJson hversion hplain), hrender⟩, rfl⟩

/-! ### What a built chain holds -/

/-- What the suite's author creates for one note of a task. -/
def CreatedBy (B : Boundary) (author : SigningIdentity) (context : ContextId) (genesis : EventId)
    (task : EvalTask) (entry : String × ℕ) (e : StoredEvent B) : Prop :=
  childEvent B author context genesis task entry.2 entry.1 = .ok e.event

/-- A genesis and one stored child for each note of a task, with the critical one among them. -/
structure Sown (L : Ledger B) (author : SigningIdentity) (context : ContextId) (task : EvalTask)
    (chain : TaskChain) (g : StoredEvent B) (es : List (StoredEvent B)) : Prop where
  genesis : genesisEvent B author context = .ok g.event
  rooted : g ∈ L.events
  stored : ∀ e ∈ es, e ∈ L.events
  created : List.Forall₂ (CreatedBy B author context g.id task) task.chain.steps.zipIdx es
  root : chain.genesis = g.id
  children : chain.children = es.map StoredEvent.id
  critical : ∃ c ∈ es, chain.critical = c.id ∧
    CreatedBy B author context g.id task (task.criticalNote, task.criticalIndex) c

/-- The created events are those of the notes. -/
theorem mem_created {author : SigningIdentity} {context : ContextId} {genesis : EventId}
    {task : EvalTask} {entries : List (String × ℕ)} {es : List (StoredEvent B)}
    (hcreated : List.Forall₂ (CreatedBy B author context genesis task) entries es)
    (event : SignedEventV1) : event ∈ es.map StoredEvent.event ↔
      ∃ entry ∈ entries, childEvent B author context genesis task entry.2 entry.1 = .ok event :=
  mem_mapEach (f := fun entry : String × ℕ ↦
      childEvent B author context genesis task entry.2 entry.1)
    (mapEach_eq_ok.mpr (List.forall₂_map_right_iff.mpr hcreated))

section Built

variable {L : Ledger B} {t : Tables} {author : SigningIdentity} {context : ContextId}
  {task : EvalTask}

/-- The loop over the notes stores one child for each. -/
theorem growAll_eq_ok (h : L.WellFormed) {genesis : EventId} {entries : List (String × ℕ)}
    {growing grown : Growing} (htables : growing.tables = L.tables)
    (hok : foldEach (growChain B author context task genesis) growing entries = .ok grown) :
    ∃ (L' : Ledger B) (es : List (StoredEvent B)), grown.tables = L'.tables ∧ L'.WellFormed ∧
      (∀ e ∈ L.events, e ∈ L'.events) ∧ (∀ e ∈ es, e ∈ L'.events) ∧
      List.Forall₂ (CreatedBy B author context genesis task) entries es ∧
      grown.children = growing.children ++ es.map StoredEvent.id := by
  induction entries generalizing growing L with
  | nil =>
    rw [foldEach, Except.ok.injEq] at hok
    subst hok
    exact ⟨L, [], htables, h, fun e he ↦ he, List.forall_mem_nil _, .nil,
      (List.append_nil _).symm⟩
  | cons entry rest ih =>
    obtain ⟨next, hnext, hok⟩ := bind_eq_ok.mp hok
    obtain ⟨event, hevent, hnext⟩ := bind_eq_ok.mp hnext
    obtain ⟨⟨tables, status⟩, hadmit, hnext⟩ := bind_eq_ok.mp hnext
    rw [mapError_eq_ok] at hevent hadmit
    rw [Except.ok.injEq] at hnext
    subst hnext
    have hbody := createEvent_eq_ok hevent
    rw [htables] at hadmit
    obtain ⟨M, rfl, hM, hsubset, e, he, rfl⟩ := admit_created h
      (fun hvalid ↦ by rw [hbody] at hvalid ⊢; exact settled_childPayload hvalid) hadmit
    obtain ⟨L', es, htables', h', hkept, hstored, hcreated, hchildren⟩ := ih hM rfl hok
    refine ⟨L', e :: es, htables', h', fun f hf ↦ hkept f (hsubset f hf),
      List.forall_mem_cons.mpr ⟨hkept e he, hstored⟩, .cons hevent hcreated, ?_⟩
    rw [hchildren, List.append_assoc]
    rfl

/-- A chain that is built holds what its author creates for its task, and nothing else. -/
theorem buildChain_sown (h : L.WellFormed) {chain : TaskChain}
    (hindex : task.criticalIndex < task.chain.steps.length)
    (hnote : task.chain.steps[task.criticalIndex]? = some task.criticalNote)
    (hok : buildChain B author context task L.tables = .ok (t, chain)) :
    ∃ (L' : Ledger B) (g : StoredEvent B) (es : List (StoredEvent B)), t = L'.tables ∧
      L'.WellFormed ∧ Sown L' author context task chain g es := by
  obtain ⟨-, -, -, -, first, note, hfirst, hroot, hsame, c, -, hpicked, hcritical⟩ :=
    buildChain_eq_ok h hok hindex
  rw [hnote, Option.some.injEq] at hsame
  subst hsame
  obtain ⟨genesis, hgenesis, hok⟩ := bind_eq_ok.mp hok
  obtain ⟨⟨provisioned, u⟩, hprovision, hok⟩ := bind_eq_ok.mp hok
  obtain ⟨⟨rooted, status⟩, hrooted, hok⟩ := bind_eq_ok.mp hok
  obtain ⟨grown, hgrown, hok⟩ := bind_eq_ok.mp hok
  obtain ⟨critical, -, hok⟩ := bind_eq_ok.mp hok
  rw [mapError_eq_ok] at hgenesis hprovision hrooted
  rw [hfirst, Except.ok.injEq] at hgenesis
  subst hgenesis
  rw [Except.ok.injEq, Prod.mk.injEq] at hok
  obtain ⟨rfl, rfl⟩ := hok
  have hbody := createEvent_eq_ok hfirst
  obtain ⟨M, rfl, hprovisioned⟩ := provisionContext_steps h hprovision
  obtain ⟨N, rfl, hN, -, g, hg, rfl⟩ := admit_created (hprovisioned.wellFormed h)
    (fun _ ↦ by rw [hbody]; exact settled_root) hrooted
  obtain ⟨L', es, htables, h', hkept, hstored, hcreated, hchildren⟩ := growAll_eq_ok hN rfl hgrown
  -- the critical event is the child that is created at the critical index
  have hentry : (task.criticalNote, task.criticalIndex) ∈ task.chain.steps.zipIdx := by
    rw [List.mem_zipIdx_iff_getElem?]
    exact hnote
  obtain ⟨e, he, hsame⟩ := List.mem_map.mp
    ((mem_created hcreated c.event).mpr ⟨_, hentry, hcritical⟩)
  refine ⟨L', g, es, htables, h', ?_⟩
  exact
    { genesis := hfirst
      rooted := hkept g hg
      stored := hstored
      created := hcreated
      root := rfl
      children := hchildren
      critical := ⟨e, he, hpicked.symm.trans (congrArg SignedEventV1.eventId hsame.symm),
        hcritical.trans (congrArg Except.ok hsame.symm)⟩ }

end Built

/-! ### The children of a chain -/

section Children

variable {L : Ledger B} {author : SigningIdentity} {context : ContextId} {task : EvalTask}
  {chain : TaskChain} {g : StoredEvent B} {es : List (StoredEvent B)}

theorem CreatedBy.body {genesis : EventId} {entry : String × ℕ} {e : StoredEvent B}
    (h : CreatedBy B author context genesis task entry e) :
    e.event.body = ⟨EVENT_VERSION, context, [genesis], childKind task entry.2, author.author B,
      childPayload entry.2 entry.1⟩ := createEvent_eq_ok h

/-- Every child was created for some note. -/
theorem Sown.exists_entry (h : Sown L author context task chain g es) {e : StoredEvent B}
    (he : e ∈ es) : ∃ entry, CreatedBy B author context g.id task entry e := by
  obtain ⟨entry, -, hentry⟩ := (mem_created h.created e.event).mp (List.mem_map_of_mem he)
  exact ⟨entry, hentry⟩

theorem Sown.planted (h : Sown L author context task chain g es) : Planted L context chain where
  genesis := by
    have hbody := createEvent_eq_ok h.genesis
    refine ⟨g, h.rooted, h.root.symm, ?_, ?_⟩
    · rw [StoredEvent.context, hbody]
    · rw [StoredEvent.parents, hbody]
  children := by
    intro id hid
    rw [h.children] at hid
    obtain ⟨e, he, rfl⟩ := List.mem_map.mp hid
    obtain ⟨entry, hentry⟩ := h.exists_entry he
    refine ⟨e, h.stored e he, rfl, ?_, ?_⟩
    · rw [StoredEvent.context, hentry.body]
    · rw [StoredEvent.parents, hentry.body, h.root]
  critical := by
    obtain ⟨c, hc, hid, -⟩ := h.critical
    rw [hid, h.children]
    exact List.mem_map_of_mem hc

theorem map_payload {genesis : EventId} {entries : List (String × ℕ)}
    (hcreated : List.Forall₂ (CreatedBy B author context genesis task) entries es) :
    es.map (fun e ↦ e.event.body.payload) =
      entries.map fun entry ↦ childPayload entry.2 entry.1 := by
  induction hcreated with
  | nil => rfl
  | cons hentry _ ih => rw [List.map_cons, List.map_cons, ih, hentry.body]

/-- The payloads of the children tell them apart. -/
theorem Sown.nodup (h : Sown L author context task chain g es) : es.Nodup := by
  have hpayloads := map_payload h.created
  have hnotes : (task.chain.steps.zipIdx.map fun entry ↦ childPayload entry.2 entry.1).Nodup := by
    refine List.Nodup.map ?_ ?_
    · rintro ⟨note, index⟩ ⟨note', index'⟩ hsame
      simp only [childPayload, Json.obj.injEq, List.cons.injEq, Prod.mk.injEq, Json.str.injEq,
        Json.num.injEq, Number.posInt.injEq, true_and, and_true] at hsame
      exact Prod.ext hsame.1 (Nat.succ.inj hsame.2)
    · refine List.Nodup.of_map Prod.snd ?_
      rw [List.zipIdx_map_snd]
      exact List.nodup_range'
  exact List.Nodup.of_map _ (hpayloads ▸ hnotes)

theorem Sown.nodup_ids (hwell : L.WellFormed) (h : Sown L author context task chain g es) :
    (es.map StoredEvent.id).Nodup :=
  List.Nodup.map_on (fun _ he _ hf hid ↦ hwell.event_eq_of_id (h.stored _ he) (h.stored _ hf) hid)
    h.nodup

/-- No child is a root of its context. -/
theorem Sown.kind_ne (hwell : L.WellFormed) (h : Sown L author context task chain g es)
    {e : StoredEvent B} (he : e ∈ es) : e.kind ≠ "context.genesis" := by
  intro hkind
  have hchild : e.id ∈ chain.children := h.children ▸ List.mem_map_of_mem he
  obtain ⟨entry, hentry⟩ := h.exists_entry he
  have hcontext : e.context = g.context := by
    rw [StoredEvent.context, StoredEvent.context, hentry.body, createEvent_eq_ok h.genesis]
  have hroot : g.parents = [] := by rw [StoredEvent.parents, createEvent_eq_ok h.genesis]
  obtain ⟨r, hr, hrcontext, -, hexpected⟩ := hwell.rooted e (h.stored e he)
  obtain ⟨s, hs, hscontext, -, hexpected'⟩ := hwell.rooted g h.rooted
  have hsame : r = s := by
    have hfound := hwell.registration_eq_some.mpr ⟨hr, hrcontext.trans hcontext⟩
    rw [hwell.registration_eq_some.mpr ⟨hs, hscontext⟩, Option.some.injEq] at hfound
    exact hfound.symm
  subst hsame
  refine h.planted.child_ne_genesis hwell hchild ?_
  rw [hexpected (Or.inr hkind), h.root, hexpected' (Or.inl hroot)]

/-- The two events have one kind and payload. -/
def SameDraft (e f : StoredEvent B) : Prop :=
  e.kind = f.kind ∧ e.event.body.payload = f.event.body.payload

/-- Two chains of one task have the same kinds and payloads, in order. -/
theorem sameDrafts {genesis genesis' : EventId} {context' : ContextId}
    {entries : List (String × ℕ)} {fs : List (StoredEvent B)}
    (hes : List.Forall₂ (CreatedBy B author context genesis task) entries es)
    (hfs : List.Forall₂ (CreatedBy B author context' genesis' task) entries fs) :
    List.Forall₂ SameDraft es fs := by
  induction hes generalizing fs with
  | nil =>
    cases hfs
    exact .nil
  | cons hentry _ ih =>
    cases hfs with
    | cons hentry' hrest =>
      refine .cons ⟨?_, ?_⟩ (ih hrest)
      · rw [StoredEvent.kind, StoredEvent.kind, hentry.body, hentry'.body]
      · rw [hentry.body, hentry'.body]

theorem exists_sameDraft {es fs : List (StoredEvent B)} (h : List.Forall₂ SameDraft es fs)
    {e : StoredEvent B} (he : e ∈ es) : ∃ f ∈ fs, SameDraft e f := by
  induction h with
  | nil => exact absurd he List.not_mem_nil
  | @cons first f _ _ hsame _ ih =>
    rcases List.mem_cons.mp he with rfl | he
    · exact ⟨f, List.mem_cons_self, hsame⟩
    · obtain ⟨f', hf', hsame'⟩ := ih he
      exact ⟨f', List.mem_cons_of_mem _ hf', hsame'⟩

/-- Within a chain the kind and the payload determine the child. -/
theorem Sown.eq_of_sameDraft (h : Sown L author context task chain g es) {e f : StoredEvent B}
    (he : e ∈ es) (hf : f ∈ es) (hsame : SameDraft e f) : e = f := by
  have hmade : ∀ e ∈ es, author.createEvent B context [g.id] e.kind e.event.body.payload =
      .ok e.event := by
    intro e he
    obtain ⟨entry, hentry⟩ := h.exists_entry he
    rw [StoredEvent.kind, hentry.body]
    exact hentry
  have hevent := hmade e he
  rw [hsame.1, hsame.2, hmade f hf, Except.ok.injEq] at hevent
  exact StoredEvent.ext_event hevent.symm

end Children

/-! ### Building a chain in a fresh context -/

section Building

variable {L M : Ledger B} {author : SigningIdentity} {context : ContextId} {task : EvalTask}
  {genesis : EventId}

/-- An admitted event becomes the head of the main branch of its context when the branch stands as
expected. -/
theorem admit_main (h : L.WellFormed) {e : StoredEvent B} (hadmits : L.Admits e)
    {expected : RefExpectation} (hcurrent : L.localHead e.context mainName = expected.current) :
    ∃ (M : Ledger B) (status : AdmissionStatus),
      admitEvent B e.event (mainCas e.context expected e.id) L.tables = .ok (M.tables, status) ∧
      M.WellFormed ∧ Absorbs L [e] M ∧ M.localHead e.context mainName = some e.id := by
  have hadmitted := h.admitted hadmits
  have hsame : (L.admitted e).localHead e.context mainName = expected.current := by
    rw [localHead_admitted, hcurrent]
  have htargets : (mainCas e.context expected e.id).Targets e.event := ⟨rfl, rfl⟩
  by_cases hthere : (L.admitted e).localHead e.context mainName = some e.id
  · refine ⟨L.admitted e, _, (admit_eq_ok h).mpr
      ⟨e, e.authentic.renders, htargets, hadmits, _, true, .applied hthere, rfl, rfl⟩,
      hadmitted, .admitted h hadmits, hthere⟩
  · have hheld : (L.admitted e).Holds e.context e.id := ⟨e, mem_admitted h hadmits, rfl, rfl⟩
    refine ⟨(L.admitted e).setLocal ⟨e.context, mainName, e.id⟩, _, (admit_eq_ok h).mpr
      ⟨e, e.authentic.renders, htargets, hadmits, _, false, .swapped hsame hthere, rfl, rfl⟩,
      hadmitted.setLocal hheld, (Absorbs.admitted h hadmits).congr rfl rfl rfl, ?_⟩
    rw [hadmitted.localHead_setLocal, if_pos rfl]

/-- The children of eligible notes are admitted one after the other. -/
theorem growAll_succeeds (h : L.WellFormed) {r : Registration}
    (hr : L.registration context = some r) {S : List (StoredEvent B)}
    (hS : Eligible B L.tables context r.expected S) {notes : List String} {first : ℕ}
    {es done : List (StoredEvent B)}
    (hcreated : List.Forall₂ (CreatedBy B author context genesis task) (notes.zipIdx first) es)
    (hes : ∀ e ∈ es, e ∈ S) (hdone : ∀ e ∈ done, e ∈ S) (hM : M.WellFormed)
    (habsorbs : Absorbs L done M) (hheld : M.Holds context genesis) {growing : Growing}
    (htables : growing.tables = M.tables)
    (hhead : M.localHead context mainName = if first = 0 then none else some growing.head) :
    ∃ (grown : Growing) (N : Ledger B),
      foldEach (growChain B author context task genesis) growing (notes.zipIdx first) =
        .ok grown ∧
      grown.tables = N.tables ∧ N.WellFormed ∧ Absorbs L (done ++ es) N ∧
      (growing.critical ≠ none ∨
        task.criticalIndex ∈ (notes.zipIdx first).map Prod.snd → grown.critical ≠ none) := by
  induction notes generalizing first es done M growing with
  | nil =>
    cases hcreated
    refine ⟨growing, M, rfl, htables, hM, (List.append_nil done).symm ▸ habsorbs, ?_⟩
    exact fun hchosen ↦ hchosen.resolve_right List.not_mem_nil
  | cons note rest ih =>
    cases hcreated with
    | @cons _ e _ es hcreate hrest =>
      obtain ⟨he, hes⟩ := List.forall_mem_cons.mp hes
      have hcreate : childEvent B author context genesis task first note = .ok e.event := hcreate
      have hbody := createEvent_eq_ok hcreate
      have hcontext : e.context = context := by rw [StoredEvent.context, hbody]
      have hparents : e.parents = [genesis] := by rw [StoredEvent.parents, hbody]
      have hadmits : M.Admits e := by
        refine habsorbs.admits h hM hr hS hdone he fun parent hparent ↦ ?_
        rw [hparents, List.mem_singleton] at hparent
        rwa [hparent]
      -- the first child creates the main branch, each later one replaces its sibling
      let expected : RefExpectation := if first = 0 then .absent else .head growing.head
      have hcurrent : M.localHead e.context mainName = expected.current := by
        rw [hcontext, hhead]
        by_cases hfirst : first = 0
        · rw [if_pos hfirst, show expected = .absent from if_pos hfirst]
          rfl
        · rw [if_neg hfirst, show expected = .head growing.head from if_neg hfirst]
          rfl
      obtain ⟨N, status, hadmit, hN, hmore, hnext⟩ := admit_main hM hadmits hcurrent
      rw [hcontext] at hadmit hnext
      let next : Growing := ⟨N.tables, growing.children ++ [e.id],
        if first = task.criticalIndex then some e.id else growing.critical, e.id⟩
      have hgrow : growChain B author context task genesis growing (note, first) = .ok next := by
        rw [← htables] at hadmit
        refine bind_eq_ok.mpr ⟨e.event, mapError_eq_ok.mpr hcreate, ?_⟩
        exact bind_eq_ok.mpr ⟨(N.tables, status), mapError_eq_ok.mpr hadmit, rfl⟩
      have hstill : N.Holds context genesis := by
        obtain ⟨f, hf, hid, hfcontext⟩ := hheld
        exact ⟨f, (hmore.events f).mpr (Or.inl hf), hid, hfcontext⟩
      have hhead' : N.localHead context mainName =
          if first + 1 = 0 then none else some next.head := by
        rw [hnext, if_neg (Nat.succ_ne_zero first)]
      obtain ⟨grown, P, hgrown, hP, hwell, htotal, hchosen⟩ := ih hrest hes
        (List.forall_mem_append.mpr ⟨hdone, List.forall_mem_singleton.mpr he⟩) hN
        (habsorbs.trans hmore) hstill (show next.tables = N.tables from rfl) hhead'
      refine ⟨grown, P, bind_eq_ok.mpr ⟨next, hgrow, hgrown⟩, hP, hwell, ?_, fun hcritical ↦ ?_⟩
      · rwa [List.append_assoc, List.singleton_append] at htotal
      · refine hchosen ?_
        by_cases hhere : first = task.criticalIndex
        · exact Or.inl (by rw [show next.critical = some e.id from if_pos hhere]; simp)
        · rw [show next.critical = growing.critical from if_neg hhere]
          refine hcritical.imp_right fun hmem ↦ ?_
          rw [List.zipIdx_cons, List.map_cons, List.mem_cons] at hmem
          exact hmem.resolve_left (Ne.symm hhere)

/-- The events of a chain are eligible once its context is provisioned. -/
theorem eligible_chain {g : StoredEvent B}
    (hP : (L.provision context g.id [author.author B]).WellFormed)
    (hgenesis : genesisEvent B author context = .ok g.event) {es : List (StoredEvent B)}
    (hcreated : List.Forall₂ (CreatedBy B author context g.id task) task.chain.steps.zipIdx es)
    (hkinds : ∀ e ∈ es, e.kind ≠ "context.genesis")
    (hapart : ∀ e ∈ g :: es, ∀ f, f ∈ L.events ∨ f ∈ g :: es → f.id = e.id → f = e) :
    Eligible B (L.provision context g.id [author.author B]).tables context g.id (g :: es) := by
  have hroot := createEvent_eq_ok hgenesis
  have hbodies : ∀ e ∈ es, e.context = context ∧ e.author = author.author B ∧
      e.parents = [g.id] := by
    intro e he
    obtain ⟨entry, -, hentry⟩ := (mem_created hcreated e.event).mp (List.mem_map_of_mem he)
    have hbody := createEvent_eq_ok hentry
    refine ⟨?_, ?_, ?_⟩
    · rw [StoredEvent.context, hbody]
    · rw [StoredEvent.author, hbody]
    · rw [StoredEvent.parents, hbody]
  constructor
  · refine List.forall_mem_cons.mpr ⟨?_, fun e he ↦ (hbodies e he).1⟩
    rw [StoredEvent.context, hroot]
  · intro e he
    have hauthor : e.author = author.author B := by
      rcases List.mem_cons.mp he with rfl | he
      · rw [StoredEvent.author, hroot]
      · exact (hbodies e he).2.1
    rw [isAuthorized_tables hP.toWellKeyed, decide_eq_true_eq, hauthor]
    exact List.mem_append_right _ (List.mem_singleton_self _)
  · intro e he hopening
    rcases List.mem_cons.mp he with rfl | he
    · exact ⟨rfl, by rw [hroot], by rw [hroot]⟩
    · rcases hopening with hnone | hkind
      · rw [(hbodies e he).2.2] at hnone
        exact absurd hnone (List.cons_ne_nil _ _)
      · exact absurd hkind (hkinds e he)
  · intro e he f hf hid
    rw [hapart e he f (Or.inr hf) hid]
  · intro e he wire hwire
    rw [eventWire_tables hP.toWellKeyed, Except.ok.injEq, Option.map_eq_some_iff] at hwire
    obtain ⟨f, hf, rfl⟩ := hwire
    obtain ⟨hf, hid⟩ := hP.find_eq_some.mp hf
    rw [hapart e he f (Or.inl hf) hid]

/-- A chain is built in a context that is not provisioned, when its genesis and its children are
told apart from each other and from what is stored. -/
theorem buildChain_succeeds (h : L.WellFormed) (hfresh : L.registration context = none)
    (hindex : task.criticalIndex < task.chain.steps.length) {g : StoredEvent B}
    (hgenesis : genesisEvent B author context = .ok g.event) {es : List (StoredEvent B)}
    (hcreated : List.Forall₂ (CreatedBy B author context g.id task) task.chain.steps.zipIdx es)
    (hkinds : ∀ e ∈ es, e.kind ≠ "context.genesis")
    (hapart : ∀ e ∈ g :: es, ∀ f, f ∈ L.events ∨ f ∈ g :: es → f.id = e.id → f = e) :
    ∃ (M : Ledger B) (chain : TaskChain),
      buildChain B author context task L.tables = .ok (M.tables, chain) ∧ M.WellFormed ∧
        Absorbs (L.provision context g.id [author.author B]) (g :: es) M := by
  have hvalid : validateAuthors B [author.author B] = .ok () :=
    unit_bind_eq_ok.mpr ⟨ensure_true (by decide : 1 ≤ MAX_AUTHORIZED_AUTHORS), unit_bind_eq_ok.mpr
      ⟨ensure_true (List.cons_ne_nil _ _), ensure_true (canonical_singleton _ _)⟩⟩
  have hroot := createEvent_eq_ok hgenesis
  have hcontext : g.context = context := by rw [StoredEvent.context, hroot]
  let P : Ledger B := L.provision context g.id [author.author B]
  have hprovision : provisionContext B ⟨context, g.id, [author.author B]⟩ L.tables =
      .ok (P.tables, ()) := provisionContext_fresh h hvalid hfresh
  have hP : P.WellFormed := h.provision hfresh (List.cons_ne_nil _ _) (List.nodup_singleton _)
  have hr : P.registration context = some ⟨context, g.id, false⟩ := hP.registration_eq_some.mpr
    ⟨List.mem_append_right _ (List.mem_singleton_self _), rfl⟩
  have hS : Eligible B P.tables context g.id (g :: es) :=
    eligible_chain hP hgenesis hcreated hkinds hapart
  have hadmits : P.Admits g :=
    (Absorbs.refl P).admits hP hP hr hS (List.forall_mem_nil _) List.mem_cons_self
      fun parent hparent ↦ by
        rw [StoredEvent.parents, hroot] at hparent
        exact absurd hparent List.not_mem_nil
  obtain ⟨status, hrooted⟩ : ∃ status : AdmissionStatus,
      admitEvent B g.event .none P.tables = .ok ((P.admitted g).tables, status) :=
    admit_none hP hadmits
  have habsorbs := Absorbs.admitted hP hadmits
  have hheld : (P.admitted g).Holds context g.id := ⟨g, mem_admitted hP hadmits, rfl, hcontext⟩
  have hhead : (P.admitted g).localHead context mainName = none := by
    rw [localHead_admitted]
    exact h.localHead_of_fresh hfresh mainName
  let start : Growing := ⟨(P.admitted g).tables, [], none, g.id⟩
  have hstart : (P.admitted g).localHead context mainName =
      if 0 = 0 then none else some start.head := by rw [hhead, if_pos rfl]
  obtain ⟨grown, M, hgrown, htables, hM, htotal, hchosen⟩ := growAll_succeeds hP hr hS hcreated
    (fun e he ↦ List.mem_cons_of_mem _ he)
    (List.forall_mem_singleton.mpr List.mem_cons_self) (hP.admitted hadmits) habsorbs hheld
    (show start.tables = (P.admitted g).tables from rfl) hstart
  obtain ⟨critical, hcritical⟩ : ∃ critical, grown.critical = some critical := by
    refine Option.ne_none_iff_exists'.mp (hchosen (Or.inr ?_))
    rw [List.zipIdx_map_snd, List.mem_range']
    exact ⟨task.criticalIndex, hindex, by omega⟩
  refine ⟨M, ⟨g.id, grown.children, critical⟩, ?_, hM, htotal⟩
  rw [buildChain, hgenesis, mapError_ok, ok_bind]
  have hsame : (⟨g.event.body.context, g.event.eventId, [author.author B]⟩ : ContextProvision) =
      ⟨context, g.id, [author.author B]⟩ := by
    rw [← hcontext]
  rw [hsame, hprovision, mapError_ok, ok_bind]
  dsimp only
  rw [hrooted, mapError_ok, ok_bind]
  dsimp only
  rw [hgrown, ok_bind, hcritical, required_some, ok_bind, htables]

end Building

end ContextMesh.Evaluation
