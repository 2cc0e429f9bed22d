import ContextMesh.Delta.Coverage

/-!
The walkers over one ancestry. The loader of a closure and the historian of a recipient are written
apart, but both load the graph of the events stored in a context: a walk that completes has entered
the ancestry of its heads and nothing else, and a walk completes when the ancestry stays within its
bounds. With the projection of the store these are three walks over one set.
-/

set_option autoImplicit false
set_option relaxedAutoImplicit false

namespace ContextMesh.Delta

open Checked Ordered Keyed Contract Relation Traversal Store Ledger

variable {B : Boundary}

/-! ### Walks over stored events -/

section Walk

variable {A D ε : Type} {datum : StoredEvent B → D}

/-- The graph of the events a lookup finds, with what a walker keeps of an event. -/
def keptGraph (datum : StoredEvent B → D) (stored : EventId → Option (StoredEvent B))
    (id : EventId) : Option (D × List EventId) :=
  (stored id).map fun e ↦ (datum e, e.parents)

/-- What is kept of the events does not change the edges. -/
theorem edge_keptGraph (stored : EventId → Option (StoredEvent B)) :
    Edge (keptGraph datum stored) = Edge (graph stored) := by
  ext child parent
  rw [edge_graph]
  constructor
  · rintro ⟨kept, parents, hnode, hparent⟩
    obtain ⟨e, he, heq⟩ := Option.map_eq_some_iff.mp hnode
    rw [← (Prod.mk.inj heq).2] at hparent
    exact ⟨e, he, hparent⟩
  · rintro ⟨e, he, hparent⟩
    exact ⟨datum e, e.parents, by rw [keptGraph, he, Option.map_some], hparent⟩

/-- What a walk has entered are stored events. -/
theorem exists_kept {stored : EventId → Option (StoredEvent B)} {entered : List (EventId × D)}
    (hidentity : ∀ {id e}, stored id = some e → e.id = id)
    (hnode : ∀ x ∈ entered, ∃ parents, keptGraph datum stored x.1 = some (x.2, parents)) :
    ∃ es : List (StoredEvent B), entered = es.map (fun e ↦ (e.id, datum e)) ∧
      ∀ e ∈ es, stored e.id = some e := by
  induction entered with
  | nil => exact ⟨[], rfl, fun _ he ↦ absurd he List.not_mem_nil⟩
  | cons x rest ih =>
    obtain ⟨⟨parents, hx⟩, hrest⟩ := List.forall_mem_cons.mp hnode
    obtain ⟨e, he, heq⟩ := Option.map_eq_some_iff.mp hx
    obtain ⟨es, rfl, hes⟩ := ih hrest
    have hid := hidentity he
    refine ⟨e :: es, ?_, List.forall_mem_cons.mpr ⟨hid ▸ he, hes⟩⟩
    rw [List.map_cons]
    exact congrArg (· :: _) (Prod.ext hid.symm (Prod.mk.inj heq).1.symm)

variable {L : Ledger B} {context : ContextId} {heads : List EventId}
  {weigh : A → EventId × D → A} {w : Walker EventId A D ε} {a : A}

theorem reached_keptGraph (h : L.WellFormed) (hheads : ∀ head ∈ heads, L.Holds context head)
    {id : EventId} :
    Reached (keptGraph datum (inContext L.find context)) heads id ↔ L.Below heads id := by
  rw [Reached, edge_keptGraph]
  exact h.closed.reached_inContext hheads

/-- A completed walk over the events of a context has entered the ancestry of its heads. -/
theorem run_ancestry (h : L.WellFormed)
    (hw : w.Loads (keptGraph datum (inContext L.find context)) weigh)
    {p : Progress EventId A D} (hrun : w.run (enters none heads) (.start a) = .ok p) :
    (∀ head ∈ heads, L.Holds context head) ∧ ∃ es : List (StoredEvent B),
      (∀ e ∈ es, e ∈ L.events ∧ e.context = context) ∧ (es.map StoredEvent.id).Nodup ∧
      (∀ id, id ∈ es.map StoredEvent.id ↔ L.Below heads id) ∧
      p.acc = (es.map fun e ↦ (e.id, datum e)).foldl weigh a := by
  obtain ⟨hnodup, hmem, hfirst, entered, hperm, hacc⟩ := Walker.run_sound hw hrun
  have hidentity {id : EventId} {e : StoredEvent B} (he : inContext L.find context id = some e) :
      e ∈ L.events ∧ e.id = id ∧ e.context = context := by
    obtain ⟨hfind, hcontext⟩ := inContext_eq_some.mp he
    exact ⟨(h.find_eq_some.mp hfind).1, (h.find_eq_some.mp hfind).2, hcontext⟩
  obtain ⟨es, rfl, hfound⟩ := exists_kept (fun he ↦ (hidentity he).2.1) fun x hx ↦ by
    obtain ⟨before, after, hsplit⟩ := List.append_of_mem (hperm.mem_iff.mp hx)
    obtain ⟨parents, hnode, -⟩ := hfirst before x after hsplit
    exact ⟨parents, hnode⟩
  have hids : (es.map fun e ↦ (e.id, datum e)).map Prod.fst = es.map StoredEvent.id := by
    rw [List.map_map]
    rfl
  have hreached : ∀ id, id ∈ es.map StoredEvent.id ↔
      Reached (keptGraph datum (inContext L.find context)) heads id := fun id ↦ by
    rw [← hids, (hperm.map Prod.fst).mem_iff, hmem]
  have hheads : ∀ head ∈ heads, L.Holds context head := by
    intro head hhead
    obtain ⟨e, he, rfl⟩ := List.mem_map.mp ((hreached head).mpr (Reached.head hhead))
    obtain ⟨hstored, -, hcontext⟩ := hidentity (hfound e he)
    exact ⟨e, hstored, rfl, hcontext⟩
  refine ⟨hheads, es, fun e he ↦ ?_, ?_, fun id ↦ ?_, hacc⟩
  · obtain ⟨hstored, -, hcontext⟩ := hidentity (hfound e he)
    exact ⟨hstored, hcontext⟩
  · rw [← hids]
    exact ((hperm.map Prod.fst).nodup_iff).mpr hnodup
  · rw [hreached, reached_keptGraph h hheads]

/-- A walk over held heads completes when no visit refuses a further event of their ancestry. -/
theorem run_ancestry_complete (h : L.WellFormed)
    (hw : w.Loads (keptGraph datum (inContext L.find context)) weigh)
    (hheads : ∀ head ∈ heads, L.Holds context head)
    (hvisit : ∀ (es : List (StoredEvent B)) (e : StoredEvent B) (via : Option EventId),
      ((es ++ [e]).map StoredEvent.id).Nodup →
      (∀ f ∈ es ++ [e], f ∈ L.events ∧ L.Below heads f.id) → e.context = context →
      ∀ error, w.visit ((es.map fun f ↦ (f.id, datum f)).foldl weigh a) e.id via ≠ .error error) :
    ∃ p, w.run (enters none heads) (.start a) = .ok p := by
  refine Walker.run_complete hw (fun id _ hcycle ↦ h.acyclic id ?_)
    fun entered id via hnodup hentered hfresh hid error hrefused ↦ ?_
  · rw [edge_keptGraph] at hcycle
    refine TransGen.mono (fun child parent hedge ↦ ?_) _ _ hcycle
    obtain ⟨e, he, hparent⟩ := edge_graph.mp hedge
    obtain ⟨hmem, hid⟩ := h.find_eq_some.mp (inContext_eq_some.mp he).1
    exact ⟨e, hmem, hid, hparent⟩
  · obtain ⟨es, rfl, hfound⟩ := exists_kept
      (fun he ↦ (h.find_eq_some.mp (inContext_eq_some.mp he).1).2) fun x hx ↦ (hentered x hx).2
    rw [List.map_map] at hnodup hfresh
    have hbelow := (reached_keptGraph h hheads).mp hid
    obtain ⟨head, hhead, hancestor⟩ := hbelow
    obtain ⟨e, he, rfl, hcontext⟩ := h.holds_ancestor (hheads head hhead) hancestor
    refine hvisit es e via ?_ (fun f hf ↦ ?_) hcontext error hrefused
    · rw [List.map_append, List.map_singleton]
      exact hnodup.append (List.nodup_singleton _) (List.disjoint_singleton.mpr hfresh)
    · rcases List.mem_append.mp hf with hf | hf
      · obtain ⟨hfind, -⟩ := inContext_eq_some.mp (hfound f hf)
        exact ⟨(h.find_eq_some.mp hfind).1,
          (reached_keptGraph h hheads).mp (hentered _ (List.mem_map_of_mem hf)).1⟩
      · rw [List.mem_singleton.mp hf]
        exact ⟨he, head, hhead, hancestor⟩

end Walk

variable {L : Ledger B} {context : ContextId} {limits : ClosureLimits}

/-! ### Known histories -/

/-- What the historian adds of a stored event. -/
def recollect (L : Ledger B) (known : KnownHistory) (x : EventId × Unit) : KnownHistory :=
  ⟨known.closure ++ [x.1], known.totalBytes + ((L.find x.1).map payloadBytes).getD 0⟩

theorem foldl_recollect {es : List (StoredEvent B)} (hfound : ∀ e ∈ es, L.find e.id = some e)
    (known : KnownHistory) : (es.map fun e ↦ (e.id, ())).foldl (recollect L) known =
      ⟨known.closure ++ es.map StoredEvent.id,
        known.totalBytes + (es.map payloadBytes).sum⟩ := by
  induction es generalizing known with
  | nil => simp
  | cons e rest ih =>
    obtain ⟨he, hrest⟩ := List.forall_mem_cons.mp hfound
    rw [List.map_cons, List.foldl_cons, ih hrest, recollect, he, Option.map_some, Option.getD_some,
      List.map_cons, List.map_cons, List.sum_cons, List.append_assoc, List.singleton_append,
      Nat.add_assoc]

theorem visitKnown_eq_ok (h : L.WellKeyed) {known : KnownHistory} {id : EventId}
    {child : Option EventId} {visited : KnownHistory × Unit × List EventId} :
    visitKnown B L.tables context limits known id child = .ok visited ↔
      ∃ e, inContext L.find context id = some e ∧ known.closure.length + 1 ≤ limits.maxEvents ∧
        known.totalBytes + payloadBytes e ≤ limits.maxExportedBytes ∧
        visited = (recollect L known (id, ()), (), e.parents) := by
  rw [visitKnown, unit_bind_eq_ok, ensure_eq_ok, event_tables h, mapError_ok, ok_bind]
  simp only [inContext_eq_some]
  cases hfind : L.find id with
  | none => simp
  | some e =>
    obtain ⟨bytes, hbytes, hlength⟩ := payload_ok e
    rw [Option.map_some, required_some, ok_bind, unit_bind_eq_ok, ensure_eq_ok, hbytes, mapError_ok,
      ok_bind, unit_bind_eq_ok, ensure_eq_ok, Except.ok.injEq, hlength]
    simp only [recollect, hfind, Option.map_some, Option.getD_some]
    constructor
    · rintro ⟨hroom, hcontext, hfits, rfl⟩
      exact ⟨e, ⟨rfl, hcontext⟩, by omega, hfits, rfl⟩
    · rintro ⟨f, ⟨hf, hcontext⟩, hroom, hfits, rfl⟩
      obtain rfl := Option.some.inj hf
      exact ⟨by omega, hcontext, hfits, rfl⟩

theorem historian_loads (h : L.WellKeyed) : (historian B L.tables context limits).Loads
    (keptGraph (fun _ ↦ ()) (inContext L.find context)) (recollect L) := by
  intro known id child known' u parents hvisit
  obtain ⟨e, he, -, -, heq⟩ := (visitKnown_eq_ok h).mp hvisit
  rw [Prod.mk.injEq, Prod.mk.injEq] at heq
  obtain ⟨rfl, -, rfl⟩ := heq
  exact ⟨by rw [keptGraph, he, Option.map_some], rfl⟩

/-- What a known history holds: the ancestry of its head. -/
theorem atHead_eq_ok (h : L.WellFormed) {head : EventId} {recipient : RecipientState}
    (hok : RecipientState.atHead B L.tables context head limits = .ok recipient) :
    recipient.context = context ∧ recipient.head = some head ∧
      Canonical (EventId.text B) recipient.closure ∧
      (∀ id, id ∈ recipient.closure ↔ L.Ancestor head id) ∧
      ∃ es : List (StoredEvent B), (∀ e ∈ es, e ∈ L.events) ∧ (es.map StoredEvent.id).Nodup ∧
        (∀ id, id ∈ es.map StoredEvent.id ↔ L.Ancestor head id) ∧
        recipient.totalBytes = (es.map payloadBytes).sum := by
  obtain ⟨checked, -, hok⟩ := bind_eq_ok.mp hok
  obtain ⟨found, -, hok⟩ := bind_eq_ok.mp hok
  obtain ⟨event, -, hok⟩ := bind_eq_ok.mp hok
  obtain ⟨-, hok⟩ := unit_bind_eq_ok.mp hok
  obtain ⟨progress, hrun, hok⟩ := bind_eq_ok.mp hok
  rw [Except.ok.injEq] at hok
  obtain ⟨-, es, hstored, hnodup, hmem, hacc⟩ :=
    run_ancestry h (historian_loads h.toWellKeyed) hrun
  have hbelow : ∀ id, id ∈ es.map StoredEvent.id ↔ L.Ancestor head id := fun id ↦ by
    rw [hmem, Ledger.Below]
    simp
  rw [foldl_recollect fun e he ↦ h.find_eq_some.mpr ⟨(hstored e he).1, rfl⟩, List.nil_append,
    Nat.zero_add] at hacc
  rw [← hok, hacc]
  refine ⟨rfl, rfl, normalize_canonical EventId.text_injective _, fun id ↦ ?_, es,
    fun e he ↦ (hstored e he).1, hnodup, hbelow, rfl⟩
  rw [← hbelow id]
  exact mem_normalize

/-- The events of a list are stored and within the limits when a list of distinct events inside the
limits extends it. -/
theorem WithinLimits.room {inside : EventId → Prop} (h : WithinLimits B L.tables limits inside)
    {es : List (StoredEvent B)} {e : StoredEvent B}
    (hnodup : ((es ++ [e]).map StoredEvent.id).Nodup)
    (hinside : ∀ f ∈ es ++ [e], f ∈ L.events ∧ inside f.id) :
    es.length + 1 ≤ limits.maxEvents ∧
      (es.map payloadBytes).sum + payloadBytes e ≤ limits.maxExportedBytes := by
  have hwithin := h (es ++ [e]) hnodup fun f hf ↦
    ⟨mem_tables_events.mpr (hinside f hf).1, (hinside f hf).2⟩
  rwa [List.length_append, List.length_singleton, List.map_append, List.sum_append,
    List.map_singleton, List.sum_singleton] at hwithin

/-- The known history of a held head exists when its ancestry is within the limits. -/
theorem atHead_succeeds (h : L.WellFormed) {head : EventId}
    (hlimits : ClosureLimits.new limits.maxEvents limits.maxExportedBytes = .ok limits)
    (hheld : L.Holds context head) (hwithin : WithinLimits B L.tables limits (L.Below [head])) :
    ∃ recipient, RecipientState.atHead B L.tables context head limits = .ok recipient := by
  have hheads : ∀ other ∈ [head], L.Holds context other := fun other hother ↦
    List.mem_singleton.mp hother ▸ hheld
  obtain ⟨p, hrun⟩ : ∃ p, (historian B L.tables context limits).run (enters none [head])
      (.start ⟨[], 0⟩) = .ok p := by
    refine run_ancestry_complete h (historian_loads h.toWellKeyed) hheads
      fun es e via hnodup hinside hcontext error hrefused ↦ ?_
    have hstored : ∀ f ∈ es ++ [e], L.find f.id = some f := fun f hf ↦
      h.find_eq_some.mpr ⟨(hinside f hf).1, rfl⟩
    obtain ⟨hroom, hfits⟩ := hwithin.room hnodup hinside
    have hmem := List.mem_append_right es (List.mem_singleton_self e)
    have hvisit : ∀ known, known = ⟨[] ++ es.map StoredEvent.id, 0 + (es.map payloadBytes).sum⟩ →
        visitKnown B L.tables context limits known e.id via =
          .ok (recollect L known (e.id, ()), (), e.parents) := by
      rintro known rfl
      refine (visitKnown_eq_ok h.toWellKeyed).mpr
        ⟨e, inContext_eq_some.mpr ⟨hstored e hmem, hcontext⟩, ?_, ?_, rfl⟩
      · rw [List.nil_append, List.length_map]
        exact hroom
      · rw [Nat.zero_add]
        exact hfits
    have hentered := foldl_recollect (L := L)
      (fun f hf ↦ hstored f (List.mem_append_left _ hf)) ⟨[], 0⟩
    cases (hvisit _ hentered).symm.trans hrefused
  obtain ⟨e, he, rfl, hcontext⟩ := hheld
  have hevent : event B L.tables e.id = .ok (some e.event) := by
    rw [event_tables h.toWellKeyed, h.find_eq_some.mpr ⟨he, rfl⟩, Option.map_some]
  rw [RecipientState.atHead, hlimits, mapError_ok, ok_bind, hevent, mapError_ok, ok_bind,
    required_some, ok_bind, ensure_true hcontext, ok_bind, hrun, ok_bind]
  exact ⟨_, rfl⟩

/-! ### Closed selections -/

variable {selected candidates : List EventId} {policy : CriticalPolicy}

/-- A load of held heads completes when their ancestry is within the limits. -/
theorem loadClosureNodes_succeeds (h : L.WellFormed)
    (hheld : ∀ head ∈ selected, L.Holds context head)
    (hwithin : WithinLimits B L.tables limits (L.Below selected)) :
    ∃ nodes, loadClosureNodes B L.tables context selected limits = .ok nodes := by
  have hloads : (loader B L.tables context limits).Loads
      (keptGraph StoredEvent.event (inContext L.find context)) (gather B) :=
    loader_loads h.toWellKeyed
  obtain ⟨p, hrun⟩ : ∃ p, (loader B L.tables context limits).run (enters none selected)
      (.start ⟨[], 0⟩) = .ok p := by
    refine run_ancestry_complete h hloads hheld
      fun es e via hnodup hinside hcontext error hrefused ↦ ?_
    have hfind : L.find e.id = some e := h.find_eq_some.mpr
      ⟨(hinside e (List.mem_append_right _ (List.mem_singleton_self _))).1, rfl⟩
    obtain ⟨hroom, hfits⟩ := hwithin.room hnodup hinside
    have hvisit : ∀ loaded, loaded = ⟨[] ++ es.map nodeOf, 0 + (es.map payloadBytes).sum⟩ →
        visitNode B L.tables context limits loaded e.id via =
          .ok (gather B loaded (e.id, e.event), e.event, e.parents) := by
      rintro loaded rfl
      refine (visitNode_eq_ok h.toWellKeyed).mpr
        ⟨e, inContext_eq_some.mpr ⟨hfind, hcontext⟩, ?_, ?_, rfl⟩
      · rw [List.nil_append, List.length_map]
        exact hroom
      · rw [Nat.zero_add]
        exact hfits
    cases (hvisit _ (foldl_gather es ⟨[], 0⟩)).symm.trans hrefused
  rw [loadClosureNodes, hrun, ok_bind]
  exact ⟨_, rfl⟩

theorem event_of_holds (h : L.WellKeyed) {id : EventId} (hheld : L.Holds context id) :
    ∃ e ∈ L.events, e.id = id ∧ e.context = context ∧
      event B L.tables id = .ok (some e.event) := by
  obtain ⟨e, he, hid, hcontext⟩ := hheld
  refine ⟨e, he, hid, hcontext, ?_⟩
  rw [event_tables h, h.find_eq_some.mpr ⟨he, hid⟩, Option.map_some]

/-- A candidate that is held is covered or passed over. -/
theorem coverCandidate_succeeds (h : L.WellKeyed) {id : EventId} (hheld : L.Holds context id)
    (coverage : Coverage) :
    ∃ coverage', coverCandidate B L.tables context policy coverage id = .ok coverage' := by
  obtain ⟨e, he, hid, hcontext, hevent⟩ := event_of_holds h hheld
  unfold coverCandidate
  rw [hevent, mapError_ok, ok_bind, required_some, ok_bind, ensure_true hcontext, ok_bind]
  split_ifs
  · exact ⟨_, rfl⟩
  · exact ⟨_, rfl⟩
  · exact ⟨_, rfl⟩

theorem exportReference_succeeds (h : L.WellKeyed) {id : EventId} (hheld : L.Holds context id)
    (exported : List SourceReference × ℕ) :
    ∃ exported', exportReference B L.tables exported id = .ok exported' := by
  obtain ⟨e, he, hid, hcontext, hevent⟩ := event_of_holds h hheld
  obtain ⟨bytes, hbytes, -⟩ := payload_ok e
  rw [exportReference, hevent, mapError_ok, ok_bind, required_some, ok_bind, SourceEvent.fromSigned,
    hbytes, ok_bind, mapError_ok, ok_bind]
  exact ⟨_, rfl⟩

/-- A selection of held events closes when its ancestry is within the limits. -/
theorem closeSelection_succeeds (h : L.WellFormed)
    (hlimits : ClosureLimits.new limits.maxEvents limits.maxExportedBytes = .ok limits)
    (hcount : candidates.length ≤ MAX_CLOSURE_CANDIDATES)
    (hselected : ∀ head ∈ selected, L.Holds context head)
    (hcandidates : ∀ id ∈ candidates, L.Holds context id)
    (hwithin : WithinLimits B L.tables limits (L.Below selected)) :
    ∃ c, closeSelection B L.tables context selected candidates policy limits = .ok c := by
  have hnormal : L.Below (normalize (EventId.text B) selected) = L.Below selected := by
    ext id
    rw [Below.congr fun id ↦ mem_normalize]
  obtain ⟨nodes, hnodes⟩ := loadClosureNodes_succeeds h
    (fun head hhead ↦ hselected head (mem_normalize.mp hhead)) (hnormal ▸ hwithin)
  obtain ⟨es, hes, hstored, hnodup, hmem, hlength, -⟩ := loadClosureNodes_eq_ok h hnodes
  have hreport := closeCheck_eq_ok h hstored hnodup hmem hlength
  rw [← hes] at hreport
  have hcover : ∀ coverage, ∀ id ∈ normalize (EventId.text B) candidates,
      ∃ coverage', coverCandidate B L.tables context policy coverage id = .ok coverage' :=
    fun coverage id hid ↦
      coverCandidate_succeeds h.toWellKeyed (hcandidates id (mem_normalize.mp hid)) coverage
  obtain ⟨coverage, hcoverage⟩ :=
    foldEach_total hcover ⟨normalize (EventId.text B) (es.map StoredEvent.id), []⟩
  have hheld : ∀ id ∈ normalize (EventId.text B) coverage.closed, L.Holds context id := by
    intro id hid
    obtain ⟨added, hclosed, -, hcritical, -⟩ := coverCandidates_eq_ok h.toWellKeyed hcoverage
    rw [mem_normalize, hclosed, List.mem_append, mem_normalize] at hid
    rcases hid with hid | hid
    · obtain ⟨e, he, rfl⟩ := List.mem_map.mp hid
      exact ⟨e, (hstored e he).1, rfl, (hstored e he).2⟩
    · exact hcandidates id (mem_normalize.mp (hcritical id hid).1)
  have hexportable : ∀ exported, ∀ id ∈ normalize (EventId.text B) coverage.closed,
      ∃ exported', exportReference B L.tables exported id = .ok exported' :=
    fun exported id hid ↦ exportReference_succeeds h.toWellKeyed (hheld id hid) exported
  obtain ⟨out, hexport⟩ := foldEach_total hexportable ([], 0)
  rw [closeSelection, hlimits, ok_bind]
  dsimp only
  rw [ensure_true ((length_normalize_le _ _).trans hcount), ok_bind, hnodes, ok_bind, hreport,
    ok_bind, hcoverage, ok_bind, hexport, ok_bind]
  exact ⟨_, rfl⟩

theorem map_event_referenceOf (es : List (StoredEvent B)) :
    (es.map referenceOf).map SourceReference.event = es.map StoredEvent.id := List.map_map

/-- The references of a closed selection stand in canonical order. -/
theorem closeSelection_canonical (h : L.WellKeyed) {c : ClosedSelection}
    (hok : closeSelection B L.tables context selected candidates policy limits = .ok c) :
    c.context = context ∧
      Canonical (EventId.text B) (c.references.map SourceReference.event) := by
  obtain ⟨checked, -, hok⟩ := bind_eq_ok.mp hok
  obtain ⟨-, hok⟩ := unit_bind_eq_ok.mp hok
  obtain ⟨nodes, -, hok⟩ := bind_eq_ok.mp hok
  obtain ⟨report, -, hok⟩ := bind_eq_ok.mp hok
  obtain ⟨coverage, -, hok⟩ := bind_eq_ok.mp hok
  obtain ⟨⟨references, totalBytes⟩, hexport, hok⟩ := bind_eq_ok.mp hok
  rw [Except.ok.injEq] at hok
  subst hok
  obtain ⟨es, hids, -, hout⟩ := exportReferences_eq_ok h hexport
  rw [List.nil_append, Prod.mk.injEq] at hout
  refine ⟨rfl, ?_⟩
  rw [hout.1, map_event_referenceOf, hids]
  exact normalize_canonical EventId.text_injective _

/-! ### Three walks over one set -/

/-- A projection lists the ancestry of its heads. -/
theorem mem_project (h : L.WellFormed) {heads : List EventId} {wires : ProjectionLimits}
    {projection : Projection} (hok : project B L.tables context heads wires = .ok projection)
    (id : EventId) :
    id ∈ projection.events.map SignedEventV1.eventId ↔ L.Below heads id := by
  obtain ⟨-, hok⟩ := unit_bind_eq_ok.mp hok
  obtain ⟨normalized, hnormalized, hok⟩ := bind_eq_ok.mp hok
  obtain ⟨⟨events, bytes⟩, hprojected, hok⟩ := bind_eq_ok.mp hok
  obtain ⟨-, hnormalized⟩ := unit_bind_eq_ok.mp hnormalized
  rw [Except.ok.injEq] at hnormalized hok
  subst hnormalized hok
  obtain ⟨-, es, rfl, -, -, hancestry, -⟩ := projectOn_tables h hprojected
  rw [List.map_map]
  exact (hancestry id).trans (Below.congr fun id ↦ mem_normalize)

variable (B) in
/-- The stored events with the property stay within the limits, in number and in wire bytes. -/
def WithinWireLimits (t : Tables) (wires : ProjectionLimits) (inside : EventId → Prop) : Prop :=
  ∀ es : List (StoredEvent B), (es.map StoredEvent.id).Nodup →
    (∀ e ∈ es, e.row ∈ t.events ∧ inside e.id) →
      es.length ≤ wires.maxEvents ∧
        (es.map fun e ↦ e.wire.length).sum ≤ wires.maxWireBytes

/-- A projection of held heads succeeds when their ancestry is within its limits. -/
theorem project_succeeds (h : L.WellFormed) {heads : List EventId} {wires : ProjectionLimits}
    (hwires : validateProjectionLimits wires = .ok ())
    (hcount : heads ≠ [] ∧ heads.length ≤ MAX_PROJECTION_HEADS)
    (hheld : ∀ head ∈ heads, L.Holds context head)
    (hwithin : WithinWireLimits B L.tables wires (L.Below heads)) :
    ∃ projection, project B L.tables context heads wires = .ok projection := by
  have hheads : ∀ head ∈ normalize (EventId.text B) heads, L.Holds context head :=
    fun head hhead ↦ hheld head (mem_normalize.mp hhead)
  have hfew : normalize (EventId.text B) heads ≠ [] ∧
      (normalize (EventId.text B) heads).length ≤ MAX_BUNDLE_EVENTS := by
    refine ⟨fun hnil ↦ hcount.1 (normalize_eq_nil.mp hnil), ?_⟩
    exact (length_normalize_le _ _).trans (hcount.2.trans (by decide))
  have hfits : Fits (inContext L.find context) (normalize (EventId.text B) heads) wires := by
    intro es hnodup hes
    refine hwithin es hnodup fun e he ↦ ?_
    obtain ⟨hfind, hreached⟩ := hes e he
    rw [h.closed.reached_inContext hheads] at hreached
    refine ⟨mem_tables_events.mpr (h.find_eq_some.mp (inContext_eq_some.mp hfind).1).1, ?_⟩
    exact (Below.congr fun id ↦ mem_normalize).mp hreached
  obtain ⟨out, hout⟩ :=
    h.closed.projectOn_succeeds h.reads h.acyclic hwires hfew hheads hfits
  rw [project, hwires, ok_bind, normalizeHeads, ensure_true hcount, ok_bind, ok_bind, hout, ok_bind]
  exact ⟨_, rfl⟩

/-- The walkers agree. Over held heads whose ancestry is within the limits, the projection of the
heads, the closed selection of the heads without candidates, and the known histories of the heads
taken together hold the same events; the closed selection of one head and its known history count
the same bytes. -/
theorem walkers_agree (B : Boundary) (t : Tables) (hreachable : Reachable B t)
    (context : ContextId) (heads : List EventId) (hnonempty : heads ≠ [])
    (hcount : heads.length ≤ MAX_PROJECTION_HEADS)
    (hheld : ∀ head ∈ heads, t.Holds B context head) (policy : CriticalPolicy)
    (wires : ProjectionLimits) (hwires : validateProjectionLimits wires = .ok ())
    (limits : ClosureLimits)
    (hlimits : ClosureLimits.new limits.maxEvents limits.maxExportedBytes = .ok limits)
    (bounds : ClosureLimits)
    (hbounds : ClosureLimits.new bounds.maxEvents bounds.maxExportedBytes = .ok bounds)
    (hfits : WithinWireLimits B t wires fun id ↦
      ∃ head ∈ heads, ReflTransGen (t.Parent B) head id)
    (hwithin : WithinLimits B t limits fun id ↦
      ∃ head ∈ heads, ReflTransGen (t.Parent B) head id)
    (hknown : ∀ head ∈ heads, WithinLimits B t bounds (ReflTransGen (t.Parent B) head)) :
    ∃ projection c, ∃ known : EventId → RecipientState,
      project B t context heads wires = .ok projection ∧
      closeSelection B t context heads [] policy limits = .ok c ∧
      (∀ head ∈ heads, RecipientState.atHead B t context head bounds = .ok (known head)) ∧
      (∀ id, id ∈ projection.events.map SignedEventV1.eventId ↔
        id ∈ c.references.map SourceReference.event) ∧
      (∀ id, id ∈ c.references.map SourceReference.event ↔
        ∃ head ∈ heads, id ∈ (known head).closure) ∧
      ∀ head ∈ heads, (∀ other ∈ heads, other = head) →
        c.totalBytes = (known head).totalBytes := by
  obtain ⟨L, h, rfl⟩ := exists_of_reachable hreachable
  simp only [← below_tables, holds_tables] at hfits hwithin hheld
  rw [parent_tables] at hknown
  have hbelow (head : EventId) : L.Below [head] = L.Ancestor head := by
    ext id
    simp [Ledger.Below]
  obtain ⟨projection, hprojection⟩ := project_succeeds h hwires ⟨hnonempty, hcount⟩ hheld hfits
  obtain ⟨c, hc⟩ : ∃ c, closeSelection B L.tables context heads [] policy limits = .ok c :=
    closeSelection_succeeds h hlimits (Nat.zero_le _) hheld
      (fun id hid ↦ absurd hid List.not_mem_nil) hwithin
  have hhistory : ∀ head ∈ heads, ∃ recipient,
      RecipientState.atHead B L.tables context head bounds = .ok recipient := fun head hhead ↦
    atHead_succeeds h hbounds (hheld head hhead) ((hbelow head).symm ▸ hknown head hhead)
  have : Nonempty RecipientState := ⟨.coldStart context⟩
  choose! known hrecipient using hhistory
  obtain ⟨es, href, hbytes, hstored, hnodup, hmem, -, -⟩ := closeSelection_eq_ok h hc
  have hids : ∀ id, id ∈ c.references.map SourceReference.event ↔ L.Below heads id := by
    intro id
    rw [href, map_event_referenceOf, hmem]
    simp
  refine ⟨projection, c, known, hprojection, hc, hrecipient, fun id ↦ ?_, fun id ↦ ?_,
    fun head hhead honly ↦ ?_⟩
  · rw [hids, mem_project h hprojection]
  · rw [hids]
    refine exists_congr fun head ↦ and_congr_right fun hhead ↦ ?_
    obtain ⟨-, -, -, hclosure, -⟩ := atHead_eq_ok h (hrecipient head hhead)
    rw [hclosure]
  · -- the same events without repeats have the same sum of payload bytes
    obtain ⟨-, -, -, -, fs, hfs, hfresh, hancestry, hsum⟩ :=
      atHead_eq_ok h (hrecipient head hhead)
    have hperm : es.Perm fs := by
      refine (List.perm_ext_iff_of_nodup (List.Nodup.of_map _ hnodup)
        (List.Nodup.of_map _ hfresh)).mpr fun e ↦ ?_
      have hsame : e.id ∈ es.map StoredEvent.id ↔ e.id ∈ fs.map StoredEvent.id := by
        rw [hancestry, ← hbelow, hmem, or_iff_left fun hnone ↦ absurd hnone.1 List.not_mem_nil]
        refine Below.congr fun other ↦ ⟨fun hother ↦ ?_, fun hother ↦ ?_⟩
        · exact List.mem_singleton.mpr (honly other hother)
        · exact List.mem_singleton.mp hother ▸ hhead
      have hunique {part : List (StoredEvent B)} (hpart : ∀ f ∈ part, f ∈ L.events)
          (he : e ∈ L.events) : e ∈ part ↔ e.id ∈ part.map StoredEvent.id := by
        refine ⟨List.mem_map_of_mem, fun hid ↦ ?_⟩
        obtain ⟨f, hf, hfid⟩ := List.mem_map.mp hid
        exact h.event_eq_of_id (hpart f hf) he hfid ▸ hf
      constructor
      · exact fun he ↦ (hunique hfs (hstored e he)).mpr (hsame.mp (List.mem_map_of_mem he))
      · exact fun he ↦ (hunique hstored (hfs e he)).mpr (hsame.mpr (List.mem_map_of_mem he))
    rw [hbytes, hsum]
    exact (hperm.map payloadBytes).sum_eq

section Golden

open Reference Golden

/-- A store of few events is within the default limits, however large its payloads are. -/
theorem withinLimits_of_few {L : Ledger B} (hfew : L.events.length ≤ 60)
    (inside : EventId → Prop) : WithinLimits B L.tables .default inside := by
  have hpayload : ∀ n ∈ L.events.map payloadBytes, n ≤ MAX_CANONICAL_PAYLOAD_BYTES := by
    intro n hn
    obtain ⟨e, -, rfl⟩ := List.mem_map.mp hn
    exact payloadBytes_le e
  have hsum := List.sum_le_card_nsmul _ _ hpayload
  rw [List.length_map, nsmul_eq_mul, Nat.cast_id] at hsum
  refine .of_covered (fun e he _ ↦ he) (hfew.trans (by decide))
    (hsum.trans ((Nat.mul_le_mul_right _ hfew).trans ?_))
  decide

theorem withinWireLimits_of_few {L : Ledger B} (hfew : L.events.length ≤ 7)
    (inside : EventId → Prop) : WithinWireLimits B L.tables .default inside := by
  intro es hnodup hes
  have hlength : es.length ≤ 7 := (List.subperm_of_subset (List.Nodup.of_map _ hnodup)
    fun e he ↦ mem_tables_events.mp (hes e he).1).length_le.trans hfew
  have hwire : ∀ n ∈ es.map fun e ↦ e.wire.length, n ≤ MAX_RAW_WIRE_BYTES := by
    intro n hn
    obtain ⟨e, -, rfl⟩ := List.mem_map.mp hn
    exact SignedEventV1.toWire_length e.authentic.renders
  have hsum := List.sum_le_card_nsmul _ _ hwire
  rw [List.length_map, nsmul_eq_mul, Nat.cast_id] at hsum
  refine ⟨hlength.trans (by decide), hsum.trans ((Nat.mul_le_mul_right _ hlength).trans ?_)⟩
  decide

/-- The genesis is selected and the request a critical candidate: the genesis is a reference, only
the request can be an added one, and no parent is missing. -/
theorem closeSelection_parents_advanced : ∃ c, closeSelection Golden.B advanced.tables
    Golden.context [first.id] [second.id] requestPolicy .default = .ok c ∧
      first.id ∈ c.references.map SourceReference.event ∧
      (∀ id ∈ c.addedCritical, id = second.id) ∧
      ∀ ref ∈ c.references, ∀ parent, advanced.tables.Parent Golden.B ref.event parent →
        parent ∈ c.references.map SourceReference.event := by
  have hfirst : advanced.Holds Golden.context first.id := ⟨first, List.mem_cons_self, rfl, rfl⟩
  have hsecond : advanced.Holds Golden.context second.id := ⟨second, second_stored, rfl, rfl⟩
  obtain ⟨c, hok⟩ : ∃ c, closeSelection Golden.B advanced.tables Golden.context [first.id]
      [second.id] requestPolicy .default = .ok c :=
    closeSelection_succeeds advanced_wellFormed rfl (by decide : 1 ≤ MAX_CLOSURE_CANDIDATES)
      (fun head hhead ↦ List.mem_singleton.mp hhead ▸ hfirst)
      (fun id hid ↦ List.mem_singleton.mp hid ▸ hsecond) (withinLimits_of_few (by decide) _)
  obtain ⟨-, hmem, hadded, hclosed⟩ := closeSelection_parents Golden.B advanced.tables
    advanced_reachable Golden.context [first.id] [second.id] requestPolicy .default c hok
  refine ⟨c, hok, (hmem first.id).mpr (Or.inl ⟨first.id, List.mem_singleton_self _, .refl⟩),
    fun id hid ↦ List.mem_singleton.mp (hadded id hid).1, hclosed.mpr ?_⟩
  intro id hid _ parent hparent
  rw [parent_tables] at hparent
  obtain ⟨e, he, hsame, hparent⟩ := hparent
  rw [List.mem_singleton.mp hid] at hsame
  obtain rfl := advanced_wellFormed.event_eq_of_id he second_stored hsame
  rw [second_parents] at hparent
  exact Or.inl ⟨first.id, List.mem_singleton_self _, List.mem_singleton.mp hparent ▸ .refl⟩

/-- The request and its genesis, by three walks. -/
theorem walkers_agree_advanced : ∃ projection c, ∃ known : EventId → RecipientState,
    project Golden.B advanced.tables Golden.context [second.id] .default = .ok projection ∧
    closeSelection Golden.B advanced.tables Golden.context [second.id] [] requestPolicy .default =
      .ok c ∧
    (∀ id, id ∈ projection.events.map SignedEventV1.eventId ↔
      id ∈ c.references.map SourceReference.event) ∧
    c.totalBytes = (known second.id).totalBytes := by
  have hheld : ∀ head ∈ [second.id], advanced.tables.Holds Golden.B Golden.context head := by
    intro head hhead
    rw [List.mem_singleton.mp hhead]
    exact holds_tables.mpr ⟨second, second_stored, rfl, rfl⟩
  have hfew : advanced.events.length ≤ 7 := by decide
  obtain ⟨projection, c, known, hprojection, hc, -, hsame, -, hbytes⟩ :=
    walkers_agree Golden.B advanced.tables advanced_reachable Golden.context [second.id]
      (List.cons_ne_nil _ _) (by decide : 1 ≤ MAX_PROJECTION_HEADS) hheld requestPolicy .default rfl
      .default rfl .default rfl (withinWireLimits_of_few hfew _)
      (withinLimits_of_few (hfew.trans (by decide)) _)
      fun _ _ ↦ withinLimits_of_few (hfew.trans (by decide)) _
  exact ⟨projection, c, known, hprojection, hc, hsame, hbytes second.id
    (List.mem_singleton_self _) fun other hother ↦ List.mem_singleton.mp hother⟩

end Golden

end ContextMesh.Delta
