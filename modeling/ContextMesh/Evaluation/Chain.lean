import ContextMesh.Ledger.Operations
import ContextMesh.Selection.Baseline
import ContextMesh.Evaluation.Sufficiency

/-!
The chains of the evaluation. Every task of a manifest gets a context of its own, with a genesis and
one child of the genesis for each note; the child at the critical index is the critical event. What
the store holds afterwards is a star: no child is an ancestor of another.
-/

set_option autoImplicit false
set_option relaxedAutoImplicit false

namespace ContextMesh.Evaluation

open Checked Ordered Contract Relation Store Ledger ContextMesh.Delta Delivery Selection

/-- Fixture author seed of every chain. -/
def EVAL_AUTHOR_SEED : UInt8 := 9

def EVAL_BUDGET : SelectionBudget := ⟨64, 65536⟩

def EVAL_LIMITS : ClosureLimits := ⟨100000, 67108864⟩

/-- A kind that never appears in the chains. -/
def EVAL_POLICY_KIND : String := "eval.no-critical-kind"

inductive EvalMode
  | challengeProbe
  | taskBenchmark
  deriving DecidableEq

/-- The expected outcomes of the case with the critical event withheld and of the repaired one. -/
structure ExpectedOutcome where
  withheld : CaseExpectation
  repaired : CaseExpectation
  deriving DecidableEq

/-- The kind of every child that is not critical, and the notes of all children in order. -/
structure TaskChainSpec where
  kind : String
  steps : List String
  deriving DecidableEq

structure EvalTask where
  id : String
  mode : EvalMode
  task : String
  chain : TaskChainSpec
  criticalIndex : ℕ
  criticalKind : String
  criticalNote : String
  expected : ExpectedOutcome
  deriving DecidableEq

structure EvalManifest where
  schema : String
  version : String
  tasks : List EvalTask
  deriving DecidableEq

inductive EvalError
  | invalidManifest
  | contract (error : ContractError)
  | store (error : StoreError)
  | selection (error : SelectionError)
  | closure (error : ClosureError)
  | delta (error : DeltaError)
  | handoff (error : HandoffError)

/-- Checks one task against the identifiers seen before it. -/
def checkTask (seen : List String) (task : EvalTask) : Except EvalError (List String) := do
  ensure (task.id ≠ "" ∧ task.id ∉ seen) .invalidManifest
  ensure (¬ isBlank task.task) .invalidManifest
  ensure (task.chain.kind ≠ "" ∧ task.chain.steps ≠ []) .invalidManifest
  ensure (task.criticalIndex < task.chain.steps.length) .invalidManifest
  ensure (task.criticalKind ≠ "" ∧ task.criticalNote ≠ "") .invalidManifest
  ensure (task.chain.steps[task.criticalIndex]? = some task.criticalNote) .invalidManifest
  .ok (task.id :: seen)

def EvalManifest.validate (manifest : EvalManifest) : Except EvalError Unit := do
  ensure (manifest.schema = "ob08-eval-manifest") .invalidManifest
  ensure (manifest.version = "1") .invalidManifest
  ensure (manifest.tasks ≠ []) .invalidManifest
  let _ ← foldEach checkTask [] manifest.tasks
  .ok ()

/-- The genesis, the children in order of insertion, and the critical one among them. -/
structure TaskChain where
  genesis : EventId
  children : List EventId
  critical : EventId

def TaskChain.candidates (chain : TaskChain) : List EventId := chain.children

def TaskChain.candidatesWithoutCritical (chain : TaskChain) : List EventId :=
  chain.children.filter fun event ↦ event ≠ chain.critical

/-! ### Building a chain -/

/-- The context of a task: the low byte of its index plus one, repeated. -/
def evalContext (index : ℕ) : ContextId :=
  ⟨⟨List.replicate 32 (UInt8.ofNat index + 1), List.length_replicate⟩⟩

def evalAuthor : SigningIdentity := ⟨⟨List.replicate 32 EVAL_AUTHOR_SEED, List.length_replicate⟩⟩

def mainName : LocalRefName := ⟨"main", validateName_main⟩

/-- The swap of the main branch to an event. -/
def mainCas (context : ContextId) (expected : RefExpectation) (head : EventId) : RefMutation :=
  .compareAndSwap context mainName expected head

variable (B : Boundary)

def genesisEvent (author : SigningIdentity) (context : ContextId) :
    Except ContractError SignedEventV1 :=
  author.createEvent B context [] "context.genesis" (.obj [("note", .str "root")])

/-- The kind of the child at an index. -/
def childKind (task : EvalTask) (index : ℕ) : String :=
  if index = task.criticalIndex then task.criticalKind else task.chain.kind

def childPayload (index : ℕ) (note : String) : Json :=
  .obj [("note", .str note), ("value", .num (.posInt (index + 1)))]

/-- The child at an index: a sibling of all others, over the genesis alone. -/
def childEvent (author : SigningIdentity) (context : ContextId) (genesis : EventId)
    (task : EvalTask) (index : ℕ) (note : String) : Except ContractError SignedEventV1 :=
  author.createEvent B context [genesis] (childKind task index) (childPayload index note)

/-- The store, the children and the critical event so far, and the head of the main branch. -/
structure Growing where
  tables : Tables
  children : List EventId
  critical : Option EventId
  head : EventId

/-- Creates and admits one child. -/
def growChain (author : SigningIdentity) (context : ContextId) (task : EvalTask)
    (genesis : EventId) (growing : Growing) (entry : String × ℕ) : Except EvalError Growing := do
  let event ← (childEvent B author context genesis task entry.2 entry.1).mapError .contract
  let expected : RefExpectation := if entry.2 = 0 then .absent else .head growing.head
  let (tables, _) ← (admitEvent B event (mainCas context expected event.eventId)
    growing.tables).mapError .store
  .ok ⟨tables, growing.children ++ [event.eventId],
    if entry.2 = task.criticalIndex then some event.eventId else growing.critical, event.eventId⟩

/-- Builds the genesis and the children of a task. -/
def buildChain (author : SigningIdentity) (context : ContextId) (task : EvalTask) (t : Tables) :
    Except EvalError (Tables × TaskChain) := do
  let genesis ← (genesisEvent B author context).mapError .contract
  let (provisioned, _) ← (provisionContext B
    ⟨genesis.body.context, genesis.eventId, [author.author B]⟩ t).mapError .store
  let (rooted, _) ← (admitEvent B genesis .none provisioned).mapError .store
  let grown ← foldEach (growChain B author context task genesis.eventId)
    ⟨rooted, [], none, genesis.eventId⟩ task.chain.steps.zipIdx
  let critical ← required grown.critical .invalidManifest
  .ok (grown.tables, ⟨genesis.eventId, grown.children, critical⟩)

variable {B}

/-! ### What is stored -/

/-- A payload that a chain's author may sign is settled: its number is a safe integer. -/
theorem settled_childPayload {index : ℕ} {note : String}
    (h : validateJsonValue (childPayload index note) 1 = .ok ()) :
    Settled B (childPayload index note) := by
  obtain ⟨-, h⟩ := unit_bind_eq_ok.mp h
  obtain ⟨-, h⟩ := unit_bind_eq_ok.mp h
  obtain ⟨hvalue, -⟩ := unit_bind_eq_ok.mp h
  obtain ⟨-, hnumber⟩ := unit_bind_eq_ok.mp hvalue
  refine settled_obj (increasing_of_names ["note", "value"] rfl (by decide)) ?_
  simp only [List.forall_mem_cons]
  exact ⟨settled_str _, settled_posInt (ensure_eq_ok.mp hnumber),
    fun _ hm ↦ absurd hm List.not_mem_nil⟩

theorem settled_root : Settled B (.obj [("note", .str "root")]) :=
  settled_obj (List.pairwise_singleton _ _) fun _ hm ↦ List.mem_singleton.mp hm ▸ settled_str _

variable {L : Ledger B} {t : Tables}

/-- An admitted event with a settled payload is stored as it was created. -/
theorem admit_created (h : L.WellFormed) {event : SignedEventV1} {mutation : RefMutation}
    {status : AdmissionStatus}
    (hsettled : validateJsonValue event.body.payload 1 = .ok () → Settled B event.body.payload)
    (hok : admitEvent B event mutation L.tables = .ok (t, status)) :
    ∃ L' : Ledger B, t = L'.tables ∧ L'.WellFormed ∧ (∀ e ∈ L.events, e ∈ L'.events) ∧
      ∃ e ∈ L'.events, e.event = event := by
  obtain ⟨L', rfl, hsteps⟩ := admit_steps h hok
  obtain ⟨e, hrender, -, hadmits, M, applied, hswaps, htables, -⟩ := (admit_eq_ok h).mp hok
  obtain ⟨hversion, -, -, -, hpayload, -⟩ := EventBodyV1.validate_eq_ok.mp
    (SignedEventV1.verify_validate (SignedEventV1.toWire_eq_ok.mp hrender).1)
  have hsame : e.event = event := by
    have hread := SignedEventV1.fromWire_of_settled hrender
      (SignedEventV1.settled_toJson hversion (hsettled hpayload))
    exact Except.ok.inj (e.authentic.parses.symm.trans hread)
  have hmem : e ∈ M.events := by
    cases hswaps with
    | none => exact mem_admitted h hadmits
    | applied _ => exact mem_admitted h hadmits
    | swapped _ _ => exact mem_admitted h hadmits
  rw [← mem_tables_events, ← htables, mem_tables_events] at hmem
  exact ⟨L', rfl, hsteps.wellFormed h, hsteps.events_subset, e, hmem, hsame⟩

/-- The genesis and the children of a chain are stored as a star. -/
structure Planted (L : Ledger B) (context : ContextId) (chain : TaskChain) : Prop where
  genesis : ∃ g ∈ L.events, g.id = chain.genesis ∧ g.context = context ∧ g.parents = []
  children : ∀ id ∈ chain.children,
    ∃ e ∈ L.events, e.id = id ∧ e.context = context ∧ e.parents = [chain.genesis]
  critical : chain.critical ∈ chain.children

/-- What the loop over the notes keeps: the children so far are stored over the genesis, and the
critical event is chosen once its index is passed. -/
def Grows (B : Boundary) (author : SigningIdentity) (context : ContextId) (task : EvalTask)
    (genesis : SignedEventV1) (index : ℕ) (growing : Growing) : Prop :=
  ∃ L : Ledger B, growing.tables = L.tables ∧ L.WellFormed ∧
    (∃ g ∈ L.events, g.event = genesis) ∧
    (∀ id ∈ growing.children,
      ∃ e ∈ L.events, e.id = id ∧ e.context = context ∧ e.parents = [genesis.eventId]) ∧
    (task.criticalIndex < index → ∃ e ∈ L.events, growing.critical = some e.id ∧
      e.id ∈ growing.children ∧ ∃ note, task.chain.steps[task.criticalIndex]? = some note ∧
        childEvent B author context genesis.eventId task task.criticalIndex note = .ok e.event)

theorem growChain_grows {author : SigningIdentity} {context : ContextId} {task : EvalTask}
    {genesis : SignedEventV1} {index : ℕ} {growing next : Growing} {note : String}
    (hnote : task.chain.steps[index]? = some note)
    (h : Grows B author context task genesis index growing)
    (hok : growChain B author context task genesis.eventId growing (note, index) = .ok next) :
    Grows B author context task genesis (index + 1) next := by
  obtain ⟨L, htables, hwell, ⟨g, hg, hgenesis⟩, hchildren, hcritical⟩ := h
  obtain ⟨event, hevent, hok⟩ := bind_eq_ok.mp hok
  obtain ⟨⟨tables, status⟩, hadmit, hok⟩ := bind_eq_ok.mp hok
  rw [mapError_eq_ok] at hevent hadmit
  rw [Except.ok.injEq] at hok
  subst hok
  have hbody := createEvent_eq_ok hevent
  rw [htables] at hadmit
  obtain ⟨L', rfl, hwell', hsubset, e, he, rfl⟩ := admit_created hwell
    (fun hvalid ↦ by rw [hbody] at hvalid ⊢; exact settled_childPayload hvalid) hadmit
  refine ⟨L', rfl, hwell', ⟨g, hsubset g hg, hgenesis⟩, fun id hid ↦ ?_, fun hpassed ↦ ?_⟩
  · rcases List.mem_append.mp hid with hid | hid
    · obtain ⟨f, hf, hfields⟩ := hchildren id hid
      exact ⟨f, hsubset f hf, hfields⟩
    · rw [List.mem_singleton.mp hid]
      refine ⟨e, he, rfl, ?_, ?_⟩
      · rw [StoredEvent.context, hbody]
      · rw [StoredEvent.parents, hbody]
  · by_cases hhere : index = task.criticalIndex
    · subst hhere
      exact ⟨e, he, if_pos rfl, List.mem_append_right _ (List.mem_singleton_self _), note, hnote,
        hevent⟩
    · obtain ⟨f, hf, hchosen, hmem, hcreated⟩ := hcritical (by omega)
      exact ⟨f, hsubset f hf, (if_neg hhere).trans hchosen, List.mem_append_left _ hmem, hcreated⟩

/-- A chain that is built is stored, with the critical event that its author creates. -/
theorem buildChain_eq_ok (h : L.WellFormed) {author : SigningIdentity} {context : ContextId}
    {task : EvalTask} {chain : TaskChain}
    (hok : buildChain B author context task L.tables = .ok (t, chain))
    (hindex : task.criticalIndex < task.chain.steps.length) :
    ∃ L' : Ledger B, t = L'.tables ∧ L'.WellFormed ∧ Planted L' context chain ∧
      ∃ genesis note, genesisEvent B author context = .ok genesis ∧
        chain.genesis = genesis.eventId ∧ task.chain.steps[task.criticalIndex]? = some note ∧
        ∃ e ∈ L'.events, e.id = chain.critical ∧
          childEvent B author context genesis.eventId task task.criticalIndex note =
            .ok e.event := by
  obtain ⟨genesis, hgenesis, hok⟩ := bind_eq_ok.mp hok
  obtain ⟨⟨provisioned, u⟩, hprovision, hok⟩ := bind_eq_ok.mp hok
  obtain ⟨⟨rooted, status⟩, hroot, hok⟩ := bind_eq_ok.mp hok
  obtain ⟨grown, hgrown, hok⟩ := bind_eq_ok.mp hok
  obtain ⟨critical, hchosen, hok⟩ := bind_eq_ok.mp hok
  rw [mapError_eq_ok] at hgenesis hprovision hroot
  rw [required_eq_ok] at hchosen
  rw [Except.ok.injEq, Prod.mk.injEq] at hok
  obtain ⟨rfl, rfl⟩ := hok
  have hbody := createEvent_eq_ok hgenesis
  obtain ⟨L₁, rfl, hprovisioned⟩ := provisionContext_steps h hprovision
  obtain ⟨L₂, rfl, hwell, -, g, hg, hsame⟩ := admit_created (hprovisioned.wellFormed h)
    (fun _ ↦ by rw [hbody]; exact settled_root) hroot
  have hstart : Grows B author context task genesis 0
      ⟨L₂.tables, [], none, genesis.eventId⟩ :=
    ⟨L₂, rfl, hwell, ⟨g, hg, hsame⟩, fun id hid ↦ absurd hid List.not_mem_nil,
      fun hpassed ↦ absurd hpassed (Nat.not_lt_zero _)⟩
  obtain ⟨L', htables, hwell', ⟨g', hg', hgenesis'⟩, hchildren, hcritical⟩ :=
    foldEach_indexed (motive := Grows B author context task genesis)
      (fun index growing hgrows note hnote next hnext ↦ growChain_grows hnote hgrows hnext)
      hstart hgrown
  obtain ⟨e, he, hpicked, hmem, note, hnote, hcreated⟩ := hcritical hindex
  rw [hchosen, Option.some.injEq] at hpicked
  refine ⟨L', htables, hwell', ⟨⟨g', hg', ?_⟩, hchildren, hpicked ▸ hmem⟩, genesis, note, hgenesis,
    rfl, hnote, e, he, hpicked.symm, hcreated⟩
  refine ⟨congrArg SignedEventV1.eventId hgenesis', ?_, ?_⟩
  · rw [StoredEvent.context, hgenesis', hbody]
  · rw [StoredEvent.parents, hgenesis', hbody]

/-! ### The star -/

section Star

variable {context : ContextId} {chain : TaskChain}

theorem Planted.ancestor_genesis (h : L.WellFormed) (hplanted : Planted L context chain)
    {id : EventId} : L.Ancestor chain.genesis id ↔ id = chain.genesis := by
  constructor
  · intro hancestor
    rcases ReflTransGen.cases_head hancestor with hsame | ⟨parent, ⟨e, he, hid, hparent⟩, -⟩
    · exact hsame.symm
    · obtain ⟨g, hg, hgid, -, hparents⟩ := hplanted.genesis
      obtain rfl := h.event_eq_of_id he hg (hid.trans hgid.symm)
      rw [hparents] at hparent
      exact absurd hparent List.not_mem_nil
  · rintro rfl
    exact ReflTransGen.refl

theorem Planted.ancestor_child (h : L.WellFormed) (hplanted : Planted L context chain)
    {child id : EventId} (hchild : child ∈ chain.children) (hancestor : L.Ancestor child id) :
    id = child ∨ id = chain.genesis := by
  rcases ReflTransGen.cases_head hancestor with hsame | ⟨parent, ⟨e, he, hid, hparent⟩, hrest⟩
  · exact Or.inl hsame.symm
  · obtain ⟨f, hf, hfid, -, hparents⟩ := hplanted.children child hchild
    obtain rfl := h.event_eq_of_id he hf (hid.trans hfid.symm)
    rw [hparents, List.mem_singleton] at hparent
    subst hparent
    exact Or.inr ((hplanted.ancestor_genesis h).mp hrest)

/-- A child is not the genesis: it has a parent. -/
theorem Planted.child_ne_genesis (h : L.WellFormed) (hplanted : Planted L context chain)
    {child : EventId} (hchild : child ∈ chain.children) : child ≠ chain.genesis := by
  rintro rfl
  obtain ⟨g, hg, hgid, -, hnone⟩ := hplanted.genesis
  obtain ⟨e, he, hid, -, hparents⟩ := hplanted.children _ hchild
  obtain rfl := h.event_eq_of_id he hg (hid.trans hgid.symm)
  rw [hnone] at hparents
  cases hparents

/-- A child comes in below a selection of children only when it is selected. -/
theorem Planted.below_iff (h : L.WellFormed) (hplanted : Planted L context chain)
    {selected : List EventId} (hselected : ∀ id ∈ selected, id ∈ chain.children) {child : EventId}
    (hchild : child ∈ chain.children) : L.Below selected child ↔ child ∈ selected := by
  constructor
  · rintro ⟨head, hhead, hancestor⟩
    rcases hplanted.ancestor_child h (hselected head hhead) hancestor with rfl | hgenesis
    · exact hhead
    · exact absurd hgenesis (hplanted.child_ne_genesis h hchild)
  · exact fun hmem ↦ ⟨child, hmem, ReflTransGen.refl⟩

end Star

end ContextMesh.Evaluation
