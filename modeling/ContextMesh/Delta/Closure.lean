import ContextMesh.Delta.Recipient

/-!
Dependency closure and critical coverage. A selection is closed under parents by a walk over the
store and checked by a second walk over the loaded nodes; then the critical candidates are added,
and every closed event is exported as a reference.
-/

set_option autoImplicit false
set_option relaxedAutoImplicit false

namespace ContextMesh.Delta

open Checked Ordered Contract Traversal Store

/-- Hard maximum candidate events scanned for critical coverage. -/
def MAX_CLOSURE_CANDIDATES : ℕ := 65536

/-- Hard maximum distinct critical event kinds in one policy. -/
def MAX_CRITICAL_KINDS : ℕ := 64

/-- One unresolvable parent edge. -/
structure DanglingEdge where
  child : EventId
  parent : EventId
  deriving DecidableEq

/-- One node of the graph that is closed. -/
structure EventNode where
  event : EventId
  parents : List EventId
  deriving DecidableEq

/-- The outcome of a closure of explicit nodes. -/
structure ClosureReport where
  closed : List EventId
  dangling : List DanglingEdge
  cycle : Bool
  exceeded : Bool
  deriving DecidableEq

/-! ### The policy -/

/-- The event kinds that are flagged critical, in canonical order. -/
structure CriticalPolicy where
  kinds : List String
  canonical : Canonical id kinds
  bounded : kinds ≠ [] ∧ kinds.length ≤ MAX_CRITICAL_KINDS
  named : ∀ kind ∈ kinds, kind ≠ "" ∧ kind.utf8ByteSize ≤ MAX_KIND_BYTES

namespace CriticalPolicy

def new (kinds : List String) : Except ClosureError CriticalPolicy :=
  if h : (kinds ≠ [] ∧ kinds.length ≤ MAX_CRITICAL_KINDS) ∧
      ∀ kind ∈ kinds, kind ≠ "" ∧ kind.utf8ByteSize ≤ MAX_KIND_BYTES then
    .ok {
      kinds := normalize id kinds
      canonical := normalize_canonical Function.injective_id kinds
      bounded := ⟨fun hnil ↦ h.1.1 (normalize_eq_nil.mp hnil),
        (length_normalize_le id kinds).trans h.1.2⟩
      named := fun kind hkind ↦ h.2 kind (mem_normalize.mp hkind) }
  else .error .invalidPolicy

def isCritical (policy : CriticalPolicy) (kind : String) : Bool :=
  policy.kinds.any fun flagged ↦ flagged = kind

end CriticalPolicy

variable (B : Boundary)

/-! ### The closure of explicit nodes -/

/-- The parents that the nodes give an event; of several nodes for one event the last one counts. -/
def parentsOf (nodes : List EventNode) (id : EventId) : Option (List EventId) :=
  (nodes.reverse.find? fun node ↦ node.event = id).map fun node ↦
    normalize (EventId.text B) node.parents

/-- The walk so far. -/
structure Survey where
  color : EventId → Color
  closed : List EventId
  dangling : List DanglingEdge
  cycle : Bool
  exceeded : Bool

/-- Walks the parents of the nodes on the stack. A cycle is noted and walked around, and a parent
that is no node is noted as dangling. -/
def survey (parents : EventId → Option (List EventId)) (maxEvents : ℕ) :
    List (Frame EventId Unit) → Survey → Survey
  | [], s => s
  | .exit id _ :: rest, s =>
    survey parents maxEvents rest { s with color := Function.update s.color id .black }
  | .enter id _ :: rest, s =>
    match s.color id with
    | .black => survey parents maxEvents rest s
    | .grey => survey parents maxEvents rest { s with cycle := true }
    | .white =>
      if _ : s.closed.length ≥ maxEvents then { s with exceeded := true }
      else
        let referenced := (parents id).getD []
        let (known, missing) := referenced.partition fun parent ↦ (parents parent).isSome
        survey parents maxEvents (enters (some id) known ++ .exit id () :: rest)
          { s with
            color := Function.update s.color id .grey
            closed := s.closed ++ [id]
            dangling := s.dangling ++ missing.reverse.map (DanglingEdge.mk id) }
  termination_by stack s => (maxEvents - s.closed.length, stack.length)
  decreasing_by
  · simp_wf; omega
  · simp_wf; omega
  · simp_wf; omega
  · simp_wf; omega

/-- The parent closure of explicit nodes, with every unresolvable parent edge, in canonical
order. -/
def closeOver (nodes : List EventNode) (limits : ClosureLimits) : ClosureReport :=
  let starts := normalize (EventId.text B) (nodes.map EventNode.event)
  let s := survey (parentsOf B nodes) limits.maxEvents (enters none starts)
    ⟨fun _ ↦ .white, [], [], false, false⟩
  { closed := normalize (EventId.text B) s.closed
    dangling := normalize (fun edge ↦ toLex (edge.child.text B, edge.parent.text B)) s.dangling
    cycle := s.cycle
    exceeded := s.exceeded }

/-- Checks a node set and fails on the first structural violation: a cycle, an exceeded bound, a
dangling parent. -/
def closeCheck (nodes : List EventNode) (limits : ClosureLimits) :
    Except ClosureError ClosureReport := do
  let report := closeOver B nodes limits
  ensure (report.cycle = false) .cycle
  ensure (report.exceeded = false) .limitExceeded
  match report.dangling with
  | [] => .ok report
  | edge :: _ => .error (.danglingParent edge.child edge.parent)

/-! ### Loading nodes from the store -/

/-- The nodes loaded so far and the sum of their canonical payload bytes. -/
structure Loaded where
  nodes : List EventNode
  totalBytes : ℕ

/-- An absent event is blamed on the child that referred to it. -/
def absentNode (id : EventId) : Option EventId → ClosureError
  | some referencedBy => .danglingParent referencedBy id
  | none => .unverifiableSource id

/-- Loads an event of the context within the limits, with its parents as successors. -/
def visitNode (t : Tables) (context : ContextId) (limits : ClosureLimits) (loaded : Loaded)
    (id : EventId) (child : Option EventId) :
    Except ClosureError (Loaded × SignedEventV1 × List EventId) := do
  ensure (¬ loaded.nodes.length ≥ limits.maxEvents) .limitExceeded
  let found ← (event B t id).mapError .store
  let event ← required found (absentNode id child)
  ensure (event.body.context = context) (.wrongContext id)
  let payload ← (canonicalPayloadBytes B event.body.payload).mapError
    fun _ ↦ .unverifiableSource id
  let totalBytes := loaded.totalBytes + payload.length
  ensure (totalBytes ≤ limits.maxExportedBytes) .limitExceeded
  .ok (⟨loaded.nodes ++ [⟨id, event.body.parents⟩], totalBytes⟩, event, event.body.parents)

/-- The walk over the parents of a selection; every visit spends one event of the limit. -/
def loader (t : Tables) (context : ContextId) (limits : ClosureLimits) :
    Walker EventId Loaded SignedEventV1 ClosureError where
  visit loaded id child := visitNode B t context limits loaded id child
  fuel loaded := limits.maxEvents - loaded.nodes.length
  fuel_lt := by
    intro loaded id child loaded' u parents h
    obtain ⟨hcount, h⟩ := unit_bind_eq_ok.mp h
    obtain ⟨found, -, h⟩ := bind_eq_ok.mp h
    obtain ⟨event, -, h⟩ := bind_eq_ok.mp h
    obtain ⟨-, h⟩ := unit_bind_eq_ok.mp h
    obtain ⟨payload, -, h⟩ := bind_eq_ok.mp h
    obtain ⟨-, h⟩ := unit_bind_eq_ok.mp h
    rw [ensure_eq_ok] at hcount
    rw [Except.ok.injEq, Prod.mk.injEq] at h
    rw [← h.1, List.length_append, List.length_singleton]
    omega
  cycle _ := .cycle

/-- Loads the selected events and all their ancestors. -/
def loadClosureNodes (t : Tables) (context : ContextId) (selected : List EventId)
    (limits : ClosureLimits) : Except ClosureError (List EventNode) := do
  let progress ← (loader B t context limits).run (enters none selected) (.start ⟨[], 0⟩)
  .ok progress.acc.nodes

/-! ### Sources -/

/-- A verified stored event as selection reads it. -/
structure SourceEvent where
  event : EventId
  context : ContextId
  kind : String
  author : AuthorId
  payload : Json
  payloadBytes : ℕ

/-- A bounded reference to one event. -/
structure SourceReference where
  event : EventId
  context : ContextId
  kind : String
  author : AuthorId
  payloadBytes : ℕ
  deriving DecidableEq

def SourceEvent.fromSigned (event : SignedEventV1) : Except ContractError SourceEvent := do
  let payload ← canonicalPayloadBytes B event.body.payload
  .ok ⟨event.eventId, event.body.context, event.body.kind, event.body.author, event.body.payload,
    payload.length⟩

def SourceReference.fromSource (source : SourceEvent) : SourceReference :=
  ⟨source.event, source.context, source.kind, source.author, source.payloadBytes⟩

/-! ### The closed selection -/

/-- The bounded outcome of closing a selection. -/
structure ClosedSelection where
  context : ContextId
  references : List SourceReference
  selected : List EventId
  addedCritical : List EventId
  totalBytes : ℕ
  limits : ClosureLimits

/-- The closed events and the critical events added so far. -/
structure Coverage where
  closed : List EventId
  addedCritical : List EventId

/-- A candidate that the search does not find among the closed events is added when its kind is
critical. -/
def coverCandidate (t : Tables) (context : ContextId) (policy : CriticalPolicy)
    (coverage : Coverage) (id : EventId) : Except ClosureError Coverage :=
  if binarySearch (EventId.text B) coverage.closed (id.text B) then .ok coverage
  else do
    let found ← (event B t id).mapError .store
    let event ← required found (.unverifiableSource id)
    ensure (event.body.context = context) (.wrongContext id)
    if policy.isCritical event.body.kind then
      .ok ⟨coverage.closed ++ [id], coverage.addedCritical ++ [id]⟩
    else .ok coverage

/-- Appends the reference of one closed event and counts its payload bytes. -/
def exportReference (t : Tables) (exported : List SourceReference × ℕ) (id : EventId) :
    Except ClosureError (List SourceReference × ℕ) := do
  let found ← (event B t id).mapError .store
  let event ← required found (.unverifiableSource id)
  let source ← (SourceEvent.fromSigned B event).mapError fun _ ↦ .unverifiableSource id
  .ok (exported.1 ++ [.fromSource source], exported.2 + source.payloadBytes)

/-- Closes a selection over parent edges and covers the critical candidates. -/
def closeSelection (t : Tables) (context : ContextId) (selected candidates : List EventId)
    (policy : CriticalPolicy) (limits : ClosureLimits) : Except ClosureError ClosedSelection := do
  let limits ← ClosureLimits.new limits.maxEvents limits.maxExportedBytes
  let selectedIds := normalize (EventId.text B) selected
  let candidateIds := normalize (EventId.text B) candidates
  ensure (candidateIds.length ≤ MAX_CLOSURE_CANDIDATES) .limitExceeded
  let nodes ← loadClosureNodes B t context selectedIds limits
  let report ← closeCheck B nodes limits
  let coverage ← foldEach (coverCandidate B t context policy) ⟨report.closed, []⟩ candidateIds
  let closedIds := normalize (EventId.text B) coverage.closed
  let addedCritical := normalize (EventId.text B) coverage.addedCritical
  let (references, totalBytes) ← foldEach (exportReference B t) ([], 0) closedIds
  .ok ⟨context, references, selectedIds, addedCritical, totalBytes, limits⟩

end ContextMesh.Delta
