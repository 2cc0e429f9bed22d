import ContextMesh.Store.Admission
import ContextMesh.Foundation.Traversal

/-!
Graph operations: context creation, branches, appends and merges, and the deterministic projection
of the ancestry of explicit heads. The projection is the generic traversal whose nodes are event
identifiers and whose visits load, verify and count stored events.
-/

set_option autoImplicit false
set_option relaxedAutoImplicit false

namespace ContextMesh.Store

open Checked Ordered Contract Traversal

/-- Hard maximum number of events in one projection. -/
def MAX_PROJECTION_EVENTS : ℕ := 100000

/-- Hard maximum sum of canonical envelope bytes in one projection. -/
def MAX_PROJECTION_WIRE_BYTES : ℕ := 67108864

def MAX_PROJECTION_HEADS : ℕ := 256

/-- Hard maximum number of events in one bundle, and of heads in one traversal. -/
def MAX_BUNDLE_EVENTS : ℕ := 1024

structure ProjectionLimits where
  maxEvents : ℕ
  maxWireBytes : ℕ

/-- Limits no greater than the hard bounds. -/
def ProjectionLimits.new (maxEvents maxWireBytes : ℕ) : Except StoreError ProjectionLimits := do
  ensure (maxEvents ≠ 0 ∧ maxEvents ≤ MAX_PROJECTION_EVENTS ∧ maxWireBytes ≠ 0 ∧
    maxWireBytes ≤ MAX_PROJECTION_WIRE_BYTES) .projectionLimitExceeded
  .ok ⟨maxEvents, maxWireBytes⟩

def ProjectionLimits.default : ProjectionLimits :=
  ⟨MAX_PROJECTION_EVENTS, MAX_PROJECTION_WIRE_BYTES⟩

def validateProjectionLimits (limits : ProjectionLimits) : Except StoreError Unit :=
  ProjectionLimits.new limits.maxEvents limits.maxWireBytes >>= fun _ ↦ .ok ()

variable (B : Boundary)

/-- Creates, provisions, activates and branches a context with the given entropy, in one
transaction. -/
def createContext (identity : SigningIdentity) (branch : LocalRefName)
    (entropy : Option (Fixed 32)) (t : Tables) :
    Except StoreError (Tables × (ContextId × SignedEventV1 × LocalRef)) := do
  let bytes ← required entropy .entropyUnavailable
  let context : ContextId := ⟨bytes⟩
  let genesis ← (identity.createEvent B context [] "context.genesis" (.obj [])).mapError .contract
  let wire ← (genesis.toWire B).mapError .contract
  let row ← contextRow t context
  ensure (row = none) .contextProvisionMismatch
  let t ← t.insertContext context genesis.eventId
  let t ← t.insertAuthor context (identity.author B)
  let t ← t.insertEvent genesis.eventId context (identity.author B) "context.genesis" wire
  let t ← activate context genesis.eventId t
  let t ← t.insertLocalRef context branch genesis.eventId
  .ok (t, context, genesis, ⟨context, branch, genesis.eventId⟩)

/-- Provisions a pending context without trusting or contacting a peer. -/
def joinContext (provision : ContextProvision) (t : Tables) :
    Except StoreError (Tables × Unit) := do
  validateAuthors B provision.authorizedAuthors
  match ← contextRow t provision.context with
  | some row => do
    ensure (row.2 = 0 ∧ row.1 = provision.expectedGenesis) .contextProvisionMismatch
    let authors ← authorRows B t provision.context
    ensure (authors = provision.authorizedAuthors) .contextProvisionMismatch
    .ok (t, ())
  | none => do
    let inserted ← insertProvision provision t
    .ok (inserted, ())

/-- Signs and appends one single-parent event to an expected branch head. -/
def append (identity : SigningIdentity) (context : ContextId) (branch : LocalRefName)
    (expected : EventId) (kind : String) (payload : Json) (t : Tables) :
    Except StoreError (Tables × SignedEventV1) := do
  ensure (¬ (kind = "context.genesis" ∨ kind = "context.merge")) .reservedEventKind
  let event ← (identity.createEvent B context [expected] kind payload).mapError .contract
  let (admitted, _) ← admitEvent B event
    (.compareAndSwap context branch (.head expected) event.eventId) t
  .ok (admitted, event)

/-- Creates an absent local branch at a stored event of the context. -/
def createBranch (context : ContextId) (name : LocalRefName) (fromHead : EventId) (t : Tables) :
    Except StoreError (Tables × LocalRef) := do
  requireInContext B context t fromHead
  match ← localRefId t context name with
  | some head => do
    ensure (head = fromHead) .refAlreadyExists
    .ok (t, ⟨context, name, fromHead⟩)
  | none => do
    let inserted ← t.insertLocalRef context name fromHead
    .ok (inserted, ⟨context, name, fromHead⟩)

/-- Signs a merge of 2 to 64 parents, the expected head among them, and moves its branch. -/
def merge (identity : SigningIdentity) (context : ContextId) (branch : LocalRefName)
    (expected : EventId) (parents : List EventId) (payload : Json) (t : Tables) :
    Except StoreError (Tables × SignedEventV1) := do
  ensure (2 ≤ parents.length ∧ parents.length ≤ MAX_PARENTS) .invalidMerge
  let sorted := sort (EventId.text B) parents
  ensure (sorted.IsChain (· ≠ ·) ∧ expected ∈ sorted) .invalidMerge
  let event ← (identity.createEvent B context sorted "context.merge" payload).mapError .contract
  let (admitted, _) ← admitEvent B event
    (.compareAndSwap context branch (.head expected) event.eventId) t
  .ok (admitted, event)

/-! ### Projection -/

def normalizeHeads (heads : List EventId) : Except StoreError (List EventId) := do
  ensure (heads ≠ [] ∧ heads.length ≤ MAX_PROJECTION_HEADS) .projectionLimitExceeded
  .ok (normalize (EventId.text B) heads)

def loadVerifiedEvent (t : Tables) (id : EventId) : Except StoreError SignedEventV1 := do
  let found ← eventWire t id
  let wire ← required found (.parentMissing id)
  let event ← (SignedEventV1.fromWire B wire).mapError fun _ ↦ .corruptStorage
  ensure (event.eventId = id) .corruptStorage
  validateStoredEvent B t event
  .ok event

/-- The events entered so far and the sum of their canonical envelope bytes. -/
structure Usage where
  events : ℕ
  wireBytes : ℕ

/-- Loads an event of the context within the limits, with its parents as successors. -/
def visitEvent (t : Tables) (context : ContextId) (limits : ProjectionLimits) (usage : Usage)
    (id : EventId) : Except StoreError (Usage × SignedEventV1 × List EventId) := do
  let event ← loadVerifiedEvent B t id
  ensure (event.body.context = context) (.parentContextMismatch id)
  let wire ← (event.toWire B).mapError fun _ ↦ .corruptStorage
  ensure (usage.events + 1 ≤ limits.maxEvents ∧
    usage.wireBytes + wire.length ≤ limits.maxWireBytes) .projectionLimitExceeded
  .ok (⟨usage.events + 1, usage.wireBytes + wire.length⟩, event, event.body.parents)

/-- The projection walks parents; every visit spends one event of the limit. -/
def projector (t : Tables) (context : ContextId) (limits : ProjectionLimits) :
    Walker EventId Usage SignedEventV1 StoreError where
  visit usage id _ := visitEvent B t context limits usage id
  fuel usage := limits.maxEvents - usage.events
  fuel_lt := by
    intro usage id via usage' event parents h
    obtain ⟨loaded, -, h⟩ := bind_eq_ok.mp h
    obtain ⟨-, h⟩ := unit_bind_eq_ok.mp h
    obtain ⟨wire, -, h⟩ := bind_eq_ok.mp h
    obtain ⟨hlimits, h⟩ := unit_bind_eq_ok.mp h
    rw [ensure_eq_ok] at hlimits
    rw [Except.ok.injEq, Prod.mk.injEq] at h
    rw [← h.1]
    dsimp only
    omega
  cycle _ := .projectionCycle

/-- The unique parent-first ancestry of the heads, with the sum of its envelope bytes. -/
def projectOn (t : Tables) (context : ContextId) (heads : List EventId)
    (limits : ProjectionLimits) : Except StoreError (List SignedEventV1 × ℕ) := do
  validateProjectionLimits limits
  ensure (heads ≠ [] ∧ heads.length ≤ MAX_BUNDLE_EVENTS) .projectionLimitExceeded
  let progress ← (projector B t context limits).run (enters none heads) (.start ⟨0, 0⟩)
  .ok (progress.order.map Prod.snd, progress.acc.wireBytes)

/-- Complete, deterministic, parent-first ancestry selected by explicit heads. -/
structure Projection where
  context : ContextId
  heads : List EventId
  events : List SignedEventV1
  canonicalWireBytes : ℕ

def project (t : Tables) (context : ContextId) (heads : List EventId)
    (limits : ProjectionLimits) : Except StoreError Projection := do
  validateProjectionLimits limits
  let heads ← normalizeHeads B heads
  let (events, wireBytes) ← projectOn B t context heads limits
  .ok ⟨context, heads, events, wireBytes⟩

end ContextMesh.Store
