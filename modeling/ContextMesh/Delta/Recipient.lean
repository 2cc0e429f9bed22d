import ContextMesh.Store.Dag

/-!
The known history of a recipient: the closure of a head under parents, walked over the store one
event at a time with bounds on the events and on their payload bytes.
-/

set_option autoImplicit false
set_option relaxedAutoImplicit false

namespace ContextMesh.Delta

open Checked Ordered Contract Traversal Store

/-- Hard maximum unique events in one dependency closure. -/
def MAX_CLOSURE_EVENTS : ℕ := 100000

/-- Hard maximum total exported byte size of one dependency closure. -/
def MAX_CLOSURE_BYTES : ℕ := 67108864

/-- Hard maximum number of events in one delta. -/
def MAX_DELTA_EVENTS : ℕ := 100000

/-- Hard maximum total exported byte size of one delta. -/
def MAX_DELTA_BYTES : ℕ := 67108864

inductive ClosureError
  | unverifiableSource (event : EventId)
  | danglingParent (child parent : EventId)
  | wrongContext (event : EventId)
  | cycle
  | limitExceeded
  | invalidPolicy
  | store (error : StoreError)
  | internal

structure ClosureLimits where
  maxEvents : ℕ
  maxExportedBytes : ℕ

/-- Limits no greater than the hard bounds. -/
def ClosureLimits.new (maxEvents maxExportedBytes : ℕ) : Except ClosureError ClosureLimits := do
  ensure (maxEvents ≠ 0 ∧ maxEvents ≤ MAX_CLOSURE_EVENTS ∧ maxExportedBytes ≠ 0 ∧
    maxExportedBytes ≤ MAX_CLOSURE_BYTES) .limitExceeded
  .ok ⟨maxEvents, maxExportedBytes⟩

def ClosureLimits.default : ClosureLimits := ⟨MAX_CLOSURE_EVENTS, MAX_CLOSURE_BYTES⟩

inductive DeltaError
  | unknownRecipientHead (head : EventId)
  | contextMismatch
  | wrongContext (event : EventId)
  | cycle
  | danglingParent (child parent : EventId)
  | limitExceeded
  | unverifiableSource (event : EventId)
  | invalidState
  | store (error : StoreError)
  | internal

/-- A recipient's known history: its head, the head's closure in canonical order, and the sum of
the canonical payload bytes of the closure. -/
structure RecipientState where
  context : ContextId
  head : Option EventId
  closure : List EventId
  totalBytes : ℕ

/-- The events entered so far and the sum of their canonical payload bytes. -/
structure KnownHistory where
  closure : List EventId
  totalBytes : ℕ

variable (B : Boundary)

/-- An absent event is blamed on the child that referred to it. -/
def absentKnown (id : EventId) : Option EventId → DeltaError
  | some referencedBy => .danglingParent referencedBy id
  | none => .unverifiableSource id

/-- Loads an event of the context within the limits, with its parents as successors. -/
def visitKnown (t : Tables) (context : ContextId) (limits : ClosureLimits) (known : KnownHistory)
    (id : EventId) (child : Option EventId) :
    Except DeltaError (KnownHistory × Unit × List EventId) := do
  ensure (¬ known.closure.length ≥ limits.maxEvents) .limitExceeded
  let found ← (event B t id).mapError .store
  let event ← required found (absentKnown id child)
  ensure (event.body.context = context) (.wrongContext id)
  let payload ← (canonicalPayloadBytes B event.body.payload).mapError
    fun _ ↦ .unverifiableSource id
  let totalBytes := known.totalBytes + payload.length
  ensure (totalBytes ≤ limits.maxExportedBytes) .limitExceeded
  .ok (⟨known.closure ++ [id], totalBytes⟩, (), event.body.parents)

/-- The walk over the parents of a head; every visit spends one event of the limit. -/
def historian (t : Tables) (context : ContextId) (limits : ClosureLimits) :
    Walker EventId KnownHistory Unit DeltaError where
  visit known id child := visitKnown B t context limits known id child
  fuel known := limits.maxEvents - known.closure.length
  fuel_lt := by
    intro known id child known' u parents h
    obtain ⟨hcount, h⟩ := unit_bind_eq_ok.mp h
    obtain ⟨found, -, h⟩ := bind_eq_ok.mp h
    obtain ⟨event, -, h⟩ := bind_eq_ok.mp h
    obtain ⟨-, h⟩ := unit_bind_eq_ok.mp h
    obtain ⟨payload, -, h⟩ := bind_eq_ok.mp h
    obtain ⟨-, h⟩ := unit_bind_eq_ok.mp h
    rw [ensure_eq_ok] at hcount
    rw [Except.ok.injEq, Prod.mk.injEq] at h
    rw [← h.1, List.length_append, List.length_singleton]
    omega
  cycle _ := .cycle

namespace RecipientState

/-- A recipient that knows nothing. -/
def coldStart (context : ContextId) : RecipientState := ⟨context, none, [], 0⟩

/-- Derives and verifies the known history of a head. -/
def atHead (t : Tables) (context : ContextId) (head : EventId) (limits : ClosureLimits) :
    Except DeltaError RecipientState := do
  let limits ← (ClosureLimits.new limits.maxEvents limits.maxExportedBytes).mapError
    fun _ ↦ .limitExceeded
  let found ← (event B t head).mapError .store
  let event ← required found (.unknownRecipientHead head)
  ensure (event.body.context = context) (.wrongContext head)
  let progress ← (historian B t context limits).run (enters none [head]) (.start ⟨[], 0⟩)
  .ok ⟨context, some head, normalize (EventId.text B) progress.acc.closure,
    progress.acc.totalBytes⟩

/-- A recipient state from a stated closure, which has to hold the stated head. -/
def fromClosure (context : ContextId) (head : Option EventId) (closure : List EventId)
    (totalBytes : ℕ) : Except DeltaError RecipientState := do
  let closure := normalize (EventId.text B) closure
  ensure (closure.length ≤ MAX_DELTA_EVENTS) .limitExceeded
  ensure (∀ id ∈ head, binarySearch (EventId.text B) closure (id.text B) = true) .invalidState
  .ok ⟨context, head, closure, totalBytes⟩

end RecipientState

end ContextMesh.Delta
