import ContextMesh.Client.Store

/-!
The recovery queries of recorded invocations. A query is no transaction: it reads the head of the
branch in two statements, projects the head in a second snapshot and scans the events in a third.
-/

set_option autoImplicit false
set_option relaxedAutoImplicit false

namespace ContextMesh.Store

open Checked Contract Interaction

/-- Maximum pending or detached results returned before failing closed. -/
def MAX_INVOCATION_QUERY_RESULTS : ℕ := 1024

inductive InvocationKind
  | request
  | result
  deriving DecidableEq

def InvocationKind.fromKind (kind : String) : Option InvocationKind :=
  if kind = "agent.request" then some request
  else if kind = "agent.response" ∨ kind = "agent.error" then some result
  else none

structure InvocationRow where
  kind : InvocationKind
  event : SignedEventV1
  onBranch : Bool
  linked : Bool

variable (B : Boundary)

/-! ### The snapshots -/

/-- An invocation event of the context, reparsed. -/
def parseInvocation (context : ContextId) (row : EventRow) :
    Except StoreError (InvocationKind × SignedEventV1) := do
  let wire ← blobValue row.canonicalWire
  let event ← (SignedEventV1.fromWire B wire).mapError fun _ ↦ .corruptStorage
  let kind ← required (InvocationKind.fromKind event.body.kind) .corruptStorage
  ensure (event.body.context = context) .corruptStorage
  .ok (kind, event)

/-- The invocation events of a context, one more than the bound at most. The statement gives no
order; the model takes insertion order. -/
def scanInvocations (t : Tables) (context : ContextId) :
    Except StoreError (List (InvocationKind × SignedEventV1)) :=
  mapEach (parseInvocation B context) ((t.events.filter fun row ↦
    row.contextId = cell context.bytes ∧ (row.kind = .text "agent.request" ∨
      row.kind = .text "agent.response" ∨ row.kind = .text "agent.error")).take
        (2 * MAX_INVOCATION_QUERY_RESULTS + 1))

/-- The sole parents of the results. -/
def answeredBy (parsed : List (InvocationKind × SignedEventV1)) : List EventId :=
  (parsed.filter fun item ↦ item.1 = .result).filterMap fun item ↦
    match item.2.body.parents with
    | [parent] => some parent
    | _ => none

/-- The rows of a scan, judged by the ancestry of the branch. -/
def judgeInvocations (scan : InvocationKind) (ancestry : List EventId)
    (parsed : List (InvocationKind × SignedEventV1)) : Except StoreError (List InvocationRow) := do
  ensure (¬ ((parsed.filter fun item ↦ item.1 = scan).length > MAX_INVOCATION_QUERY_RESULTS ∨
    parsed.length > 2 * MAX_INVOCATION_QUERY_RESULTS)) .projectionLimitExceeded
  let answered := answeredBy parsed
  .ok (parsed.map fun item ↦
    ⟨item.1, item.2, item.2.eventId ∈ ancestry, item.2.eventId ∈ answered⟩)

/-! ### The queries -/

/-- One read of a query: a statement or a transaction of its own. -/
inductive Read
  | localRefId (context : ContextId) (name : LocalRefName)
  | eventContext (id : EventId)
  | project (context : ContextId) (heads : List EventId) (limits : ProjectionLimits)
  | scanInvocations (context : ContextId)

def Read.Found : Read → Type
  | localRefId _ _ => Option EventId
  | eventContext _ => Option ContextId
  | project _ _ _ => Projection
  | scanInvocations _ => List (InvocationKind × SignedEventV1)

abbrev Read.Answer (read : Read) : Type := Except StoreError read.Found

/-- What a read finds in the tables. -/
def Read.find (t : Tables) : (read : Read) → read.Answer
  | localRefId context name => Store.localRefId t context name
  | eventContext id => authoritativeEventContext B t id
  | project context heads limits => Store.project B t context heads limits
  | scanInvocations context => Store.scanInvocations B t context

/-- A read leaves the tables alone. It returns what it finds, or the database fails it. -/
def Read.Occurs : Effect Read Read.Answer Tables := fun read t answer t' ↦
  t' = t ∧ ReadsAs (read.find B t) answer

abbrev Query (α : Type) := Fallible Read Read.Answer StoreError α

def readStep (read : Read) : Query read.Found := Fallible.attempt read id

/-- The current head of a branch, with its context checked. -/
def localRef (context : ContextId) (name : LocalRefName) : Query (Option EventId) := do
  let head : Option EventId ← readStep (.localRefId context name)
  match head with
  | none => Fallible.ofExcept (.ok none)
  | some head => do
    let found : Option ContextId ← readStep (.eventContext head)
    Fallible.ofExcept (ensure (found = some context) .corruptStorage)
    Fallible.ofExcept (.ok (some head))

def invocationRows (context : ContextId) (branch : LocalRefName) (scan : InvocationKind) :
    Query (List InvocationRow) := do
  let found ← localRef context branch
  let head ← Fallible.ofExcept (required found .refMissing)
  let projection : Projection ← readStep (.project context [head] .default)
  let parsed ← readStep (.scanInvocations context)
  Fallible.ofExcept (judgeInvocations scan (projection.events.map SignedEventV1.eventId) parsed)

/-- The requests on the branch ancestry with no linked sole-parent result. -/
def pendingInvocations (context : ContextId) (branch : LocalRefName) :
    Query (List SignedEventV1) := do
  let rows ← invocationRows context branch .request
  Fallible.ofExcept (.ok ((rows.filter fun row ↦ row.kind = .request ∧ ¬ row.linked).map
    InvocationRow.event))

/-- The recorded results in the context unreachable from the branch head. -/
def detachedResults (context : ContextId) (branch : LocalRefName) :
    Query (List SignedEventV1) := do
  let rows ← invocationRows context branch .result
  Fallible.ofExcept (.ok ((rows.filter fun row ↦ row.kind = .result ∧ ¬ row.onBranch).map
    InvocationRow.event))

end ContextMesh.Store
