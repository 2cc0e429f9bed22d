import ContextMesh.Store.Tables

/-!
Admission of events and movement of refs. Every operation is the body of one transaction: a
function of the tables that returns the tables it leaves and its result, or the error it rolls back
with.
-/

set_option autoImplicit false
set_option relaxedAutoImplicit false

namespace ContextMesh.Store

open Checked Ordered Contract

/-- Maximum number of authors in one provision request. -/
def MAX_AUTHORIZED_AUTHORS : ℕ := 1024

/-- Explicit local context trust and initial append-only authorization. -/
structure ContextProvision where
  context : ContextId
  expectedGenesis : EventId
  authorizedAuthors : List AuthorId

/-- Expected state of a local ref. -/
inductive RefExpectation
  | absent
  | head (id : EventId)

/-- Optional ref movement performed in the admission transaction. -/
inductive RefMutation
  | none
  | compareAndSwap (context : ContextId) (name : LocalRefName) (expected : RefExpectation)
      (newHead : EventId)

inductive AdmissionStatus
  | inserted
  | alreadyPresent
  | alreadyApplied
  deriving DecidableEq

structure LocalRef where
  context : ContextId
  name : LocalRefName
  head : EventId
  deriving DecidableEq

structure RemoteRef where
  peer : PeerName
  context : ContextId
  name : LocalRefName
  head : EventId
  deriving DecidableEq

variable (B : Boundary)

def validateAuthors (authors : List AuthorId) : Except StoreError Unit := do
  ensure (authors.length ≤ MAX_AUTHORIZED_AUTHORS) .limitExceeded
  ensure (authors ≠ []) .unauthorizedAuthor
  ensure (Canonical (AuthorId.text B) authors) .contextProvisionMismatch

/-- Inserts a pending context with its initial allowlist. -/
def insertProvision (provision : ContextProvision) (t : Tables) : Except StoreError Tables := do
  let inserted ← t.insertContext provision.context provision.expectedGenesis
  foldEach (fun t author ↦ t.insertAuthor provision.context author) inserted
    provision.authorizedAuthors

def provisionContext (provision : ContextProvision) (t : Tables) :
    Except StoreError (Tables × Unit) := do
  validateAuthors B provision.authorizedAuthors
  match ← contextRow t provision.context with
  | some row => do
    let authors ← authorRows B t provision.context
    ensure (row.1 = provision.expectedGenesis ∧ authors = provision.authorizedAuthors)
      .contextProvisionMismatch
    .ok (t, ())
  | none => do
    let inserted ← insertProvision provision t
    .ok (inserted, ())

def authorizeAuthor (context : ContextId) (author : AuthorId) (t : Tables) :
    Except StoreError (Tables × Bool) := do
  let row ← contextRow t context
  ensure (row ≠ none) .contextUnknown
  let (inserted, changed) ← t.insertOrIgnoreAuthor context author
  .ok (inserted, changed = 1)

/-- The event is the zero-parent genesis a context expects. -/
def IsGenesis (expected : EventId) (event : SignedEventV1) : Prop :=
  event.eventId = expected ∧ event.body.kind = "context.genesis" ∧ event.body.parents = []

instance (expected : EventId) (event : SignedEventV1) : Decidable (IsGenesis expected event) := by
  unfold IsGenesis
  infer_instance

/-- The event is stored and belongs to the context. -/
def requireInContext (context : ContextId) (t : Tables) (id : EventId) :
    Except StoreError Unit := do
  let found ← authoritativeEventContext B t id
  let eventContext ← required found (.parentMissing id)
  ensure (eventContext = context) (.parentContextMismatch id)

/-- Inserts the row of an event and its edge rows. -/
def insertEventRows (event : SignedEventV1) (wire : Bytes) (t : Tables) :
    Except StoreError Tables := do
  let inserted ← t.insertEvent event.eventId event.body.context event.body.author event.body.kind
    wire
  inserted.insertEdges event.eventId 0 event.body.parents

/-- Moves a pending context to its genesis. -/
def activate (context : ContextId) (genesis : EventId) (t : Tables) : Except StoreError Tables := do
  let (activated, changed) ← t.activateContext context genesis
  ensure (changed = 1) .genesisMismatch
  .ok activated

/-- Performs a ref movement; the flag tells that the ref was already at its new head. -/
def applyRefMutation (event : EventId) (mutation : RefMutation) (t : Tables) :
    Except StoreError (Tables × Bool) :=
  match mutation with
  | .none => .ok (t, false)
  | .compareAndSwap context name expected newHead => do
    let current ← localRefId t context name
    if current = some newHead then .ok (t, true)
    else
      match expected, current with
      | .absent, none => do
        let inserted ← t.insertLocalRef context name event
        .ok (inserted, false)
      | .head expected, some current =>
        if expected = current then do
          let (updated, changed) ← t.updateLocalRef context name expected event
          if changed = 1 then .ok (updated, false)
          else do
            let observed ← localRefId updated context name
            .error (.staleHead observed)
        else .error (.staleHead current)
      | _, current => .error (.staleHead current)

/-- The ref movement is for the admitted event and its context. -/
def RefMutation.Targets (event : SignedEventV1) : RefMutation → Prop
  | .none => True
  | .compareAndSwap context _ _ newHead => context = event.body.context ∧ newHead = event.eventId

instance (event : SignedEventV1) (mutation : RefMutation) : Decidable (mutation.Targets event) := by
  cases mutation <;> unfold RefMutation.Targets <;> infer_instance

/-- The event is allowed in its context: the genesis of a pending context, a descendant in an active
one, by an authorized author, over stored parents. Returns the expected genesis and the state. -/
def checkPolicy (event : SignedEventV1) (t : Tables) : Except StoreError (EventId × ℤ) := do
  let found ← contextRow t event.body.context
  let row ← required found .contextUnknown
  ensure (if row.2 = 0 then IsGenesis row.1 event
    else IsGenesis row.1 event ∨ ¬ (event.body.parents = [] ∨ event.body.kind = "context.genesis"))
    .genesisMismatch
  ensure (isAuthorized t event.body.context event.body.author) .unauthorizedAuthor
  checkEach (requireInContext B event.body.context t) event.body.parents
  .ok row

/-- Inserts the rows of a new event, or rechecks a stored one. -/
def storeEvent (event verifiedEvent : SignedEventV1) (wire : Bytes) (t : Tables) :
    Option Bytes → Except StoreError (Tables × Bool)
  | none => insertEventRows event wire t >>= fun rows ↦ .ok (rows, true)
  | some storedWire => do
    ensure (storedWire = wire) .eventCollision
    validateStoredEvent B t verifiedEvent
    .ok (t, false)

def activateIfPending (state : ℤ) (context : ContextId) (genesis : EventId) (t : Tables) :
    Except StoreError Tables :=
  if state = 0 then activate context genesis t else .ok t

/-- Stores an allowed event and activates its context if it was pending; the flag tells that the
event is new. -/
def recordEvent (event verifiedEvent : SignedEventV1) (wire : Bytes) (row : EventId × ℤ)
    (t : Tables) : Except StoreError (Tables × Bool) := do
  let existing ← eventWire t event.eventId
  ensure (¬ (row.2 = 1 ∧ IsGenesis row.1 event ∧ existing = none)) .corruptStorage
  let stored ← storeEvent B event verifiedEvent wire t existing
  let activated ← activateIfPending row.2 event.body.context event.eventId stored.1
  .ok (activated, stored.2)

def admitEvent (event : SignedEventV1) (mutation : RefMutation) (t : Tables) :
    Except StoreError (Tables × AdmissionStatus) := do
  (event.verify B).mapError .contract
  let wire ← (event.toWire B).mapError .contract
  let verifiedEvent ← (SignedEventV1.fromWire B wire).mapError .contract
  ensure (mutation.Targets event) .refMutationMismatch
  let row ← checkPolicy B event t
  let recorded ← recordEvent B event verifiedEvent wire row t
  let moved ← applyRefMutation event.eventId mutation recorded.1
  .ok (moved.1, if moved.2 then .alreadyApplied
    else if recorded.2 then .inserted else .alreadyPresent)

/-- Strictly parses wire bytes and admits the resulting event. -/
def admitWire (wire : Bytes) (mutation : RefMutation) (t : Tables) :
    Except StoreError (Tables × AdmissionStatus) := do
  let event ← (SignedEventV1.fromWire B wire).mapError .contract
  admitEvent B event mutation t

/-- Records one remote-tracking ref without changing any local ref. -/
def setRemoteRef (peer : PeerName) (context : ContextId) (name : LocalRefName) (head : EventId)
    (t : Tables) : Except StoreError (Tables × Unit) := do
  requireInContext B context t head
  let updated ← t.upsertRemoteRef peer context name head
  .ok (updated, ())

/-! ### Reads -/

/-- A stored event, reparsed and strictly verified. -/
def event (t : Tables) (id : EventId) : Except StoreError (Option SignedEventV1) := do
  match ← eventWire t id with
  | none => .ok none
  | some wire => do
    let event ← (SignedEventV1.fromWire B wire).mapError fun _ ↦ .corruptStorage
    validateStoredEvent B t event
    .ok (some event)

/-- The head of a local ref in one state of the store, with its target checked. -/
def localRefOn (t : Tables) (context : ContextId) (name : LocalRefName) :
    Except StoreError (Option EventId) := do
  match ← localRefId t context name with
  | none => .ok none
  | some head => do
    let found ← authoritativeEventContext B t head
    ensure (found = some context) .corruptStorage
    .ok (some head)

/-- A ref row of a context, with its target checked. -/
def readRef (t : Tables) (context : ContextId) (name head : SqlValue) :
    Except StoreError (LocalRefName × EventId) := do
  let name ← textValue name
  let head ← idValue head
  let found ← authoritativeEventContext B t head
  ensure (found = some context) .corruptStorage
  let name ← LocalRefName.parse name
  .ok (name, head)

/-- The local refs of a context, in name order. -/
def listLocalRefs (t : Tables) (context : ContextId) : Except StoreError (List LocalRef) :=
  mapEach (fun row ↦ do
      let (name, head) ← readRef B t context row.name row.eventId
      .ok ⟨context, name, head⟩)
    (sort (fun row ↦ row.name.key)
      (t.localRefs.filter fun row ↦ row.contextId = cell context.bytes))

/-- The remote refs of a peer and a context, in name order. -/
def listRemoteRefs (t : Tables) (peer : PeerName) (context : ContextId) :
    Except StoreError (List RemoteRef) :=
  mapEach (fun row ↦ do
      let peerText ← textValue row.peer
      let name ← textValue row.name
      let head ← idValue row.eventId
      let found ← authoritativeEventContext B t head
      ensure (found = some context) .corruptStorage
      let peer ← PeerName.parse peerText
      let name ← LocalRefName.parse name
      .ok ⟨peer, context, name, head⟩)
    (sort (fun row ↦ toLex (row.peer.key, row.name.key))
      (t.remoteRefs.filter fun row ↦
        row.contextId = cell context.bytes ∧ row.peer = .text peer.asStr))

end ContextMesh.Store
