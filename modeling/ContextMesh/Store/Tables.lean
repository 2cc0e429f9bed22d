import ContextMesh.Contract.Event
import Mathlib.Data.Prod.Lex
import Mathlib.Data.Rat.Defs
import Mathlib.Algebra.Order.Field.Rat

/-!
The embedded database: untyped cells, the six tables, the queries the store reads through and the
statements it writes through. A query decodes the cells it returns and refuses what it cannot
decode, so every read is defined on corrupted content too. A statement fails where the schema's
keys, references, checks or triggers refuse it.
-/

set_option autoImplicit false
set_option relaxedAutoImplicit false

namespace ContextMesh.Store

open Checked Ordered Contract

/-- Stable storage and admission failures. -/
inductive StoreError
  | databaseUnavailable
  | migrationFailed
  | newerSchema
  | corruptStorage
  | contextUnknown
  | contextProvisionMismatch
  | genesisMismatch
  | unauthorizedAuthor
  | parentMissing (parent : EventId)
  | parentContextMismatch (parent : EventId)
  | eventCollision
  | invalidRefName
  | refMutationMismatch
  | refMissing
  | refAlreadyExists
  | staleHead (current : Option EventId)
  | limitExceeded
  | entropyUnavailable
  | reservedEventKind
  | invalidMerge
  | projectionCycle
  | projectionLimitExceeded
  | bundleMalformed
  | bundleUnsupportedVersion
  | bundleOrder
  | bundleLimitExceeded
  | bundleRefInvalid
  | verificationLimitInvalid
  | indeterminateCommit
  | contract (error : ContractError)
  deriving DecidableEq

/-! ### Names -/

def validateName (text : String) : Except StoreError Unit :=
  dottedName .invalidRefName MAX_REF_NAME_BYTES text

/-- A validated local branch name. -/
structure LocalRefName where
  asStr : String
  valid : validateName asStr = .ok ()

/-- A validated peer namespace name. -/
structure PeerName where
  asStr : String
  valid : validateName asStr = .ok ()

/-- The default branch has a valid name. -/
theorem validateName_main : validateName "main" = .ok () :=
  rfl

def LocalRefName.parse (text : String) : Except StoreError LocalRefName :=
  match h : validateName text with
  | .ok () => .ok ⟨text, h⟩
  | .error error => .error error

def PeerName.parse (text : String) : Except StoreError PeerName :=
  match h : validateName text with
  | .ok () => .ok ⟨text, h⟩
  | .error error => .error error

theorem LocalRefName.asStr_injective : Function.Injective LocalRefName.asStr := by
  rintro ⟨first, hfirst⟩ ⟨second, hsecond⟩ (rfl : first = second)
  rfl

theorem PeerName.asStr_injective : Function.Injective PeerName.asStr := by
  rintro ⟨first, hfirst⟩ ⟨second, hsecond⟩ (rfl : first = second)
  rfl

instance : DecidableEq LocalRefName := fun first second ↦
  decidable_of_iff (first.asStr = second.asStr) LocalRefName.asStr_injective.eq_iff

instance : DecidableEq PeerName := fun first second ↦
  decidable_of_iff (first.asStr = second.asStr) PeerName.asStr_injective.eq_iff

theorem LocalRefName.parse_eq_ok {text : String} {name : LocalRefName} :
    LocalRefName.parse text = .ok name ↔ name.asStr = text := by
  unfold LocalRefName.parse
  split
  · simp only [Except.ok.injEq]
    exact ⟨fun h ↦ h ▸ rfl, fun h ↦ LocalRefName.asStr_injective h.symm⟩
  · next error herror =>
    simp only [reduceCtorEq, false_iff]
    rintro rfl
    rw [name.valid] at herror
    cases herror

theorem PeerName.parse_eq_ok {text : String} {name : PeerName} :
    PeerName.parse text = .ok name ↔ name.asStr = text := by
  unfold PeerName.parse
  split
  · simp only [Except.ok.injEq]
    exact ⟨fun h ↦ h ▸ rfl, fun h ↦ PeerName.asStr_injective h.symm⟩
  · next error herror =>
    simp only [reduceCtorEq, false_iff]
    rintro rfl
    rw [name.valid] at herror
    cases herror

/-! ### Cells -/

inductive SqlValue
  | null
  | integer (value : ℤ)
  | real (value : Double)
  | text (value : String)
  | blob (bytes : Bytes)
  deriving DecidableEq

/-- The rational value of a finite double. -/
def doubleValue (x : Double) : ℚ :=
  (if x.negative then -1 else 1) * x.mantissa * 2 ^ x.exponent

/-- What a cell is sorted by: nulls, then numbers, then texts, then blobs. -/
def SqlValue.key : SqlValue → ℕ ×ₗ ℚ ×ₗ String ×ₗ List ℕ
  | .null => toLex (0, toLex (0, toLex ("", [])))
  | .integer value => toLex (1, toLex (value, toLex ("", [])))
  | .real value => toLex (1, toLex (doubleValue value, toLex ("", [])))
  | .text value => toLex (2, toLex (0, toLex (value, [])))
  | .blob bytes => toLex (3, toLex (0, toLex ("", bytes.map UInt8.toNat)))

/-- The cell of an identifier. -/
def cell (bytes : Fixed 32) : SqlValue := .blob bytes.1

def blobValue : SqlValue → Except StoreError Bytes
  | .blob bytes => .ok bytes
  | _ => .error .corruptStorage

def integerValue : SqlValue → Except StoreError ℤ
  | .integer value => .ok value
  | _ => .error .corruptStorage

def textValue : SqlValue → Except StoreError String
  | .text value => .ok value
  | _ => .error .corruptStorage

def exact32 (value : SqlValue) : Except StoreError (Fixed 32) := do
  let bytes ← blobValue value
  if h : bytes.length = 32 then .ok ⟨bytes, h⟩ else .error .corruptStorage

def idValue (value : SqlValue) : Except StoreError EventId :=
  exact32 value >>= fun bytes ↦ .ok ⟨bytes⟩

def contextValue (value : SqlValue) : Except StoreError ContextId :=
  exact32 value >>= fun bytes ↦ .ok ⟨bytes⟩

def authorValue (value : SqlValue) : Except StoreError AuthorId :=
  exact32 value >>= fun bytes ↦ .ok ⟨bytes⟩

/-- A cell that may be null. -/
def optionalId : SqlValue → Except StoreError (Option EventId)
  | .null => .ok none
  | value => idValue value >>= fun id ↦ .ok (some id)

/-! ### Tables -/

structure ContextRow where
  contextId : SqlValue
  expectedGenesisId : SqlValue
  genesisEventId : SqlValue
  state : SqlValue
  deriving DecidableEq

structure AuthorRow where
  contextId : SqlValue
  authorId : SqlValue
  deriving DecidableEq

structure EventRow where
  eventId : SqlValue
  contextId : SqlValue
  authorId : SqlValue
  kind : SqlValue
  canonicalWire : SqlValue
  deriving DecidableEq

structure EdgeRow where
  childId : SqlValue
  ordinal : SqlValue
  parentId : SqlValue
  deriving DecidableEq

structure LocalRefRow where
  contextId : SqlValue
  name : SqlValue
  eventId : SqlValue
  deriving DecidableEq

structure RemoteRefRow where
  peer : SqlValue
  contextId : SqlValue
  name : SqlValue
  eventId : SqlValue
  deriving DecidableEq

/-- The rows of every table, in insertion order. -/
structure Tables where
  contexts : List ContextRow
  authorizedAuthors : List AuthorRow
  events : List EventRow
  parentEdges : List EdgeRow
  localRefs : List LocalRefRow
  remoteRefs : List RemoteRefRow
  deriving DecidableEq

/-- The tables of a freshly migrated store. -/
def Tables.empty : Tables := ⟨[], [], [], [], [], []⟩

/-! ### Queries -/

section Queries

variable (B : Boundary) (t : Tables)

/-- The expected genesis and the state of a context. -/
def contextRow (context : ContextId) : Except StoreError (Option (EventId × ℤ)) :=
  match t.contexts.filter fun row ↦ row.contextId = cell context.bytes with
  | [] => .ok none
  | row :: rest => do
    let expected ← idValue row.expectedGenesisId
    let genesis ← optionalId row.genesisEventId
    let state ← integerValue row.state
    ensure ((state = 0 ∨ state = 1) ∧ ¬ (state = 0 ∧ genesis ≠ none) ∧
      ¬ (state = 1 ∧ genesis ≠ some expected) ∧ rest = []) .corruptStorage
    .ok (some (expected, state))

def authorRows (context : ContextId) : Except StoreError (List AuthorId) := do
  let authors ← mapEach (fun row ↦ authorValue row.authorId)
    (sort (fun row ↦ row.authorId.key)
      (t.authorizedAuthors.filter fun row ↦ row.contextId = cell context.bytes))
  .ok (sort (AuthorId.text B) authors)

def isAuthorized (context : ContextId) (author : AuthorId) : Bool :=
  t.authorizedAuthors.countP
    (fun row ↦ row.contextId = cell context.bytes ∧ row.authorId = cell author.bytes) = 1

def eventWire (id : EventId) : Except StoreError (Option Bytes) :=
  match t.events.filter fun row ↦ row.eventId = cell id.bytes with
  | [] => .ok none
  | row :: rest => do
    let wire ← blobValue row.canonicalWire
    ensure (rest = []) .corruptStorage
    .ok (some wire)

/-- The context of a stored event, as its signed wire states it. -/
def authoritativeEventContext (id : EventId) : Except StoreError (Option ContextId) := do
  match ← eventWire t id with
  | none => .ok none
  | some wire => do
    let event ← (SignedEventV1.fromWire B wire).mapError fun _ ↦ .corruptStorage
    ensure (event.eventId = id) .corruptStorage
    .ok (some event.body.context)

def edgeRows (id : EventId) : Except StoreError (List EventId) :=
  mapEach (fun row ↦ idValue row.parentId)
    (sort (fun row ↦ row.ordinal.key) (t.parentEdges.filter fun row ↦ row.childId = cell id.bytes))

/-- Rechecks the columns and the edges of a stored event against the event. -/
def validateStoredEvent (event : SignedEventV1) : Except StoreError Unit :=
  match t.events.filter fun row ↦ row.eventId = cell event.eventId.bytes with
  | [] => .error .corruptStorage
  | row :: rest => do
    let context ← contextValue row.contextId
    let author ← authorValue row.authorId
    let kind ← textValue row.kind
    let wire ← blobValue row.canonicalWire
    ensure (rest = [] ∧ context = event.body.context ∧ author = event.body.author ∧
      kind = event.body.kind) .corruptStorage
    let rendered ← (event.toWire B).mapError .contract
    ensure (wire = rendered) .corruptStorage
    let parents ← edgeRows t event.eventId
    ensure (parents = event.body.parents) .corruptStorage

/-- The only cell of the matching rows, when there is one. -/
def queryOptionalId : List SqlValue → Except StoreError (Option EventId)
  | [] => .ok none
  | value :: rest => do
    let id ← idValue value
    ensure (rest = []) .corruptStorage
    .ok (some id)

def localRefId (context : ContextId) (name : LocalRefName) :
    Except StoreError (Option EventId) :=
  queryOptionalId ((t.localRefs.filter fun row ↦
    row.contextId = cell context.bytes ∧ row.name = .text name.asStr).map LocalRefRow.eventId)

def remoteRefId (peer : PeerName) (context : ContextId) (name : LocalRefName) :
    Except StoreError (Option EventId) :=
  queryOptionalId ((t.remoteRefs.filter fun row ↦ row.peer = .text peer.asStr ∧
    row.contextId = cell context.bytes ∧ row.name = .text name.asStr).map RemoteRefRow.eventId)

end Queries

/-! ### Statements -/

namespace Tables

variable (t : Tables)

def hasContext (value : SqlValue) : Prop := ∃ row ∈ t.contexts, row.contextId = value

def hasEvent (value : SqlValue) : Prop := ∃ row ∈ t.events, row.eventId = value

instance (value : SqlValue) : Decidable (t.hasContext value) := by
  unfold hasContext
  infer_instance

instance (value : SqlValue) : Decidable (t.hasEvent value) := by
  unfold hasEvent
  infer_instance

/-- Inserts a pending context. -/
def insertContext (context : ContextId) (expected : EventId) : Except StoreError Tables := do
  ensure (¬ t.hasContext (cell context.bytes)) .databaseUnavailable
  .ok { t with
    contexts := t.contexts ++ [⟨cell context.bytes, cell expected.bytes, .null, .integer 0⟩] }

def hasAuthor (context : ContextId) (author : AuthorId) : Prop :=
  ∃ row ∈ t.authorizedAuthors, row.contextId = cell context.bytes ∧ row.authorId = cell author.bytes

instance (context : ContextId) (author : AuthorId) : Decidable (t.hasAuthor context author) := by
  unfold hasAuthor
  infer_instance

def insertAuthor (context : ContextId) (author : AuthorId) : Except StoreError Tables := do
  ensure (¬ t.hasAuthor context author ∧ t.hasContext (cell context.bytes)) .databaseUnavailable
  .ok { t with
    authorizedAuthors := t.authorizedAuthors ++ [⟨cell context.bytes, cell author.bytes⟩] }

/-- Inserts an author unless the pair is there, with the number of rows inserted. -/
def insertOrIgnoreAuthor (context : ContextId) (author : AuthorId) :
    Except StoreError (Tables × ℕ) :=
  if t.hasAuthor context author then .ok (t, 0)
  else do
    let inserted ← t.insertAuthor context author
    .ok (inserted, 1)

def insertEvent (id : EventId) (context : ContextId) (author : AuthorId) (kind : String)
    (wire : Bytes) : Except StoreError Tables := do
  ensure (¬ t.hasEvent (cell id.bytes) ∧ t.hasContext (cell context.bytes)) .databaseUnavailable
  .ok { t with
    events := t.events ++
      [⟨cell id.bytes, cell context.bytes, cell author.bytes, .text kind, .blob wire⟩] }

def insertEdge (child : EventId) (ordinal : ℕ) (parent : EventId) : Except StoreError Tables := do
  ensure (ordinal < 64 ∧
    (∀ row ∈ t.parentEdges, row.childId = cell child.bytes →
      row.ordinal ≠ .integer ordinal ∧ row.parentId ≠ cell parent.bytes) ∧
    t.hasEvent (cell child.bytes) ∧ t.hasEvent (cell parent.bytes)) .databaseUnavailable
  .ok { t with
    parentEdges := t.parentEdges ++ [⟨cell child.bytes, .integer ordinal, cell parent.bytes⟩] }

/-- Inserts the edges of an event, with their ordinals from `first` on. -/
def insertEdges (t : Tables) (child : EventId) (first : ℕ) : List EventId → Except StoreError Tables
  | [] => .ok t
  | parent :: rest => do
    let inserted ← t.insertEdge child first parent
    insertEdges inserted child (first + 1) rest

/-- Moves a pending context to its genesis, with the number of rows changed. The transition trigger
refuses a row that already has a genesis, and the genesis column is unique. -/
def activateContext (context : ContextId) (genesis : EventId) :
    Except StoreError (Tables × ℕ) := do
  let matching : ContextRow → Prop := fun row ↦ row.contextId = cell context.bytes ∧
    row.state = .integer 0 ∧ row.expectedGenesisId = cell genesis.bytes
  if t.contexts.countP matching = 0 then .ok (t, 0)
  else do
    ensure ((∀ row ∈ t.contexts, matching row → row.genesisEventId = .null) ∧
      ∀ row ∈ t.contexts, row.genesisEventId ≠ cell genesis.bytes) .databaseUnavailable
    .ok ({ t with
      contexts := t.contexts.map fun row ↦
        if matching row then { row with genesisEventId := cell genesis.bytes, state := .integer 1 }
        else row }, t.contexts.countP matching)

def insertLocalRef (context : ContextId) (name : LocalRefName) (head : EventId) :
    Except StoreError Tables := do
  ensure ((∀ row ∈ t.localRefs,
      ¬ (row.contextId = cell context.bytes ∧ row.name = .text name.asStr)) ∧
    t.hasContext (cell context.bytes) ∧ t.hasEvent (cell head.bytes)) .databaseUnavailable
  .ok { t with
    localRefs := t.localRefs ++ [⟨cell context.bytes, .text name.asStr, cell head.bytes⟩] }

/-- Moves a branch from an expected head, with the number of rows changed. -/
def updateLocalRef (context : ContextId) (name : LocalRefName) (expected head : EventId) :
    Except StoreError (Tables × ℕ) := do
  let matching : LocalRefRow → Prop := fun row ↦ row.contextId = cell context.bytes ∧
    row.name = .text name.asStr ∧ row.eventId = cell expected.bytes
  if t.localRefs.countP matching = 0 then .ok (t, 0)
  else do
    ensure (t.hasEvent (cell head.bytes)) .databaseUnavailable
    .ok ({ t with
      localRefs := t.localRefs.map fun row ↦
        if matching row then { row with eventId := cell head.bytes } else row },
      t.localRefs.countP matching)

def insertRemoteRef (peer : PeerName) (context : ContextId) (name : LocalRefName)
    (head : EventId) : Except StoreError Tables := do
  ensure ((∀ row ∈ t.remoteRefs, ¬ (row.peer = .text peer.asStr ∧
      row.contextId = cell context.bytes ∧ row.name = .text name.asStr)) ∧
    t.hasContext (cell context.bytes) ∧ t.hasEvent (cell head.bytes)) .databaseUnavailable
  .ok { t with
    remoteRefs := t.remoteRefs ++
      [⟨.text peer.asStr, cell context.bytes, .text name.asStr, cell head.bytes⟩] }

/-- Inserts a remote ref, or moves the one of the same key. -/
def upsertRemoteRef (peer : PeerName) (context : ContextId) (name : LocalRefName)
    (head : EventId) : Except StoreError Tables :=
  let matching : RemoteRefRow → Prop := fun row ↦ row.peer = .text peer.asStr ∧
    row.contextId = cell context.bytes ∧ row.name = .text name.asStr
  if ∀ row ∈ t.remoteRefs, ¬ matching row then t.insertRemoteRef peer context name head
  else do
    ensure (t.hasEvent (cell head.bytes)) .databaseUnavailable
    .ok { t with
      remoteRefs := t.remoteRefs.map fun row ↦
        if matching row then { row with eventId := cell head.bytes } else row }

def deleteRemoteRefs (peer : PeerName) (context : ContextId) : Tables :=
  { t with
    remoteRefs := t.remoteRefs.filter fun row ↦
      ¬ (row.peer = .text peer.asStr ∧ row.contextId = cell context.bytes) }

end Tables

/-! ### Transactions -/

/-- How the database can fail a transaction: it refuses to run it, it loses the commit, or it
commits without acknowledging. -/
inductive Fault
  | refused (error : StoreError)
  | lost
  | unacknowledged

/-- Runs a transaction: it commits when its body succeeds and rolls back when it fails. -/
def transact {α : Type} (fault : Option Fault) (body : Tables → Except StoreError (Tables × α))
    (t : Tables) : Tables × Except StoreError α :=
  match fault with
  | some (.refused error) => (t, .error error)
  | some .lost => (t, (body t).bind fun _ ↦ .error .indeterminateCommit)
  | some .unacknowledged =>
    match body t with
    | .ok (after, _) => (after, .error .indeterminateCommit)
    | .error error => (t, .error error)
  | none =>
    match body t with
    | .ok (after, value) => (after, .ok value)
    | .error error => (t, .error error)

/-- What a transaction has committed, acknowledged or not. -/
def committed {α : Type} (fault : Option Fault) (body : Tables → Except StoreError (Tables × α))
    (t : Tables) : Option α :=
  match fault with
  | none | some .unacknowledged => (body t).toOption.map Prod.snd
  | some (.refused _) | some .lost => none

/-- A transaction that the database does not fail commits what its body returns. -/
theorem transact_ok {α : Type} {body : Tables → Except StoreError (Tables × α)} {t after : Tables}
    {value : α} (h : body t = .ok (after, value)) :
    transact none body t = (after, .ok value) ∧ committed none body t = some value := by
  rw [transact, committed, h]
  exact ⟨rfl, rfl⟩

/-- A transaction whose body fails rolls back and fails, however the database fails it. -/
theorem transact_error {α : Type} {body : Tables → Except StoreError (Tables × α)} {t : Tables}
    {error : StoreError} (h : body t = .error error) (fault : Option Fault) :
    (transact fault body t).1 = t ∧ ∃ error, (transact fault body t).2 = .error error := by
  rcases fault with _ | _ | _ | _ <;> simp [transact, h, Except.bind]

/-- A transaction leaves the tables alone and commits nothing, or leaves those of its body. -/
theorem transact_cases {α : Type} (fault : Option Fault)
    (body : Tables → Except StoreError (Tables × α)) (t : Tables) :
    ((transact fault body t).1 = t ∧ committed fault body t = none) ∨
      ∃ value, body t = .ok ((transact fault body t).1, value) ∧
        committed fault body t = some value := by
  rcases hbody : body t with error | ⟨after, value⟩
  · left
    rcases fault with _ | _ | _ | _ <;> simp [transact, committed, hbody, Except.toOption]
  · rcases fault with _ | _ | _ | _ <;> simp [transact, committed, hbody, Except.toOption]

/-- A transaction that reports success has committed. -/
theorem transact_acknowledged {α : Type} {fault : Option Fault}
    {body : Tables → Except StoreError (Tables × α)} {t : Tables} {value : α}
    (h : (transact fault body t).2 = .ok value) : committed fault body t = some value := by
  rcases hbody : body t with error | ⟨after, value'⟩
  · rcases fault with _ | _ | _ | _ <;> simp [transact, hbody, Except.bind] at h
  · rcases fault with _ | _ | _ | _ <;>
      simp [transact, committed, hbody, Except.toOption, Except.bind] at h ⊢
    exact h

/-- A transaction that reports success has the outcome of its body. -/
theorem transact_eq_ok {α : Type} {fault : Option Fault}
    {body : Tables → Except StoreError (Tables × α)} {t after : Tables} {value : α}
    (h : transact fault body t = (after, .ok value)) : body t = .ok (after, value) := by
  have hcommitted := transact_acknowledged (congrArg Prod.snd h)
  rcases transact_cases fault body t with ⟨-, hnone⟩ | ⟨value', hbody, hsome⟩
  · rw [hnone] at hcommitted
    cases hcommitted
  · rw [hsome, Option.some.injEq] at hcommitted
    rwa [h, hcommitted] at hbody

/-- A transaction that fails with another error than an unknown commit has not committed. -/
theorem transact_rolledBack {α : Type} {fault : Option Fault}
    {body : Tables → Except StoreError (Tables × α)} {t : Tables} {error : StoreError}
    (h : (transact fault body t).2 = .error error) (hknown : error ≠ .indeterminateCommit) :
    (transact fault body t).1 = t := by
  rcases hbody : body t with failed | ⟨after, value⟩
  · rcases fault with _ | _ | _ | _ <;> simp [transact, hbody]
  · rcases fault with _ | _ | _ | _ <;> simp [transact, hbody, Except.bind] at h ⊢
    exact absurd h.symm hknown

end ContextMesh.Store
