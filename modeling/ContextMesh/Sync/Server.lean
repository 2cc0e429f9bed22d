import ContextMesh.Sync.Protocol

/-!
The two handlers of the synchronization server, and what a client reads of their answers. A handler
answers from one read of the store; the HTTP envelope around the bodies is left out.
-/

set_option autoImplicit false
set_option relaxedAutoImplicit false

namespace ContextMesh.Sync

open Checked Ordered Contract Store

/-- Hard maximum request body bytes. -/
def MAX_PULL_REQUEST_BODY_BYTES : ℕ := 65536

/-- Hard maximum synchronization response body bytes. -/
def MAX_SYNC_RESPONSE_BODY_BYTES : ℕ := 16842752

/-- Checked body bounds of a server or a client. -/
structure TransportLimits where
  maxRequestBodyBytes : ℕ
  maxResponseBodyBytes : ℕ
  deriving DecidableEq

def TransportLimits.new (maxRequestBodyBytes maxResponseBodyBytes : ℕ) :
    Except SyncError TransportLimits := do
  ensure (¬ (maxRequestBodyBytes = 0 ∨ maxRequestBodyBytes > MAX_PULL_REQUEST_BODY_BYTES ∨
    maxResponseBodyBytes = 0 ∨ maxResponseBodyBytes > MAX_SYNC_RESPONSE_BODY_BYTES))
    .invalidConfig
  .ok ⟨maxRequestBodyBytes, maxResponseBodyBytes⟩

def TransportLimits.default : TransportLimits :=
  ⟨MAX_PULL_REQUEST_BODY_BYTES, MAX_SYNC_RESPONSE_BODY_BYTES⟩

variable (B : Boundary)

/-! ### Handlers -/

/-- The canonical snapshot of the branches of a context. -/
def getRefs (t : Tables) (context : ContextId) : Except SyncError Bytes := do
  let refs ← (syncLocalRefSnapshot B t context).mapError .store
  let snapshot ← RefSnapshot.new B context
    (refs.map fun item ↦ ⟨.local, item.name, item.head⟩)
  snapshot.toWire B

/-- The offset a request continues at, with the plan fingerprint its cursor carries. -/
def readCursor : Option String → Except SyncError (ℕ × Option (Fixed 32))
  | some value => do
    let (offset, fingerprint) ← decodeCursor B value
    .ok (offset, some fingerprint)
  | none => .ok (0, none)

/-- The cursor of the next page, when there is one. -/
def writeCursor (fingerprint : Fixed 32) : Option ℕ → Except SyncError (Option String)
  | some next => do
    let cursor ← encodeCursor B next fingerprint
    .ok (some cursor)
  | none => .ok none

/-- The response to a request that has been read: one page of its plan. A cursor of another plan is
a conflict. -/
def exportResponse (t : Tables) («export» : ExportRequest) :
    Except SyncError (ExportResponse B) := do
  let (offset, suppliedFingerprint) ← readCursor B «export».cursor
  let page ← (exportSyncPage B t «export».context «export».requestedHeads «export».knownHeads
    offset «export».limits.maxEvents «export».limits.maxBundleBytes).mapError .store
  let fingerprint ← planFingerprint B «export».context «export».requestedHeads
    page.effectiveKnownHeads «export».limits
  ensure (∀ value ∈ suppliedFingerprint, value = fingerprint) .paginationConflict
  let nextCursor ← writeCursor B fingerprint page.nextOffset
  ExportResponse.new B «export».context «export».requestedHeads page.bundle nextCursor

/-- One page of the plan of a request, within the bounds on bodies. -/
def postExport (limits : TransportLimits) (t : Tables) (body : Bytes) : Except SyncError Bytes := do
  ensure (body.length ≤ limits.maxRequestBodyBytes) .limitExceeded
  let «export» ← ExportRequest.fromWire B body
  let response ← exportResponse B t «export»
  let wire ← response.toWire
  ensure (wire.length ≤ limits.maxResponseBodyBytes) .limitExceeded
  .ok wire

/-! ### What a client reads -/

/-- The status of an error of the store. -/
def storeStatus : StoreError → ℕ
  | .contextUnknown | .parentMissing _ => 404
  | .bundleLimitExceeded | .projectionLimitExceeded | .limitExceeded => 413
  | .bundleOrder => 409
  | .databaseUnavailable | .indeterminateCommit => 503
  | _ => 500

/-- The status of an error of a handler. -/
def syncStatus : SyncError → ℕ
  | .unsupportedVersion => 400
  | .limitExceeded | .invalidConfig => 413
  | .paginationConflict => 409
  | .timeout => 408
  | .store error => storeStatus error
  | .protocol => 400
  | _ => 500

/-- The error a client makes of a status that is no success. -/
def statusError (status : ℕ) : SyncError :=
  if status = 401 then .authentication
  else if status = 408 then .timeout
  else if status = 409 then .paginationConflict
  else if status = 413 ∨ status = 414 ∨ status = 431 then .limitExceeded
  else if 300 ≤ status ∧ status < 400 then .protocol
  else .transport

/-- Reads an answer within the response bound of the client. -/
def readResponse (limit : ℕ) : Except SyncError Bytes → Except SyncError Bytes
  | .ok body => do
    ensure (body.length ≤ limit) .limitExceeded
    .ok body
  | .error error => .error (statusError (syncStatus error))

/-- One request of a pull client to its peer. -/
inductive PeerRequest
  | getRefs (context : ContextId)
  | postExport (wire : Bytes)
  deriving DecidableEq

/-- What an honest server with the given store answers to a client. -/
def serve (limits : TransportLimits) (responseLimit : ℕ) (t : Tables) :
    PeerRequest → Except SyncError Bytes
  | .getRefs context => readResponse responseLimit (getRefs B t context)
  | .postExport wire => readResponse responseLimit (postExport B limits t wire)

end ContextMesh.Sync
