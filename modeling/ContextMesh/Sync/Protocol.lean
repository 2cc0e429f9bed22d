import ContextMesh.Store.Sync

/-!
The values of the synchronization protocol: checked limits, the export request, the ref snapshot,
the page response and the continuation cursor, each with its canonical wire.
-/

set_option autoImplicit false
set_option relaxedAutoImplicit false

namespace ContextMesh.Sync

open Checked Ordered Contract Store

/-- Stable authenticated-synchronization failures. -/
inductive SyncError
  | invalidConfig
  | tokenSource
  | invalidEndpoint
  | authentication
  | transport
  | timeout
  | protocol
  | unsupportedVersion
  | paginationConflict
  | limitExceeded
  | exposureNotAcknowledged
  | store (error : StoreError)
  | internal
  deriving DecidableEq

/-- Frozen authenticated synchronization protocol version. -/
def SYNC_PROTOCOL_VERSION : ℕ := 1

/-- Maximum pages allowed in one pull. -/
def MAX_PULL_PAGES : ℕ := 100000

def REFS_HASH_CONTEXT : String := "org.aaif.contextmesh.sync.refs.v1"

def HEADS_HASH_CONTEXT : String := "org.aaif.contextmesh.sync.heads.v1"

def PLAN_HASH_CONTEXT : String := "org.aaif.contextmesh.sync.plan.v1"

/-! ### Limits -/

/-- Synchronization page and total limits. -/
structure PullLimits where
  maxEvents : ℕ
  maxBundleBytes : ℕ
  maxPages : ℕ
  deriving DecidableEq

/-- Limits no greater than the frozen protocol maxima. -/
def PullLimits.new (maxEvents maxBundleBytes maxPages : ℕ) : Except SyncError PullLimits := do
  ensure (¬ (maxEvents = 0 ∨ maxEvents > MAX_BUNDLE_EVENTS ∨ maxBundleBytes = 0 ∨
    maxBundleBytes > MAX_BUNDLE_CANONICAL_BYTES ∨ maxPages = 0 ∨ maxPages > MAX_PULL_PAGES))
    .invalidConfig
  .ok ⟨maxEvents, maxBundleBytes, maxPages⟩

def PullLimits.default : PullLimits :=
  ⟨MAX_BUNDLE_EVENTS, MAX_BUNDLE_CANONICAL_BYTES, MAX_PULL_PAGES⟩

variable (B : Boundary)

/-! ### Reading and checking members -/

/-- Strict parsing that accepts canonical bytes only. -/
def strictProtocol (input : Bytes) : Except SyncError Json := do
  let value ← (strictJson B input).mapError fun _ ↦ .protocol
  let rendered ← (canonicalize B value).mapError fun _ ↦ .protocol
  ensure (rendered = input) .protocol
  .ok value

/-- The members of an object with exactly the given names. -/
def objectExact (value : Json) (keys : List String) : Except SyncError Members := do
  let object ← (intoObject value).mapError fun _ ↦ .protocol
  ensure (object.length = keys.length ∧ ∀ m ∈ object, m.1 ∈ keys) .protocol
  .ok object

def take (object : Members) (key : String) : Except SyncError Json :=
  (takeRequired object key).mapError fun _ ↦ .protocol

def string (object : Members) (key : String) : Except SyncError String := do
  let value ← take object key
  (intoString value).mapError fun _ ↦ .protocol

def text {ε α : Type} (parse : String → Except ε α) (object : Members) (key : String) :
    Except SyncError α := do
  let value ← string object key
  (parse value).mapError fun _ ↦ .protocol

def version (object : Members) : Except SyncError Unit := do
  let value ← take object "protocol_version"
  ensure (asU64 value = some SYNC_PROTOCOL_VERSION) .unsupportedVersion

/-- A JSON integer; the platform's word has 64 bits, so every one fits. -/
def usizeValue (object : Members) (key : String) : Except SyncError ℕ := do
  let value ← take object key
  required (asU64 value) .protocol

/-- A continuation cursor, or null. -/
def cursorValue : Json → Except SyncError (Option String)
  | .null => .ok none
  | .str value => .ok (some value)
  | _ => .error .protocol

def ids : Json → Except SyncError (List EventId)
  | .arr values => mapEach (fun value ↦ do
      let value ← (intoString value).mapError fun _ ↦ .protocol
      (EventId.parse B value).mapError fun _ ↦ .protocol) values
  | _ => .error .protocol

def validateSortedHeads (heads : List EventId) (empty : Bool) : Except SyncError Unit :=
  ensure (¬ (empty = false ∧ heads = []) ∧ Canonical (EventId.text B) heads) .protocol

/-- The namespace of a ref has one value, so it needs no check. -/
def validateRefs (refs : List AdvertisedRef) : Except SyncError Unit :=
  ensure (refs.length ≤ MAX_BUNDLE_REFS ∧ Canonical refKey refs) .protocol

def parseRefs : Json → Except SyncError (List AdvertisedRef)
  | .arr values => do
    let refs ← mapEach (fun value ↦ do
      let object ← objectExact value ["namespace", "name", "head"]
      let «namespace» ← string object "namespace"
      ensure («namespace» = "local") .protocol
      let name ← text LocalRefName.parse object "name"
      let head ← text (EventId.parse B) object "head"
      .ok (⟨.local, name, head⟩ : AdvertisedRef)) values
    validateRefs refs
    .ok refs
  | _ => .error .protocol

/-! ### Fingerprints -/

def derive (domain : String) (value : Json) : Except SyncError (Fixed 32) := do
  let bytes ← (canonicalize B value).mapError fun _ ↦ .protocol
  .ok (B.deriveKey domain bytes)

def encodeHash (lead : String) (bytes : Fixed 32) : String := lead ++ B.encode64 bytes.1

def headsValue (heads : List EventId) : Json := .arr (heads.map fun head ↦ .str (head.text B))

def limitsValue (limits : PullLimits) : Json :=
  .obj [("max_bundle_bytes", .num (.posInt limits.maxBundleBytes)),
    ("max_events", .num (.posInt limits.maxEvents))]

def refsFingerprintValue (context : ContextId) (refs : List AdvertisedRef) : Json :=
  .obj [("context", .str (context.text B)),
    ("protocol_version", .num (.posInt SYNC_PROTOCOL_VERSION)),
    ("refs", .arr (refs.map (AdvertisedRef.toJson B)))]

def requestedHeadFingerprint (context : ContextId) (heads : List EventId) :
    Except SyncError String := do
  validateSortedHeads B heads false
  let bytes ← derive B HEADS_HASH_CONTEXT (.obj [("context", .str (context.text B)),
    ("protocol_version", .num (.posInt SYNC_PROTOCOL_VERSION)),
    ("requested_heads", headsValue B heads)])
  .ok (encodeHash B "heads1_" bytes)

/-- Domain-separated plan fingerprint binding the immutable pagination plan. -/
def planFingerprint (context : ContextId) (requested known : List EventId) (limits : PullLimits) :
    Except SyncError (Fixed 32) :=
  derive B PLAN_HASH_CONTEXT (.obj [("context", .str (context.text B)),
    ("effective_known_heads", headsValue B known), ("limits", limitsValue limits),
    ("protocol_version", .num (.posInt SYNC_PROTOCOL_VERSION)),
    ("requested_heads", headsValue B requested)])

/-! ### Continuation cursors -/

/-- The low bytes of a number, the most significant first. -/
def toBeBytes : ℕ → ℕ → Bytes
  | 0, _ => []
  | size + 1, n => .ofNat (n / 256 ^ size) :: toBeBytes size n

def fromBeBytes (bytes : Bytes) : ℕ := bytes.foldl (fun n byte ↦ n * 256 + byte.toNat) 0

/-- Renders a checked opaque continuation cursor. -/
def encodeCursor (offset : ℕ) (fingerprint : Fixed 32) : Except SyncError String := do
  ensure (offset < 2 ^ 64) .limitExceeded
  .ok ("cursor1_" ++ B.encode64 (toBeBytes 8 offset ++ fingerprint.1))

/-- Strictly decodes and canonicalizes an opaque continuation cursor. -/
def decodeCursor (text : String) : Except SyncError (ℕ × Fixed 32) := do
  let encoded ← required (stripPrefix "cursor1_" text) .paginationConflict
  let decoded ← required (B.decode64 encoded) .paginationConflict
  if h : decoded.length = 40 then do
    let offset := fromBeBytes (decoded.take 8)
    let fingerprint : Fixed 32 := ⟨decoded.drop 8, by rw [List.length_drop, h]⟩
    let rendered ← encodeCursor B offset fingerprint
    ensure (rendered = text) .paginationConflict
    .ok (offset, fingerprint)
  else .error .paginationConflict

/-! ### Requests -/

/-- One immutable pull request page. -/
structure ExportRequest where
  context : ContextId
  requestedHeads : List EventId
  knownHeads : List EventId
  cursor : Option String
  limits : PullLimits
  deriving DecidableEq

/-- A cursor as a member: its text, or null. -/
def cursorJson (cursor : Option String) : Json := cursor.elim .null .str

namespace ExportRequest

def new (context : ContextId) (requestedHeads knownHeads : List EventId) (cursor : Option String)
    (limits : PullLimits) : Except SyncError ExportRequest := do
  validateSortedHeads B requestedHeads false
  validateSortedHeads B knownHeads true
  ensure (requestedHeads.length ≤ MAX_BUNDLE_REFS ∧ knownHeads.length ≤ MAX_BUNDLE_REFS)
    .limitExceeded
  .ok ⟨context, requestedHeads, knownHeads, cursor, limits⟩

def toWire (request : ExportRequest) : Except SyncError Bytes :=
  (canonicalize B (.obj [("context", .str (request.context.text B)),
    ("cursor", cursorJson request.cursor), ("known_heads", headsValue B request.knownHeads),
    ("limits", limitsValue request.limits),
    ("protocol_version", .num (.posInt SYNC_PROTOCOL_VERSION)),
    ("requested_heads", headsValue B request.requestedHeads)])).mapError fun _ ↦ .protocol

def fromWire (input : Bytes) : Except SyncError ExportRequest := do
  let value ← strictProtocol B input
  let object ← objectExact value
    ["protocol_version", "context", "requested_heads", "known_heads", "cursor", "limits"]
  version object
  let context ← text (ContextId.parse B) object "context"
  let requestedValue ← take object "requested_heads"
  let requestedHeads ← ids B requestedValue
  let knownValue ← take object "known_heads"
  let knownHeads ← ids B knownValue
  let cursorMember ← take object "cursor"
  let cursor ← cursorValue cursorMember
  let limitsMember ← take object "limits"
  let limits ← objectExact limitsMember ["max_events", "max_bundle_bytes"]
  let maxEvents ← usizeValue limits "max_events"
  let maxBundleBytes ← usizeValue limits "max_bundle_bytes"
  let limits ← PullLimits.new maxEvents maxBundleBytes MAX_PULL_PAGES
  let request ← new B context requestedHeads knownHeads cursor limits
  let wire ← request.toWire B
  ensure (wire = input) .protocol
  .ok request

end ExportRequest

/-! ### Ref snapshots -/

/-- Canonical remote local-ref snapshot. -/
structure RefSnapshot where
  context : ContextId
  refs : List AdvertisedRef
  fingerprint : String
  deriving DecidableEq

namespace RefSnapshot

def new (context : ContextId) (refs : List AdvertisedRef) : Except SyncError RefSnapshot := do
  validateRefs refs
  let bytes ← derive B REFS_HASH_CONTEXT (refsFingerprintValue B context refs)
  .ok ⟨context, refs, encodeHash B "refs1_" bytes⟩

def toWire (snapshot : RefSnapshot) : Except SyncError Bytes :=
  match refsFingerprintValue B snapshot.context snapshot.refs with
  | .obj object => (canonicalize B (.obj
      (insertMember "snapshot_fingerprint" (.str snapshot.fingerprint) object))).mapError
        fun _ ↦ .protocol
  | _ => .error .internal

def fromWire (input : Bytes) : Except SyncError RefSnapshot := do
  let value ← strictProtocol B input
  let object ← objectExact value ["protocol_version", "context", "refs", "snapshot_fingerprint"]
  version object
  let context ← text (ContextId.parse B) object "context"
  let refsValue ← take object "refs"
  let refs ← parseRefs B refsValue
  let fingerprint ← string object "snapshot_fingerprint"
  let snapshot ← new B context refs
  ensure (snapshot.fingerprint = fingerprint) .protocol
  let wire ← snapshot.toWire B
  ensure (wire = input) .protocol
  .ok snapshot

end RefSnapshot

/-! ### Page responses -/

/-- Canonical response containing one independently valid bundle page. -/
structure ExportResponse where
  context : ContextId
  requestedHeadFingerprint : String
  bundle : BundleV1 B
  nextCursor : Option String
  complete : Bool

namespace ExportResponse

def new (context : ContextId) (requestedHeads : List EventId) (bundle : BundleV1 B)
    (nextCursor : Option String) : Except SyncError (ExportResponse B) := do
  ensure (bundle.context = context ∧ bundle.refs = []) .protocol
  let fingerprint ← Sync.requestedHeadFingerprint B context requestedHeads
  .ok ⟨context, fingerprint, bundle, nextCursor, nextCursor.isNone⟩

variable {B}

def toWire (response : ExportResponse B) : Except SyncError Bytes := do
  let wire ← response.bundle.toWire.mapError .store
  let bundle ← required (fromSlice B wire) .internal
  (canonicalize B (.obj [("bundle", bundle), ("complete", .bool response.complete),
    ("context", .str (response.context.text B)), ("next_cursor", cursorJson response.nextCursor),
    ("protocol_version", .num (.posInt SYNC_PROTOCOL_VERSION)),
    ("requested_head_fingerprint", .str response.requestedHeadFingerprint)])).mapError
      fun _ ↦ .protocol

variable (B)

def fromWire (input : Bytes) : Except SyncError (ExportResponse B) := do
  let value ← strictProtocol B input
  let object ← objectExact value ["protocol_version", "context", "requested_head_fingerprint",
    "bundle", "next_cursor", "complete"]
  version object
  let context ← text (ContextId.parse B) object "context"
  let fingerprint ← string object "requested_head_fingerprint"
  let bundleValue ← take object "bundle"
  let bundleWire ← (canonicalize B bundleValue).mapError fun _ ↦ .protocol
  let bundle ← (BundleV1.fromWire B bundleWire).mapError .store
  let cursorMember ← take object "next_cursor"
  let nextCursor ← cursorValue cursorMember
  let completeValue ← take object "complete"
  let complete ← required (match completeValue with
    | .bool value => some value
    | _ => none) .protocol
  let response : ExportResponse B := ⟨context, fingerprint, bundle, nextCursor, complete⟩
  ensure (bundle.context = context ∧ bundle.refs = [] ∧ complete = nextCursor.isNone) .protocol
  let wire ← response.toWire
  ensure (wire = input) .protocol
  .ok response

end ExportResponse

end ContextMesh.Sync
