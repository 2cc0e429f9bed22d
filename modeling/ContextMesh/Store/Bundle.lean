import ContextMesh.Store.Dag

/-!
Bundle v1: its checked value, its wire codec, deterministic export, and the import that admits a
whole bundle and its advertised refs in one transaction.
-/

set_option autoImplicit false
set_option relaxedAutoImplicit false

namespace ContextMesh.Store

open Checked Ordered Contract

def BUNDLE_VERSION : ℕ := 1

/-- Hard maximum canonical or raw bytes in one bundle. -/
def MAX_BUNDLE_CANONICAL_BYTES : ℕ := 16777216

/-- Hard maximum advertised refs in one bundle. -/
def MAX_BUNDLE_REFS : ℕ := 256

inductive RefNamespace
  | «local»
  deriving DecidableEq

/-- Unsigned peer claim about one advertised branch head. -/
structure AdvertisedRef where
  «namespace» : RefNamespace
  name : LocalRefName
  head : EventId
  deriving DecidableEq

structure BundleLimits where
  maxEvents : ℕ
  maxCanonicalBytes : ℕ
  maxRefs : ℕ

def BundleLimits.new (maxEvents maxCanonicalBytes maxRefs : ℕ) :
    Except StoreError BundleLimits := do
  ensure (maxEvents ≠ 0 ∧ maxEvents ≤ MAX_BUNDLE_EVENTS ∧ maxCanonicalBytes ≠ 0 ∧
    maxCanonicalBytes ≤ MAX_BUNDLE_CANONICAL_BYTES ∧ maxRefs ≠ 0 ∧ maxRefs ≤ MAX_BUNDLE_REFS)
    .bundleLimitExceeded
  .ok ⟨maxEvents, maxCanonicalBytes, maxRefs⟩

def BundleLimits.default : BundleLimits :=
  ⟨MAX_BUNDLE_EVENTS, MAX_BUNDLE_CANONICAL_BYTES, MAX_BUNDLE_REFS⟩

def validateBundleLimits (limits : BundleLimits) : Except StoreError Unit :=
  BundleLimits.new limits.maxEvents limits.maxCanonicalBytes limits.maxRefs >>= fun _ ↦ .ok ()

def refKey (item : AdvertisedRef) : String := item.name.asStr

variable (B : Boundary)

/-- Every event verifies, belongs to the context, and comes after its parents in the bundle. -/
def checkBundleEvents (context : ContextId) (all : List EventId) :
    List EventId → List SignedEventV1 → Except StoreError Unit
  | _, [] => .ok ()
  | seen, event :: rest => do
    (event.verify B).mapError fun _ ↦ .bundleMalformed
    ensure (event.body.context = context) .bundleMalformed
    ensure (∀ parent ∈ event.body.parents, ¬ (parent ∈ all ∧ parent ∉ seen)) .bundleOrder
    checkBundleEvents context all (event.eventId :: seen) rest

def checkParts (context : ContextId) (events : List SignedEventV1) (refs : List AdvertisedRef) :
    Except StoreError Unit := do
  ensure (events.length ≤ MAX_BUNDLE_EVENTS ∧ refs.length ≤ MAX_BUNDLE_REFS) .bundleLimitExceeded
  ensure (events.map SignedEventV1.eventId).Nodup .bundleOrder
  checkBundleEvents B context (events.map SignedEventV1.eventId) [] events
  ensure (Canonical refKey refs) .bundleOrder

/-- Immutable, independently validated bundle value. -/
structure BundleV1 where
  context : ContextId
  events : List SignedEventV1
  refs : List AdvertisedRef
  parts : checkParts B context events refs = .ok ()

/-- The JSON integer of a value. -/
def asU64 : Json → Option ℕ
  | .num (.posInt n) => some n
  | _ => none

def takeString (object : Members) (key : String) : Except StoreError String := do
  let value ← (takeRequired object key).mapError fun _ ↦ .bundleMalformed
  (intoString value).mapError fun _ ↦ .bundleMalformed

def parseRef (value : Json) : Except StoreError AdvertisedRef := do
  let object ← (intoObject value).mapError fun _ ↦ .bundleMalformed
  (rejectUnknown object ["namespace", "name", "head"]).mapError fun _ ↦ .bundleMalformed
  let «namespace» ← takeString object "namespace"
  ensure («namespace» = "local") .bundleRefInvalid
  let nameText ← takeString object "name"
  let name ← (LocalRefName.parse nameText).mapError fun _ ↦ .bundleRefInvalid
  let headText ← takeString object "head"
  let head ← (EventId.parse B headText).mapError fun _ ↦ .bundleRefInvalid
  .ok ⟨.local, name, head⟩

namespace AdvertisedRef

def toJson (item : AdvertisedRef) : Json :=
  .obj [("head", .str (item.head.text B)), ("name", .str item.name.asStr),
    ("namespace", .str "local")]

end AdvertisedRef

namespace BundleV1

/-- A checked bundle; parents outside the bundle are its frontier. -/
def fromParts (context : ContextId) (events : List SignedEventV1) (refs : List AdvertisedRef) :
    Except StoreError (BundleV1 B) :=
  match h : checkParts B context events refs with
  | .ok () => .ok ⟨context, events, refs, h⟩
  | .error error => .error error

variable {B}

/-- Exact canonical bundle bytes. -/
def toWire (bundle : BundleV1 B) : Except StoreError Bytes := do
  let events ← mapEach (fun event : SignedEventV1 ↦ do
    let wire ← (event.toWire B).mapError fun _ ↦ .bundleMalformed
    required (fromSlice B wire) .bundleMalformed) bundle.events
  let wire ← (canonicalize B (.obj [("bundle_version", .num (.posInt BUNDLE_VERSION)),
    ("context", .str (bundle.context.text B)), ("events", .arr events),
    ("refs", .arr (bundle.refs.map (AdvertisedRef.toJson B)))])).mapError fun _ ↦ .bundleMalformed
  ensure (wire.length ≤ MAX_BUNDLE_CANONICAL_BYTES) .bundleLimitExceeded
  .ok wire

variable (B)

/-- Strictly parses and verifies a bundle under the hard bounds. -/
def fromWire (input : Bytes) : Except StoreError (BundleV1 B) := do
  ensure (input.length ≤ MAX_BUNDLE_CANONICAL_BYTES) .bundleLimitExceeded
  let value ← (strictJson B input).mapError fun _ ↦ .bundleMalformed
  let object ← (intoObject value).mapError fun _ ↦ .bundleMalformed
  (rejectUnknown object ["bundle_version", "context", "events", "refs"]).mapError
    fun _ ↦ .bundleMalformed
  let version ← (takeRequired object "bundle_version").mapError fun _ ↦ .bundleMalformed
  ensure (asU64 version = some BUNDLE_VERSION) .bundleUnsupportedVersion
  let contextText ← takeString object "context"
  let context ← (ContextId.parse B contextText).mapError fun _ ↦ .bundleMalformed
  let eventsValue ← (takeRequired object "events").mapError fun _ ↦ .bundleMalformed
  let refsValue ← (takeRequired object "refs").mapError fun _ ↦ .bundleMalformed
  match eventsValue, refsValue with
  | .arr eventValues, .arr refValues => do
    ensure (eventValues.length ≤ MAX_BUNDLE_EVENTS ∧ refValues.length ≤ MAX_BUNDLE_REFS)
      .bundleLimitExceeded
    let events ← mapEach (fun value ↦ do
      let wire ← (canonicalize B value).mapError fun _ ↦ .bundleMalformed
      (SignedEventV1.fromWire B wire).mapError fun _ ↦ .bundleMalformed) eventValues
    let refs ← mapEach (parseRef B) refValues
    let bundle ← fromParts B context events refs
    let wire ← bundle.toWire
    ensure (wire.length ≤ MAX_BUNDLE_CANONICAL_BYTES) .bundleLimitExceeded
    .ok bundle
  | _, _ => .error .bundleMalformed

end BundleV1

/-- Counts produced by one atomic bundle import. -/
structure ImportReport where
  inserted : ℕ
  alreadyPresent : ℕ
  remoteRefsUpdated : ℕ
  deriving DecidableEq

/-! ### Export -/

def normalizeBundleHeads (heads : List EventId) : Except StoreError (List EventId) := do
  ensure (heads ≠ [] ∧ heads.length ≤ MAX_BUNDLE_EVENTS) .bundleLimitExceeded
  .ok (normalize (EventId.text B) heads)

/-- The events of the ancestry of some heads, without those of the ancestry of the known heads. -/
def planOn (t : Tables) (context : ContextId) (requested known : List EventId) :
    Except StoreError (List SignedEventV1) := do
  let requestedEvents ← projectOn B t context requested .default
  let knownEvents ← if known = [] then .ok ([], 0)
    else projectOn B t context known .default
  let knownIds := knownEvents.1.map SignedEventV1.eventId
  .ok (requestedEvents.1.filter fun event ↦ event.eventId ∉ knownIds)

/-- Exports a deterministic bounded ancestry difference plus a caller snapshot of refs. -/
def exportBundle (t : Tables) (context : ContextId) (requestedHeads knownFrontier : List EventId)
    (advertisedRefSnapshot : List LocalRef) (limits : BundleLimits) :
    Except StoreError (BundleV1 B) := do
  validateBundleLimits limits
  let requested ← normalizeBundleHeads B requestedHeads
  let known ← if knownFrontier = [] then .ok [] else normalizeBundleHeads B knownFrontier
  let events ← planOn B t context requested known
  ensure (events.length ≤ limits.maxEvents) .bundleLimitExceeded
  ensure (advertisedRefSnapshot.length ≤ limits.maxRefs) .bundleLimitExceeded
  let refs ← mapEach (fun item : LocalRef ↦ do
    ensure (item.context = context) .bundleRefInvalid
    let found ← authoritativeEventContext B t item.head
    ensure (found = some context) .bundleRefInvalid
    .ok (⟨.local, item.name, item.head⟩ : AdvertisedRef)) advertisedRefSnapshot
  let bundle ← BundleV1.fromParts B context events (sort refKey refs)
  let wire ← bundle.toWire
  ensure (wire.length ≤ limits.maxCanonicalBytes) .bundleLimitExceeded
  .ok bundle

/-! ### Import -/

/-- The transaction so far: the tables, the state of the context, and the counts. -/
structure ImportProgress where
  tables : Tables
  state : ℤ
  inserted : ℕ
  alreadyPresent : ℕ

/-- Inserts the rows of a bundle event that is new, or rechecks one that is stored. -/
def importRows (context : ContextId) (expectedGenesis : EventId) (progress : ImportProgress)
    (event : SignedEventV1) (eventBytes : Bytes) : Option Bytes → Except StoreError ImportProgress
  | none =>
    if progress.state = 1 ∧ IsGenesis expectedGenesis event then .error .corruptStorage
    else do
      let rows ← progress.tables.insertEvent event.eventId context event.body.author
        event.body.kind eventBytes
      let rows ← rows.insertEdges event.eventId 0 event.body.parents
      .ok { progress with tables := rows, inserted := progress.inserted + 1 }
  | some existing =>
    if progress.state = 0 ∧ IsGenesis expectedGenesis event then .error .corruptStorage
    else do
      ensure (existing = eventBytes) .eventCollision
      validateStoredEvent B progress.tables event
      .ok { progress with alreadyPresent := progress.alreadyPresent + 1 }

/-- Admits one event of a bundle. -/
def importEvent (context : ContextId) (expectedGenesis : EventId) (progress : ImportProgress)
    (event : SignedEventV1) : Except StoreError ImportProgress := do
  ensure (¬ (progress.state = 0 ∧ ¬ IsGenesis expectedGenesis event)) .genesisMismatch
  ensure (¬ (progress.state = 1 ∧ ¬ IsGenesis expectedGenesis event ∧
    (event.body.parents = [] ∨ event.body.kind = "context.genesis"))) .genesisMismatch
  ensure (isAuthorized progress.tables context event.body.author) .unauthorizedAuthor
  checkEach (requireInContext B context progress.tables) event.body.parents
  let eventBytes ← (event.toWire B).mapError .contract
  let existing ← eventWire progress.tables event.eventId
  let next ← importRows B context expectedGenesis progress event eventBytes existing
  if progress.state = 0 then do
    let activated ← activate context event.eventId next.tables
    .ok { next with tables := activated, state := 1 }
  else .ok next

/-- Sets one advertised ref of a bundle; the count tells how many refs have changed so far. -/
def importRef (peer : PeerName) (context : ContextId) (progress : Tables × ℕ)
    (item : AdvertisedRef) : Except StoreError (Tables × ℕ) := do
  let found ← authoritativeEventContext B progress.1 item.head
  ensure (found = some context) .bundleRefInvalid
  let current ← remoteRefId progress.1 peer context item.name
  if current = some item.head then .ok progress
  else do
    let updated ← progress.1.upsertRemoteRef peer context item.name item.head
    .ok (updated, progress.2 + 1)

variable {B}

/-- Imports a checked bundle in one transaction. -/
def importBundleValue (peer : PeerName) (bundle : BundleV1 B) (t : Tables) :
    Except StoreError (Tables × ImportReport) := do
  let row ← contextRow t bundle.context
  let (expectedGenesis, state) ← required row .contextUnknown
  let imported ← foldEach (importEvent B bundle.context expectedGenesis) ⟨t, state, 0, 0⟩
    bundle.events
  let (updated, remoteRefsUpdated) ← foldEach (importRef B peer bundle.context)
    (imported.tables, 0) bundle.refs
  .ok (updated, ⟨imported.inserted, imported.alreadyPresent, remoteRefsUpdated⟩)

variable (B)

/-- Strictly parses and atomically imports one bundle into an explicit peer namespace. -/
def importBundle (peer : PeerName) (wire : Bytes) (limits : BundleLimits) (t : Tables) :
    Except StoreError (Tables × ImportReport) := do
  validateBundleLimits limits
  ensure (wire.length ≤ limits.maxCanonicalBytes) .bundleLimitExceeded
  let bundle ← BundleV1.fromWire B wire
  ensure (bundle.events.length ≤ limits.maxEvents ∧ bundle.refs.length ≤ limits.maxRefs)
    .bundleLimitExceeded
  let rendered ← bundle.toWire
  ensure (rendered.length ≤ limits.maxCanonicalBytes) .bundleLimitExceeded
  importBundleValue peer bundle t

end ContextMesh.Store
