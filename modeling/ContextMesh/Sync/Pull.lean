import ContextMesh.Client.Store
import ContextMesh.Sync.Server

/-!
The pull client. It asks its peer for the refs of a context, imports the missing history page by
page, each page in a transaction of its own, and at the end replaces the remote refs of the peer.
-/

set_option autoImplicit false
set_option relaxedAutoImplicit false

namespace ContextMesh.Sync

open Checked Ordered Contract Store Interaction

/-- Aggregate counters from one pull. -/
structure PullReport where
  pages : ℕ
  received : ℕ
  inserted : ℕ
  alreadyPresent : ℕ
  remoteRefsUpdated : ℕ
  deriving DecidableEq

/-- Checked configuration for one pull client. -/
structure PullClientConfig where
  peer : PeerName
  context : ContextId
  limits : PullLimits
  transport : TransportLimits

/-- What the transport of the client hands over: the body of a successful answer, or an error. -/
abbrev PeerRequest.Reply (_ : PeerRequest) : Type := Except SyncError Bytes

abbrev Pulling (α : Type) := Client PeerRequest PeerRequest.Reply SyncError α

/-- Addition on the platform's word, which has 64 bits. -/
def checked (left right : ℕ) : Except SyncError ℕ := do
  ensure (left + right < 2 ^ 64) .limitExceeded
  .ok (left + right)

def requestRefs (context : ContextId) : Pulling Bytes :=
  Fallible.attempt (.ask (PeerRequest.getRefs context)) fun answer : Except SyncError Bytes ↦ answer

def requestPage (wire : Bytes) : Pulling Bytes := do
  Fallible.ofExcept (ensure (wire.length ≤ MAX_PULL_REQUEST_BODY_BYTES) .limitExceeded)
  Fallible.attempt (.ask (PeerRequest.postExport wire)) fun answer : Except SyncError Bytes ↦ answer

/-- Where the page loop stands. -/
structure PullState where
  report : PullReport
  cursor : Option String
  expectedOffset : ℕ
  cursorFingerprint : Option (Fixed 32)

def PullState.start : PullState := ⟨⟨0, 0, 0, 0, 0⟩, none, 0, none⟩

variable (B : Boundary)

/-- Checks a page against the request, and gives the cursor to go on with. -/
def checkPage (config : PullClientConfig) (expectedHeads : String) (state : PullState)
    (response : ExportResponse B) : Except SyncError (Option (ℕ × Fixed 32 × String)) := do
  ensure (response.context = config.context ∧ response.requestedHeadFingerprint = expectedHeads)
    .protocol
  ensure (¬ (response.bundle.events = [] ∧ response.complete = false)) .protocol
  if response.complete then .ok none
  else do
    let nextCursor ← required response.nextCursor .protocol
    let (nextOffset, fingerprint) ← decodeCursor B nextCursor
    let expectedNext ← checked state.expectedOffset response.bundle.events.length
    ensure (¬ (nextOffset ≠ expectedNext ∨ nextOffset ≤ state.expectedOffset ∨
      ∃ value ∈ state.cursorFingerprint, value ≠ fingerprint)) .protocol
    .ok (some (nextOffset, fingerprint, nextCursor))

variable {B}

/-- Counts an imported page. -/
def PullReport.addPage (report : PullReport) (response : ExportResponse B)
    (imported : ImportReport) : Except SyncError PullReport := do
  let pages ← checked report.pages 1
  let received ← checked report.received response.bundle.events.length
  let inserted ← checked report.inserted imported.inserted
  let alreadyPresent ← checked report.alreadyPresent imported.alreadyPresent
  .ok { report with pages, received, inserted, alreadyPresent }

variable (B)

/-- The page loop; the first argument is the number of pages that the limit leaves. -/
def pullPages (config : PullClientConfig) (requestedHeads knownHeads : List EventId)
    (expectedHeads : String) : ℕ → PullState → Pulling PullReport
  | 0, _ => Fallible.ofExcept (.error .limitExceeded)
  | left + 1, state => do
    let request ← Fallible.ofExcept (ExportRequest.new B config.context requestedHeads knownHeads
      state.cursor config.limits)
    let requestWire ← Fallible.ofExcept (request.toWire B)
    let responseWire ← requestPage requestWire
    let response ← Fallible.ofExcept (ExportResponse.fromWire B responseWire)
    let next ← Fallible.ofExcept (checkPage B config expectedHeads state response)
    let bundleWire ← Fallible.ofExcept (response.bundle.toWire.mapError .store)
    let limits ← Fallible.ofExcept ((BundleLimits.new config.limits.maxEvents
      config.limits.maxBundleBytes MAX_BUNDLE_REFS).mapError .store)
    let imported ← call (.importBundle config.peer bundleWire limits) .store
    let report ← Fallible.ofExcept (state.report.addPage response imported)
    match next with
    | none => Fallible.ofExcept (.ok report)
    | some (nextOffset, fingerprint, nextCursor) =>
      pullPages config requestedHeads knownHeads expectedHeads left
        ⟨report, some nextCursor, nextOffset, some fingerprint⟩

/-- Pulls immutable history and atomically replaces only the selected peer refs. -/
def pull (config : PullClientConfig) : Pulling PullReport := do
  let refsWire ← requestRefs config.context
  let snapshot ← Fallible.ofExcept (RefSnapshot.fromWire B refsWire)
  Fallible.ofExcept (ensure (snapshot.context = config.context) .protocol)
  let requestedHeads := normalize (EventId.text B) (snapshot.refs.map AdvertisedRef.head)
  let «local» ← listLocalRefsStep config.context .store
  let remote ← listRemoteRefsStep config.peer config.context .store
  let knownHeads := normalize (EventId.text B)
    («local».map LocalRef.head ++ remote.map RemoteRef.head)
  Fallible.ofExcept (ensure (knownHeads.length ≤ MAX_BUNDLE_REFS) .limitExceeded)
  if requestedHeads = [] then do
    let updated ← call (.replaceRemoteRefSnapshot config.peer config.context snapshot.refs) .store
    Fallible.ofExcept (.ok ⟨0, 0, 0, 0, updated⟩)
  else do
    let expectedHeads ← Fallible.ofExcept
      (requestedHeadFingerprint B config.context requestedHeads)
    let report ← pullPages B config requestedHeads knownHeads expectedHeads config.limits.maxPages
      .start
    let updated ← call (.replaceRemoteRefSnapshot config.peer config.context snapshot.refs) .store
    Fallible.ofExcept (.ok { report with remoteRefsUpdated := updated })

end ContextMesh.Sync
