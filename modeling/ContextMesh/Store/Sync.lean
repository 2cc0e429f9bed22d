import ContextMesh.Store.Bundle

/-!
Read-snapshot export paging, the atomic replacement of one remote-ref namespace, and the export
command.
-/

set_option autoImplicit false
set_option relaxedAutoImplicit false

namespace ContextMesh.Store

open Checked Ordered Contract

variable (B : Boundary)

/-- One bounded page selected from an immutable ancestry-difference plan. -/
structure SyncExportPage where
  bundle : BundleV1 B
  effectiveKnownHeads : List EventId
  nextOffset : Option ℕ

/-- The expected genesis of an active context. -/
def requireActive (t : Tables) (context : ContextId) : Except StoreError Unit := do
  let row ← contextRow t context
  let (_, state) ← required row .contextUnknown
  ensure (state = 1) .contextUnknown

/-- A checked local-ref snapshot of one active context. -/
def syncLocalRefSnapshot (t : Tables) (context : ContextId) :
    Except StoreError (List LocalRef) := do
  requireActive t context
  let refs ← listLocalRefs B t context
  ensure (refs.length ≤ MAX_BUNDLE_REFS) .bundleLimitExceeded
  .ok refs

/-- The known heads that are stored in the context. -/
def effectiveKnown (t : Tables) (context : ContextId) :
    List EventId → Except StoreError (List EventId)
  | [] => .ok []
  | head :: rest => do
    let found ← authoritativeEventContext B t head
    let kept ← effectiveKnown t context rest
    .ok (if found = some context then head :: kept else kept)

/-- Binary search for the longest page within the byte bound; the best page so far is carried. -/
def searchPage (context : ContextId) (remaining : List SignedEventV1) (maxBundleBytes : ℕ)
    (low high : ℕ) (best : Option (ℕ × BundleV1 B)) :
    Except StoreError (Option (ℕ × BundleV1 B)) :=
  if h : low ≤ high then do
    let count := low + (high - low) / 2
    let bundle ← BundleV1.fromParts B context (remaining.take count) []
    let wire ← bundle.toWire
    if wire.length ≤ maxBundleBytes then
      searchPage context remaining maxBundleBytes (count + 1) high (some (count, bundle))
    else if hcount : count = 0 then .ok best
    else searchPage context remaining maxBundleBytes low (count - 1) best
  else .ok best
  termination_by high + 1 - low
  decreasing_by
  · omega
  · omega

/-- Selects one deterministic parent-first page in a read snapshot. -/
def exportSyncPage (t : Tables) (context : ContextId) (requestedHeads knownHeads : List EventId)
    (offset maxEvents maxBundleBytes : ℕ) : Except StoreError (SyncExportPage B) := do
  ensure (maxEvents ≠ 0 ∧ maxEvents ≤ MAX_BUNDLE_EVENTS ∧ maxBundleBytes ≠ 0 ∧
    maxBundleBytes ≤ MAX_BUNDLE_CANONICAL_BYTES) .bundleLimitExceeded
  let requested ← normalizeHeads B requestedHeads
  ensure (knownHeads.length ≤ MAX_BUNDLE_REFS) .bundleLimitExceeded
  requireActive t context
  let effectiveKnown ← effectiveKnown B t context (normalize (EventId.text B) knownHeads)
  let plan ← planOn B t context requested effectiveKnown
  ensure (¬ (plan.length < offset ∨ (offset = plan.length ∧ offset ≠ 0))) .bundleOrder
  if plan = [] then do
    let bundle ← BundleV1.fromParts B context [] []
    .ok ⟨bundle, effectiveKnown, none⟩
  else do
    let remaining := plan.drop offset
    let best ← searchPage B context remaining maxBundleBytes 1 (min remaining.length maxEvents) none
    let (count, bundle) ← required best .bundleLimitExceeded
    let next := offset + count
    .ok ⟨bundle, effectiveKnown, if next < plan.length then some next else none⟩

/-- The names inserted, moved or deleted between two namespaces without repeated names. -/
def namespaceChangeCount (existing desired : List (LocalRefName × EventId)) : ℕ :=
  existing.countP (fun old ↦ old.1 ∉ desired.map Prod.fst) +
    desired.countP (fun new ↦ new ∉ existing)

/-- Atomically replaces exactly one remote-ref namespace. -/
def replaceRemoteRefSnapshot (peer : PeerName) (context : ContextId) (refs : List AdvertisedRef)
    (t : Tables) : Except StoreError (Tables × ℕ) := do
  ensure (refs.length ≤ MAX_BUNDLE_REFS ∧ Canonical refKey refs) .bundleRefInvalid
  requireActive t context
  checkEach (fun item : AdvertisedRef ↦ do
    let found ← authoritativeEventContext B t item.head
    ensure (found = some context) .bundleRefInvalid) refs
  let existing ← mapEach (fun row : RemoteRefRow ↦ do
      let nameText ← textValue row.name
      let head ← idValue row.eventId
      let name ← LocalRefName.parse nameText
      .ok (name, head))
    (sort (fun row ↦ row.name.key) (t.remoteRefs.filter fun row ↦
      row.peer = .text peer.asStr ∧ row.contextId = cell context.bytes))
  let changed := namespaceChangeCount existing (refs.map fun item ↦ (item.name, item.head))
  if changed = 0 then .ok (t, 0)
  else do
    let replaced ← foldEach (fun t item ↦ t.insertRemoteRef peer context item.name item.head)
      (t.deleteRemoteRefs peer context) refs
    .ok (replaced, changed)

/-- The export command: it reads the refs of the context, and selects the events in a later read of
the tables. -/
def bundleExport (snapshot t : Tables) (context : ContextId) (requested known : List EventId) :
    Except StoreError Bytes := do
  let refs ← syncLocalRefSnapshot B snapshot context
  let bundle ← exportBundle B t context requested known refs .default
  bundle.toWire

end ContextMesh.Store
