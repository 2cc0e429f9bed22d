import ContextMesh.Store.Dag

/-!
Bounded full-store integrity verification. The scan reads every table in one snapshot, whatever the
rows hold, and reports findings. A finding is pushed by the row or the event it is about; the maps
the source fills while it scans are the lists of decoded rows here, and its passes over a map go in
key order.
-/

set_option autoImplicit false
set_option relaxedAutoImplicit false

namespace ContextMesh.Store

open Checked Ordered Contract Traversal

/-- Default maximum recorded verification findings. -/
def MAX_VERIFICATION_FINDINGS : ℕ := 256

/-- Hard maximum recorded verification findings. -/
def MAX_VERIFICATION_FINDINGS_HARD : ℕ := 1024

def STORE_SCHEMA_FINGERPRINT : String := "contextmesh.store.v1.2026-08-16"

/-- The schema objects of the store, by type and name. -/
def REQUIRED_OBJECTS : List (String × String) :=
  [("table", "metadata"), ("table", "contexts"), ("table", "authorized_authors"),
    ("table", "events"), ("table", "parent_edges"), ("table", "local_refs"),
    ("table", "remote_refs"), ("trigger", "events_no_update"), ("trigger", "events_no_delete"),
    ("trigger", "edges_no_update"), ("trigger", "edges_no_delete"),
    ("trigger", "authors_no_update"), ("trigger", "authors_no_delete"),
    ("trigger", "contexts_transition_only"), ("trigger", "contexts_no_delete")]

/-! ### Databases -/

/-- The declared keys of the tables. Rows without a key value do not repeat one. -/
structure Tables.Keyed (t : Tables) : Prop where
  contexts : t.contexts.Pairwise fun a b ↦ a.contextId = b.contextId → a.contextId = .null
  authors : t.authorizedAuthors.Nodup
  events : t.events.Pairwise fun a b ↦ a.eventId = b.eventId → a.eventId = .null
  edges : (t.parentEdges.map fun row ↦ (row.childId, row.ordinal)).Nodup
  localRefs : (t.localRefs.map fun row ↦ (row.contextId, row.name)).Nodup
  remoteRefs : (t.remoteRefs.map fun row ↦ (row.peer, row.contextId, row.name)).Nodup

/-- A database file: its metadata by key, its schema objects and its tables. The engine keeps the
declared keys; everything else may be corrupted. -/
structure Database where
  metadata : List (String × SqlValue)
  objects : List (String × String)
  tables : Tables
  keyed : tables.Keyed

/-- The foreign keys of the schema: a reference that is not null has its row. -/
def Tables.ForeignKeys (t : Tables) : Prop :=
  (∀ row ∈ t.authorizedAuthors, row.contextId = .null ∨ t.hasContext row.contextId) ∧
  (∀ row ∈ t.events, row.contextId = .null ∨ t.hasContext row.contextId) ∧
  (∀ row ∈ t.parentEdges, (row.childId = .null ∨ t.hasEvent row.childId) ∧
    (row.parentId = .null ∨ t.hasEvent row.parentId)) ∧
  (∀ row ∈ t.localRefs, (row.contextId = .null ∨ t.hasContext row.contextId) ∧
    (row.eventId = .null ∨ t.hasEvent row.eventId)) ∧
  ∀ row ∈ t.remoteRefs, (row.contextId = .null ∨ t.hasContext row.contextId) ∧
    (row.eventId = .null ∨ t.hasEvent row.eventId)

instance (t : Tables) : Decidable t.ForeignKeys := by
  unfold Tables.ForeignKeys
  infer_instance

/-- The fingerprint, the required objects and the foreign keys. -/
def verifyObjects (db : Database) : Except StoreError Unit := do
  let fingerprints := db.metadata.filter fun entry ↦ entry.1 = "schema_fingerprint"
  ensure (fingerprints.map Prod.snd = [.text STORE_SCHEMA_FINGERPRINT]) .migrationFailed
  checkEach (fun object ↦ ensure (db.objects.count object = 1) .migrationFailed) REQUIRED_OBJECTS
  ensure db.tables.ForeignKeys .corruptStorage

/-! ### Reports -/

inductive VerificationCategory
  | schema
  | context
  | authorization
  | eventWire
  | eventIdentity
  | eventColumns
  | edgeSet
  | parentMissing
  | parentContext
  | genesis
  | cycle
  | localRef
  | remoteRef
  | refName
  | projectionLimit
  deriving DecidableEq

/-- One bounded non-secret integrity finding. -/
structure VerificationFinding where
  category : VerificationCategory
  context : Option ContextId
  event : Option EventId
  relatedEvent : Option EventId
  deriving DecidableEq

structure VerificationReport where
  valid : Bool
  checkedContexts : ℕ
  checkedEvents : ℕ
  checkedRefs : ℕ
  findings : List VerificationFinding
  truncated : Bool

structure VerificationLimits where
  maxFindings : ℕ
  projection : ProjectionLimits

def VerificationLimits.new (maxFindings : ℕ) (projection : ProjectionLimits) :
    Except StoreError VerificationLimits := do
  ensure (¬ (maxFindings = 0 ∨ maxFindings > MAX_VERIFICATION_FINDINGS_HARD))
    .verificationLimitInvalid
  validateProjectionLimits projection
  .ok ⟨maxFindings, projection⟩

def VerificationLimits.default : VerificationLimits :=
  ⟨MAX_VERIFICATION_FINDINGS, ProjectionLimits.default⟩

/-- The findings retained so far. -/
structure Findings where
  max : ℕ
  values : List VerificationFinding
  truncated : Bool

def Findings.push (findings : Findings) (finding : VerificationFinding) : Findings :=
  if findings.values.length < findings.max then
    { findings with values := findings.values ++ [finding] }
  else { findings with truncated := true }

/-! ### The scan of each table -/

structure ContextCheck where
  expected : EventId
  genesis : Option EventId
  state : ℤ

/-- The decoded row of a context. -/
def contextEntry (row : ContextRow) : Option (ContextId × ContextCheck) :=
  match contextValue row.contextId, idValue row.expectedGenesisId, integerValue row.state,
    optionalId row.genesisEventId with
  | .ok context, .ok expected, .ok state, .ok genesis => some (context, ⟨expected, genesis, state⟩)
  | _, _, _, _ => none

/-- A row of a context that the scan cannot interpret, which makes the report unsafe. -/
def contextUnsafe (row : ContextRow) : Bool :=
  match contextValue row.contextId, idValue row.expectedGenesisId, integerValue row.state with
  | .ok _, .ok _, .ok _ => false
  | _, _, _ => true

def contextFindings (row : ContextRow) : List VerificationFinding :=
  match contextValue row.contextId, idValue row.expectedGenesisId, integerValue row.state with
  | .ok context, .ok expected, .ok state =>
    match optionalId row.genesisEventId with
    | .ok genesis =>
      if ¬ (state = 0 ∨ state = 1) ∨ (state = 0 ∧ genesis ≠ none) ∨
          (state = 1 ∧ genesis ≠ some expected) then
        [⟨.context, some context, none, genesis⟩]
      else []
    | .error _ => [⟨.context, some context, none, none⟩]
  | _, _, _ => [⟨.context, none, none, none⟩]

def authorEntry (row : AuthorRow) : Option (ContextId × AuthorId) :=
  match contextValue row.contextId, authorValue row.authorId with
  | .ok context, .ok author => some (context, author)
  | _, _ => none

def authorFindings (row : AuthorRow) : List VerificationFinding :=
  if authorEntry row = none then [⟨.authorization, none, none, none⟩] else []

/-- A context without any author. -/
def provisionFindings (authors : List (ContextId × AuthorId)) (context : ContextId) :
    List VerificationFinding :=
  if ∃ entry ∈ authors, entry.1 = context then []
  else [⟨.authorization, some context, none, none⟩]

section Scan

variable (B : Boundary)

/-- The findings of one event row, with the decoded event. -/
def scanEvent (authors : List (ContextId × AuthorId)) (row : EventRow) :
    Except StoreError (List VerificationFinding × Option (EventId × SignedEventV1)) :=
  match idValue row.eventId, contextValue row.contextId, authorValue row.authorId,
    textValue row.kind, blobValue row.canonicalWire with
  | .ok rowId, .ok rowContext, .ok rowAuthor, .ok kind, .ok wire =>
    match SignedEventV1.fromWire B wire with
    | .error _ => .ok ([⟨.eventWire, some rowContext, some rowId, none⟩], none)
    | .ok event => do
      let rendered ← (event.toWire B).mapError .contract
      let canonical := if rendered ≠ wire then
        [⟨.eventWire, some rowContext, some rowId, none⟩] else []
      let identity := if event.eventId ≠ rowId then
        [⟨.eventIdentity, some rowContext, some rowId, some event.eventId⟩] else []
      let columns := if event.body.context ≠ rowContext ∨ event.body.author ≠ rowAuthor ∨
          event.body.kind ≠ kind then
        [⟨.eventColumns, some rowContext, some rowId, none⟩] else []
      let authorized := if (event.body.context, event.body.author) ∉ authors then
        [⟨.authorization, some event.body.context, some rowId, none⟩] else []
      .ok (canonical ++ identity ++ columns ++ authorized, some (rowId, event))
  | rowId, rowContext, _, _, _ =>
    .ok ([⟨.eventColumns, rowContext.toOption, rowId.toOption, none⟩], none)

/-- The event of an identifier among the decoded events. -/
def eventOf (events : List (EventId × SignedEventV1)) (id : EventId) : Option SignedEventV1 :=
  (events.find? fun entry ↦ entry.1 = id).map Prod.snd

def edgeEntry (row : EdgeRow) : Option (EventId × ℤ × EventId) :=
  match idValue row.childId, integerValue row.ordinal, idValue row.parentId with
  | .ok child, .ok ordinal, .ok parent => some (child, ordinal, parent)
  | _, _, _ => none

def edgeRowFindings (row : EdgeRow) : List VerificationFinding :=
  if (edgeEntry row).isNone then [⟨.edgeSet, none, none, none⟩] else []

/-- The ordinals and parents stored for a child, in ordinal order. -/
def edgesOf (edges : List (EventId × ℤ × EventId)) (child : EventId) : List (ℤ × EventId) :=
  (edges.filter fun edge ↦ edge.1 = child).map Prod.snd

/-- The stored edges of an event are its signed parents under the ordinals from zero on. -/
def exactEdges (stored : List (ℤ × EventId)) (parents : List EventId) : Bool :=
  stored.length = parents.length &&
    stored.zipIdx.all fun entry ↦ entry.1.1 = entry.2 ∧ parents[entry.2]? = some entry.1.2

/-- The findings about the edges and the parents of an event. -/
def edgeFindings (events : List (EventId × SignedEventV1)) (edges : List (EventId × ℤ × EventId))
    (entry : EventId × SignedEventV1) : List VerificationFinding :=
  (if exactEdges (edgesOf edges entry.1) entry.2.body.parents then []
    else [⟨.edgeSet, some entry.2.body.context, some entry.1, none⟩]) ++
  entry.2.body.parents.flatMap fun parent ↦
    match eventOf events parent with
    | none => [⟨.parentMissing, some entry.2.body.context, some entry.1, some parent⟩]
    | some parentEvent =>
      if parentEvent.body.context ≠ entry.2.body.context then
        [⟨.parentContext, some entry.2.body.context, some entry.1, some parent⟩]
      else []

/-- Edges of a child that is no event. -/
def strayEdgeFindings (events : List (EventId × SignedEventV1)) (child : EventId) :
    List VerificationFinding :=
  if eventOf events child = none then [⟨.edgeSet, none, some child, none⟩] else []

/-- An active context must hold its expected genesis. -/
def activeFindings (events : List (EventId × SignedEventV1)) (entry : ContextId × ContextCheck) :
    List VerificationFinding :=
  if entry.2.state = 1 then
    match eventOf events entry.2.expected with
    | some event =>
      if entry.2.genesis = some entry.2.expected ∧ event.body.context = entry.1 ∧
          event.body.kind = "context.genesis" ∧ event.body.parents = [] then []
      else [⟨.genesis, some entry.1, some entry.2.expected, none⟩]
    | none => [⟨.genesis, some entry.1, some entry.2.expected, none⟩]
  else []

/-- The check of a context among the decoded contexts. -/
def checkOf (contexts : List (ContextId × ContextCheck)) (context : ContextId) :
    Option ContextCheck :=
  (contexts.find? fun entry ↦ entry.1 = context).map Prod.snd

/-- An event of a pending context, a root or an event of the genesis kind other than the expected
genesis. -/
def rootFindings (contexts : List (ContextId × ContextCheck)) (entry : EventId × SignedEventV1) :
    List VerificationFinding :=
  let check := checkOf contexts entry.2.body.context
  let expected := check.map ContextCheck.expected
  if (check.map ContextCheck.state = some 0) ∨
      (entry.2.body.parents = [] ∧ expected ≠ some entry.1) ∨
      (entry.2.body.kind = "context.genesis" ∧ expected ≠ some entry.1) then
    [⟨.genesis, some entry.2.body.context, some entry.1, none⟩]
  else []

/-- The cycle check visits every event once; a visit spends the event it enters. -/
def cycleFinder (events : List (EventId × SignedEventV1)) :
    Walker EventId (List EventId) Unit Unit where
  visit white id _ :=
    if id ∈ white then
      .ok (white.erase id, (), match eventOf events id with
        | some event => event.body.parents.filter fun parent ↦ (eventOf events parent).isSome
        | none => [])
    else .error ()
  fuel white := white.length
  fuel_lt := by
    intro white id via white' datum parents h
    split_ifs at h with hmem
    rw [Except.ok.injEq, Prod.mk.injEq] at h
    rw [← h.1, List.length_erase_of_mem hmem]
    exact Nat.sub_lt (List.length_pos_of_mem hmem) Nat.one_pos
  cycle _ := ()

/-- The graph of the decoded events has a cycle. The source starts from every event in turn; the
later starts wait on the stack here. -/
def graphHasCycle (events : List (EventId × SignedEventV1)) : Bool :=
  let ids := sort (EventId.text B) (events.map Prod.fst)
  match (cycleFinder events).run (enters none ids) (.start ids) with
  | .ok _ => false
  | .error _ => true

/-- The findings of a local ref, with its head to project. -/
def scanLocalRef (events : List (EventId × SignedEventV1)) (row : LocalRefRow) :
    List VerificationFinding × Option (ContextId × EventId) :=
  match contextValue row.contextId, textValue row.name, idValue row.eventId with
  | .ok context, .ok name, .ok head =>
    let named := match LocalRefName.parse name with
      | .ok _ => []
      | .error _ => [⟨.refName, some context, none, some head⟩]
    if (eventOf events head).map (fun event ↦ event.body.context) ≠ some context then
      (named ++ [⟨.localRef, some context, none, some head⟩], none)
    else (named, some (context, head))
  | _, _, _ => ([⟨.localRef, none, none, none⟩], none)

/-- The findings of a remote ref, with its head to project. -/
def scanRemoteRef (events : List (EventId × SignedEventV1)) (row : RemoteRefRow) :
    List VerificationFinding × Option (ContextId × EventId) :=
  match textValue row.peer, contextValue row.contextId, textValue row.name,
    idValue row.eventId with
  | .ok peer, .ok context, .ok name, .ok head =>
    let named := match PeerName.parse peer, LocalRefName.parse name with
      | .ok _, .ok _ => []
      | _, _ => [⟨.refName, some context, none, some head⟩]
    if (eventOf events head).map (fun event ↦ event.body.context) ≠ some context then
      (named ++ [⟨.remoteRef, some context, none, some head⟩], none)
    else (named, some (context, head))
  | _, _, _, _ => ([⟨.remoteRef, none, none, none⟩], none)

/-- The finding of a head whose projection fails. -/
def projectionFindings (t : Tables) (limits : ProjectionLimits) (item : ContextId × EventId) :
    List VerificationFinding :=
  match projectOn B t item.1 [item.2] limits with
  | .ok _ => []
  | .error .projectionLimitExceeded => [⟨.projectionLimit, some item.1, some item.2, none⟩]
  | .error .projectionCycle => [⟨.cycle, some item.1, some item.2, none⟩]
  | .error _ => [⟨.eventWire, some item.1, some item.2, none⟩]

def verifyOn (db : Database) (limits : VerificationLimits) :
    Except StoreError VerificationReport := do
  let t := db.tables
  let schema := match verifyObjects db with
    | .ok _ => []
    | .error _ => [⟨.schema, none, none, none⟩]
  let contextRows := sort (fun row ↦ row.contextId.key) t.contexts
  let contexts := contextRows.filterMap contextEntry
  let authorRows := sort (fun row ↦ toLex (row.contextId.key, row.authorId.key)) t.authorizedAuthors
  let authors := authorRows.filterMap authorEntry
  let eventRows := sort (fun row ↦ row.eventId.key) t.events
  let scanned ← mapEach (scanEvent B authors) eventRows
  let events := scanned.filterMap Prod.snd
  let edgeRows := sort (fun row ↦ toLex (row.childId.key, row.ordinal.key)) t.parentEdges
  let edges := edgeRows.filterMap edgeEntry
  let localRows := sort (fun row ↦ toLex (row.contextId.key, row.name.key)) t.localRefs
  let remoteRows :=
    sort (fun row ↦ toLex (row.peer.key, toLex (row.contextId.key, row.name.key))) t.remoteRefs
  let refs := localRows.map (scanLocalRef events) ++ remoteRows.map (scanRemoteRef events)
  let cycle := if graphHasCycle B events then [⟨.cycle, none, none, none⟩] else []
  let pushed := schema ++ contextRows.flatMap contextFindings ++
    authorRows.flatMap authorFindings ++
    contexts.flatMap (fun entry ↦ provisionFindings authors entry.1) ++
    scanned.flatMap Prod.fst ++ edgeRows.flatMap edgeRowFindings ++
    events.flatMap (edgeFindings events edges) ++
    (edges.map Prod.fst).dedup.flatMap (strayEdgeFindings events) ++
    contexts.flatMap (activeFindings events) ++ events.flatMap (rootFindings contexts) ++ cycle ++
    refs.flatMap Prod.fst ++
    (refs.filterMap Prod.snd).flatMap (projectionFindings B t limits.projection)
  let findings := pushed.foldl Findings.push
    ⟨limits.maxFindings, [], contextRows.any contextUnsafe⟩
  .ok {
    valid := findings.values = [] ∧ findings.truncated = false
    checkedContexts := contexts.length
    checkedEvents := eventRows.length
    checkedRefs := localRows.length + remoteRows.length
    findings := findings.values
    truncated := findings.truncated }

/-- Verifies the complete store in one read snapshot, without repair. -/
def verifyFull (db : Database) (limits : VerificationLimits) :
    Except StoreError VerificationReport := do
  let _ ← VerificationLimits.new limits.maxFindings limits.projection
  verifyOn B db limits

end Scan

end ContextMesh.Store
