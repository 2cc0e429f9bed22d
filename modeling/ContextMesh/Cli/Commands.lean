import ContextMesh.Cli.Documents
import ContextMesh.Client.Command
import ContextMesh.Client.Queries
import ContextMesh.Foundation.Embedding
import ContextMesh.Receipt.Dag
import ContextMesh.Receipt.Timestamp
import ContextMesh.Store.Verify
import ContextMesh.Sync.Pull

/-!
The commands of the command line. A command opens its store, reads its arguments, files and keys,
and does its work in calls of the store, each a transaction or a snapshot of its own; other
processes may write between any two of them. The first failure ends it with an error document.
-/

set_option autoImplicit false
set_option relaxedAutoImplicit false

namespace ContextMesh.Cli

open Checked Ordered Contract Store Sync Custody Receipt Interaction

/-! ### Actions -/

abbrev PathBuf := String

/-- One read of the store, in a snapshot of its own and with the limits of the command line. -/
inductive Inspection
  | event (id : EventId)
  | project (context : ContextId) (heads : List EventId)
  | listLocalRefs (context : ContextId)
  | listRemoteRefs (peer : PeerName) (context : ContextId)
  | syncLocalRefSnapshot (context : ContextId)
  | exportBundle (context : ContextId) (requested known : List EventId) (refs : List LocalRef)
  | verifyFull

/-- What a command asks of the machine. -/
inductive HostAsk
  | openStore (db : PathBuf)
  | loadKeyFile (file : PathBuf)
  | generateKeyFile (file : PathBuf)
  | generateTokenFile (file : PathBuf)
  | repairKeyFilePermissions (file : PathBuf)
  | readStdin
  | readFile (file : PathBuf)
  | writeFile (file : PathBuf) (contents : Bytes)
  | contextEntropy
  | unixTime
  | parseListen (listen : String)
  | bind (listen : String) (tokenFile : PathBuf) (acknowledged : Bool)
  | publish (readyFile : PathBuf) (address : String)
  | serveUntil
  | peerEndpoint (url : String) (acknowledged : Bool)
  | httpClient (tokenFile : PathBuf)

/-- The answer of the machine. Reading a file may find nothing, writing one may fail. -/
def HostAsk.Reply : HostAsk → Type
  | openStore _ => Except StoreError Unit
  | loadKeyFile _ => Except KeyFileError SigningIdentity
  | generateKeyFile _ => Except KeyFileError AuthorId
  | generateTokenFile _ | repairKeyFilePermissions _ => Except KeyFileError Unit
  | readStdin | readFile _ => Option Bytes
  | writeFile _ _ | publish _ _ | parseListen _ => Bool
  | contextEntropy => Option (Fixed 32)
  | unixTime => UInt64
  | bind _ _ _ => Except SyncError String
  | serveUntil | peerEndpoint _ _ | httpClient _ => Except SyncError Unit

/-- The program that an invocation runs. -/
structure CommandProvider where
  command : PathBuf
  args : List String

/-- One step of a command. Recordings, pulls and queries take theirs by themselves. -/
inductive CliAction
  | write (operation : Operation)
  | read (inspection : Inspection)
  | record (provider : CommandProvider) (action : Action ProviderAsk)
  | pull (url : String) (action : Action PeerRequest)
  | query (statement : Store.Read)
  | ask (question : HostAsk)

variable (B : Boundary)

def Inspection.Found : Inspection → Type
  | event _ => Option SignedEventV1
  | project _ _ => Projection
  | listLocalRefs _ | syncLocalRefSnapshot _ => List LocalRef
  | listRemoteRefs _ _ => List RemoteRef
  | exportBundle _ _ _ _ => BundleV1 B
  | verifyFull => VerificationReport

def CliAction.Answer : CliAction → Type
  | write operation => Except StoreError operation.Result
  | read inspection => Except StoreError (inspection.Found B)
  | record _ action => Action.Answer ProviderAsk.Reply action
  | pull _ action => Action.Answer PeerRequest.Reply action
  | query statement => statement.Answer
  | ask question => question.Reply

/-- A command, or a part of one. -/
abbrev Process (α : Type) := Fallible CliAction (CliAction.Answer B) CliError α

/-! ### Steps -/

section Steps

variable {B} {α : Type}

def ask (question : HostAsk) (check : question.Reply → Except CliError α) : Process B α :=
  Fallible.attempt (.ask question) check

def give (x : Except CliError α) : Process B α := Fallible.ofExcept x

variable (B)

def write (operation : Operation) : Process B operation.Result :=
  Fallible.attempt (.write operation) fun answer ↦ Except.mapError (storeError B) answer

def inspect (inspection : Inspection) : Process B (inspection.Found B) :=
  Fallible.attempt (.read inspection) fun answer ↦ Except.mapError (storeError B) answer

def openStore (db : PathBuf) : Process B Unit :=
  ask (.openStore db) fun answer ↦ Except.mapError (storeError B) answer

def loadIdentity (file : PathBuf) : Process B SigningIdentity :=
  ask (.loadKeyFile file) fun answer ↦ Except.mapError keyError answer

/-- Writes a file whole, or reports the field that names it. -/
def writeOut (field : String) (file : PathBuf) (contents : Bytes) : Process B Unit :=
  ask (.writeFile file contents) fun written : Bool ↦
    ensure (written = true) (usage (complaint field "unwritable"))

end Steps

/-! ### Arguments -/

def parseContext (text : String) : Except CliError ContextId :=
  (ContextId.parse B text).mapError fun _ ↦ validation (complaint "context" "invalid canonical id")

def parseEvent (field text : String) : Except CliError EventId :=
  (EventId.parse B text).mapError fun _ ↦ validation (complaint field "invalid canonical id")

def parseAuthor (text : String) : Except CliError AuthorId :=
  (AuthorId.parse B text).mapError fun _ ↦ validation (complaint "author" "invalid canonical id")

def parseBranch (text : String) : Except CliError LocalRefName :=
  (LocalRefName.parse text).mapError fun _ ↦
    validation (complaint "branch" "invalid canonical name")

def parsePeer (text : String) : Except CliError PeerName :=
  (PeerName.parse text).mapError fun _ ↦ validation (complaint "peer" "invalid name")

/-- Bytes that were read, within the limit of the command line. -/
def bounded (source unreadable : String) (bytes : Option Bytes) : Except CliError Bytes := do
  let buffer ← required bytes (usage (complaint source unreadable))
  ensure (buffer.length ≤ CLI_PAYLOAD_LIMIT) (validation (complaint source "over limit"))
  .ok buffer

def readBounded (source : String) (file : Option PathBuf) (stdin : Bool) : Process B Bytes :=
  if stdin then ask .readStdin (bounded source "stdin unreadable")
  else
    match file with
    | none => give (.error (usage (complaint source "input required")))
    | some path => ask (.readFile path) (bounded source "file unreadable")

def parsePayload (bytes : Bytes) : Except CliError Json :=
  required (fromSlice B bytes) (validation (complaint "payload" "invalid JSON"))

/-! ### Keys and contexts -/

def keyGenerate (file : PathBuf) : Process B Json := do
  let author ← ask (.generateKeyFile file) fun answer ↦ Except.mapError keyError answer
  give (.ok (.obj [("author", .str (AuthorId.text B author))]))

def keyRepairPermissions (file : PathBuf) : Process B Json := do
  ask (.repairKeyFilePermissions file) fun answer ↦ Except.mapError keyError answer
  give (.ok (.obj []))

def tokenGenerate (file : PathBuf) : Process B Json := do
  ask (.generateTokenFile file) fun answer ↦ Except.mapError keyError answer
  give (.ok (.obj []))

def contextCreate (db keyFile : PathBuf) (branch : String) : Process B Json := do
  openStore B db
  let identity ← loadIdentity B keyFile
  let name ← give (parseBranch branch)
  let entropy : Option (Fixed 32) ← ask .contextEntropy .ok
  let (context, _, ref) ← write B (.createContext identity name entropy)
  give (.ok (.obj [("branch", .str ref.name.asStr), ("context", .str (context.text B)),
    ("genesis", .str (ref.head.text B))]))

def contextJoin (db : PathBuf) (context expectedGenesis : String) (authors : List String) :
    Process B Json := do
  openStore B db
  let sorted := normalize id authors
  give (ensure (sorted.length = authors.length) (validation (complaint "author" "duplicate")))
  let authorizedAuthors ← give (mapEach (parseAuthor B) sorted)
  let context ← give (parseContext B context)
  let expectedGenesis ← give (parseEvent B "expected-genesis" expectedGenesis)
  write B (.joinContext ⟨context, expectedGenesis, authorizedAuthors⟩)
  give (.ok (.obj []))

def contextAuthorize (db : PathBuf) (context author : String) : Process B Json := do
  openStore B db
  let context ← give (parseContext B context)
  let author ← give (parseAuthor B author)
  let _ ← write B (.authorizeAuthor context author)
  give (.ok (.obj []))

/-! ### Events and branches -/

def eventResult (event : SignedEventV1) : Json := .obj [("event", .str (event.eventId.text B))]

def append (db keyFile : PathBuf) (context branch expectedHead kind : String)
    (payloadFile : Option PathBuf) (payloadStdin : Bool) : Process B Json := do
  openStore B db
  let identity ← loadIdentity B keyFile
  let bytes ← readBounded B "payload" payloadFile payloadStdin
  let payload ← give (parsePayload B bytes)
  let context ← give (parseContext B context)
  let branch ← give (parseBranch branch)
  let expected ← give (parseEvent B "expected-head" expectedHead)
  let event ← write B (.append identity context branch expected kind payload)
  give (.ok (eventResult B event))

def branchCreate (db : PathBuf) (context name fromHead : String) : Process B Json := do
  openStore B db
  let context ← give (parseContext B context)
  let branch ← give (parseBranch name)
  let head ← give (parseEvent B "from-head" fromHead)
  let ref ← write B (.createBranch context branch head)
  give (.ok (.obj [("branch", .str ref.name.asStr)]))

def merge (db keyFile : PathBuf) (context branch expectedHead : String) (parents : List String)
    (payloadFile : Option PathBuf) (payloadStdin : Bool) : Process B Json := do
  openStore B db
  let identity ← loadIdentity B keyFile
  let bytes ← readBounded B "payload" payloadFile payloadStdin
  let payload ← give (parsePayload B bytes)
  let parents ← give (mapEach (parseEvent B "parent") parents)
  let context ← give (parseContext B context)
  let branch ← give (parseBranch branch)
  let expected ← give (parseEvent B "expected-head" expectedHead)
  let event ← write B (.merge identity context branch expected parents payload)
  give (.ok (eventResult B event))

/-! ### Inspection -/

def showEvent (db : PathBuf) (id : String) : Process B Json := do
  openStore B db
  let id ← give (parseEvent B "id" id)
  let found : Option SignedEventV1 ← inspect B (.event id)
  let event ← give (required found (notFound (.obj [("subject", .str "event")])))
  give (.ok (.obj [("kind", .str event.body.kind), ("payload", event.body.payload)]))

/-- `{name: count}` -/
def countResult (name : String) (count : ℕ) : Json := .obj [(name, .num (.posInt count))]

def showProjection (db : PathBuf) (context : String) (heads : List String) : Process B Json := do
  openStore B db
  let heads ← give (mapEach (parseEvent B "head") heads)
  let context ← give (parseContext B context)
  let projection : Projection ← inspect B (.project context heads)
  give (.ok (countResult "events" projection.events.length))

def showRefs (db : PathBuf) (context : String) (peer : Option String) : Process B Json := do
  openStore B db
  let context ← give (parseContext B context)
  match peer with
  | some peer => do
    let peer ← give (parsePeer peer)
    let refs : List RemoteRef ← inspect B (.listRemoteRefs peer context)
    give (.ok (countResult "refs" refs.length))
  | none => do
    let refs : List LocalRef ← inspect B (.listLocalRefs context)
    give (.ok (countResult "refs" refs.length))

def invocationPending (db : PathBuf) (context branch : String) : Process B Json := do
  openStore B db
  let context ← give (parseContext B context)
  let branch ← give (parseBranch branch)
  let pending : List SignedEventV1 ← Fallible.part CliAction.query (fun _ answer ↦ answer)
    (storeError B) (pendingInvocations context branch)
  give (.ok (countResult "pending" pending.length))

def invocationDetached (db : PathBuf) (context branch : String) : Process B Json := do
  openStore B db
  let context ← give (parseContext B context)
  let branch ← give (parseBranch branch)
  let detached : List SignedEventV1 ← Fallible.part CliAction.query (fun _ answer ↦ answer)
    (storeError B) (detachedResults context branch)
  give (.ok (countResult "detached" detached.length))

def verify (db : PathBuf) : Process B Json := do
  openStore B db
  let report : VerificationReport ← inspect B .verifyFull
  give (ensure (report.valid = true) (internal (.obj [("valid", .bool false)])))
  give (.ok (.obj [("valid", .bool true)]))

/-! ### Transfer -/

def exportCommand (db : PathBuf) (context : String) (heads knownHeads : List String)
    (out : PathBuf) : Process B Json := do
  openStore B db
  let context ← give (parseContext B context)
  let requested ← give (mapEach (parseEvent B "head") heads)
  let known ← give (mapEach (parseEvent B "known-head") knownHeads)
  let refs : List LocalRef ← inspect B (.syncLocalRefSnapshot context)
  let bundle : BundleV1 B ← inspect B (.exportBundle context requested known refs)
  let wire ← give (bundle.toWire.mapError fun _ ↦ internal (.obj [("reason", .str "render")]))
  writeOut B "out" out wire
  give (.ok (.obj []))

def importCommand (db : PathBuf) (peer : String) (file : PathBuf) : Process B Json := do
  openStore B db
  let peer ← give (parsePeer peer)
  let wire ← ask (.readFile file) fun bytes ↦
    required bytes (usage (complaint "file" "unreadable"))
  let report : ImportReport ← write B (.importBundle peer wire .default)
  give (.ok (.obj [("already_present", .num (.posInt report.alreadyPresent)),
    ("inserted", .num (.posInt report.inserted))]))

def serve (db tokenFile : PathBuf) (listen : String) (readyFile : PathBuf) (acknowledged : Bool) :
    Process B Json := do
  openStore B db
  ask (.parseListen listen) fun valid : Bool ↦
    ensure (valid = true) (validation (complaint "listen" "invalid address"))
  let address ← ask (.bind listen tokenFile acknowledged) fun answer ↦
    Except.mapError syncError answer
  ask (.publish readyFile address) fun written : Bool ↦
    ensure (written = true) (usage (complaint "ready-file" "unwritable"))
  ask .serveUntil fun answer ↦ Except.mapError syncError answer
  give (.ok (.obj [("address", .str address)]))

def syncCommand (db : PathBuf) (peer url : String) (tokenFile : PathBuf) (context : String)
    (acknowledged : Bool) : Process B Json := do
  openStore B db
  let peer ← give (parsePeer peer)
  ask (.peerEndpoint url acknowledged) fun answer ↦ Except.mapError syncError answer
  let context ← give (parseContext B context)
  ask (.httpClient tokenFile) fun answer ↦ Except.mapError syncError answer
  let report : PullReport ← Fallible.part (CliAction.pull url) (fun _ answer ↦ answer) syncError
    (pull B ⟨peer, context, .default, .default⟩)
  give (.ok (.obj [("inserted", .num (.posInt report.inserted)),
    ("pages", .num (.posInt report.pages)),
    ("remote_refs_updated", .num (.posInt report.remoteRefsUpdated))]))

/-! ### Invocations -/

def OutcomeKind.name : OutcomeKind → String
  | .response => "response"
  | .recordedError => "error"

def invoke (db keyFile : PathBuf) (context branch expectedHead : String)
    (inputFile : Option PathBuf) (inputStdin : Bool) (provider : CommandProvider) :
    Process B Json := do
  openStore B db
  let identity ← loadIdentity B keyFile
  let bytes ← readBounded B "input" inputFile inputStdin
  let input ← give (parsePayload B bytes)
  let context ← give (parseContext B context)
  let branch ← give (parseBranch branch)
  let expectedHead ← give (parseEvent B "expected-head" expectedHead)
  let report : InvocationReport ← Fallible.part (CliAction.record provider) (fun _ answer ↦ answer)
    (providerError B) (recordInvocation B identity ⟨context, branch, expectedHead, input⟩)
  give (.ok (.obj [("invocation_id", .str report.invocationId),
    ("outcome", .str (OutcomeKind.name report.outcome)),
    ("request", .str (report.requestEventId.text B)),
    ("result", .str (report.resultEventId.text B))]))

/-! ### Receipts -/

def findingJson (finding : ReceiptDagFinding) : Json :=
  .obj [("event", .str (finding.event.text B)), ("reason", .str finding.reason)]

/-- What a looked-up event is for a receipt of the context. -/
def classify (context : ContextId) : Option SignedEventV1 → EventCheck
  | some event => if event.body.context = context then .present else .wrongContext
  | none => .missing

/-- Looks one reference up; the count and the findings are carried. -/
def noteReference (context : ContextId) (wrongContext missing : String)
    (noted : ℕ × List ReceiptDagFinding) (id : EventId) :
    Process B (ℕ × List ReceiptDagFinding) := do
  let found : Option SignedEventV1 ← inspect B (.event id)
  give (.ok (match classify context found with
    | .present => (noted.1 + 1, noted.2)
    | .wrongContext => (noted.1, noted.2 ++ [⟨wrongContext, id⟩])
    | .missing => (noted.1, noted.2 ++ [⟨missing, id⟩])))

def noteReferences (context : ContextId) (wrongContext missing : String)
    (noted : ℕ × List ReceiptDagFinding) : List EventId → Process B (ℕ × List ReceiptDagFinding)
  | [] => give (.ok noted)
  | id :: rest => do
    let noted ← noteReference B context wrongContext missing noted id
    noteReferences context wrongContext missing noted rest

/-- Verifies the references of a receipt, each in a read of its own. -/
def verifyReferences (receipt : SignedReceiptV1) : Process B ReceiptDagReport := do
  let noted ← noteReferences B receipt.body.context "wrong-context" "missing" (0, [])
    receipt.body.events
  let (checked, findings) ← noteReference B receipt.body.context "recipient-wrong-context"
    "recipient-missing" noted receipt.body.recipient.head
  give (.ok ⟨findings.isEmpty, checked, findings⟩)

/-- The receipt in the result of a command. -/
def receiptJson (receipt : SignedReceiptV1) : Json :=
  .obj [("author", .str (receipt.body.author.text B)),
    ("context", .str (receipt.body.context.text B)),
    ("created_at", .str receipt.body.createdAt),
    ("events", .num (.posInt receipt.body.events.length)),
    ("receipt_id", .str (receipt.receiptId.text B)),
    ("recipient_head", .str (receipt.body.recipient.head.text B)),
    ("selector", .str receipt.body.selector.identity),
    ("selector_version", .str receipt.body.selector.version),
    ("task_hash", .str receipt.body.task.contentHash)]

/-- The text of UTF-8 bytes. -/
def fromUtf8 (bytes : Bytes) : Option String := String.fromUTF8? ⟨bytes.toArray⟩

/-- The task: the bytes of a file after `@`, of the standard input for `-`, or of the text. -/
def readTask (task : String) : Process B Bytes :=
  match task.toList with
  | '@' :: path => ask (.readFile (String.ofList path)) (bounded "task" "file unreadable")
  | ['-'] => ask .readStdin (bounded "task" "stdin unreadable")
  | _ => give (.ok (asBytes task))

/-- The distinct cited events in their order. -/
def parseCited (events : List String) : Except CliError (List EventId) := do
  let parsed ← mapEach (parseEvent B "event") events
  let sorted := normalize (EventId.text B) parsed
  ensure (sorted.length = events.length) (validation (complaint "event" "duplicate"))
  .ok sorted

/-- The failure of a receipt whose references the store does not hold. -/
def unheldReceipt (findings : List ReceiptDagFinding) : CliError :=
  conflict (.obj [("findings", .arr (findings.map (findingJson B))), ("subject", .str "receipt")])

variable (blake3 : Bytes → Fixed 32)

def receiptIssue (db keyFile : PathBuf) (context : String) (events : List String)
    (task recipientHead selector selectorVersion configHash : String) (out : PathBuf) :
    Process B Json := do
  openStore B db
  let identity ← loadIdentity B keyFile
  let context ← give (parseContext B context)
  let events ← give (parseCited B events)
  let taskBytes ← readTask B task
  let verbatim ← give (required (fromUtf8 taskBytes)
    (validation (complaint "task" "invalid UTF-8")))
  let task ← give ((TaskRecordV1.fromVerbatim B blake3 verbatim none).mapError fun _ ↦
    validation (complaint "task" "invalid"))
  let selector ← give ((SelectorRecordV1.new selector selectorVersion configHash).mapError fun _ ↦
    validation (complaint "selector" "invalid"))
  let head ← give (parseEvent B "recipient-head" recipientHead)
  let seconds : UInt64 ← ask .unixTime .ok
  -- the date arithmetic does not overflow
  let body ← give ((ReceiptBodyV1.new B context events task ⟨head⟩ selector [] []
    ((utcTimestamp seconds).getD "") (identity.author B)).mapError fun _ ↦
      validation (complaint "receipt" "invalid"))
  let receipt ← give ((SignedReceiptV1.issue B identity body).mapError fun _ ↦
    validation (complaint "receipt" "cannot sign"))
  let report ← verifyReferences B receipt
  give (ensure (report.valid = true) (unheldReceipt B report.findings))
  let wire ← give ((receipt.toWire B).mapError fun _ ↦
    internal (.obj [("reason", .str "render")]))
  writeOut B "out" out wire
  give (.ok (receiptJson B receipt))

def receiptVerify (db file : PathBuf) : Process B Json := do
  openStore B db
  let wire ← ask (.readFile file) fun bytes ↦
    required bytes (usage (complaint "file" "unreadable"))
  let receipt ← give ((SignedReceiptV1.fromWire B wire).mapError fun _ ↦
    validation (complaint "receipt" "invalid or tampered"))
  let report ← verifyReferences B receipt
  give (ensure (report.valid = true) (internal (.obj
    [("findings", .arr (report.findings.map (findingJson B))), ("valid", .bool false)])))
  give (.ok (.obj [("checked_events", .num (.posInt report.checkedEvents)),
    ("receipt_id", .str (receipt.receiptId.text B)), ("valid", .bool true)]))

/-! ### The command line -/

inductive Commands
  | keyGenerate (file : PathBuf)
  | keyRepairPermissions (file : PathBuf)
  | tokenGenerate (file : PathBuf)
  | contextCreate (db keyFile : PathBuf) (branch : String)
  | contextJoin (db : PathBuf) (context expectedGenesis : String) (authors : List String)
  | contextAuthorize (db : PathBuf) (context author : String)
  | append (db keyFile : PathBuf) (context branch expectedHead kind : String)
      (payloadFile : Option PathBuf) (payloadStdin : Bool)
  | branchCreate (db : PathBuf) (context name fromHead : String)
  | merge (db keyFile : PathBuf) (context branch expectedHead : String) (parents : List String)
      (payloadFile : Option PathBuf) (payloadStdin : Bool)
  | showEvent (db : PathBuf) (id : String)
  | showProjection (db : PathBuf) (context : String) (heads : List String)
  | showRefs (db : PathBuf) (context : String) (peer : Option String)
  | bundleExport (db : PathBuf) (context : String) (heads knownHeads : List String) (out : PathBuf)
  | bundleImport (db : PathBuf) (peer : String) (file : PathBuf)
  | invocationPending (db : PathBuf) (context branch : String)
  | invocationDetached (db : PathBuf) (context branch : String)
  | verify (db : PathBuf)
  | invoke (db keyFile : PathBuf) (context branch expectedHead : String)
      (inputFile : Option PathBuf) (inputStdin : Bool) (provider : CommandProvider)
  | serve (db tokenFile : PathBuf) (listen : String) (readyFile : PathBuf) (acknowledged : Bool)
  | sync (db : PathBuf) (peer url : String) (tokenFile : PathBuf) (context : String)
      (acknowledged : Bool)
  | receiptIssue (db keyFile : PathBuf) (context : String) (events : List String)
      (task recipientHead selector selectorVersion configHash : String) (out : PathBuf)
  | receiptVerify (db file : PathBuf)

def commandName : Commands → String
  | .keyGenerate _ => "key generate"
  | .keyRepairPermissions _ => "key repair-permissions"
  | .tokenGenerate _ => "token generate"
  | .contextCreate _ _ _ => "context create"
  | .contextJoin _ _ _ _ => "context join"
  | .contextAuthorize _ _ _ => "context authorize"
  | .append .. => "append"
  | .branchCreate .. => "branch create"
  | .merge .. => "merge"
  | .showEvent _ _ => "show event"
  | .showProjection _ _ _ => "show projection"
  | .showRefs _ _ _ => "show refs"
  | .bundleExport .. => "bundle export"
  | .bundleImport _ _ _ => "bundle import"
  | .invocationPending _ _ _ => "invocation pending"
  | .invocationDetached _ _ _ => "invocation detached"
  | .verify _ => "verify"
  | .invoke .. => "invoke"
  | .serve .. => "serve"
  | .sync .. => "sync"
  | .receiptIssue .. => "ob-receipt issue"
  | .receiptVerify _ _ => "ob-receipt verify"

def dispatch : Commands → Process B Json
  | .keyGenerate file => keyGenerate B file
  | .keyRepairPermissions file => keyRepairPermissions B file
  | .tokenGenerate file => tokenGenerate B file
  | .contextCreate db keyFile branch => contextCreate B db keyFile branch
  | .contextJoin db context expectedGenesis authors =>
    contextJoin B db context expectedGenesis authors
  | .contextAuthorize db context author => contextAuthorize B db context author
  | .append db keyFile context branch expectedHead kind payloadFile payloadStdin =>
    append B db keyFile context branch expectedHead kind payloadFile payloadStdin
  | .branchCreate db context name fromHead => branchCreate B db context name fromHead
  | .merge db keyFile context branch expectedHead parents payloadFile payloadStdin =>
    merge B db keyFile context branch expectedHead parents payloadFile payloadStdin
  | .showEvent db id => showEvent B db id
  | .showProjection db context heads => showProjection B db context heads
  | .showRefs db context peer => showRefs B db context peer
  | .bundleExport db context heads knownHeads out =>
    exportCommand B db context heads knownHeads out
  | .bundleImport db peer file => importCommand B db peer file
  | .invocationPending db context branch => invocationPending B db context branch
  | .invocationDetached db context branch => invocationDetached B db context branch
  | .verify db => verify B db
  | .invoke db keyFile context branch expectedHead inputFile inputStdin provider =>
    invoke B db keyFile context branch expectedHead inputFile inputStdin provider
  | .serve db tokenFile listen readyFile acknowledged =>
    serve B db tokenFile listen readyFile acknowledged
  | .sync db peer url tokenFile context acknowledged =>
    syncCommand B db peer url tokenFile context acknowledged
  | .receiptIssue db keyFile context events task recipientHead selector selectorVersion configHash
      out => receiptIssue B blake3 db keyFile context events task recipientHead selector
        selectorVersion configHash out
  | .receiptVerify db file => receiptVerify B db file

/-- What a process with the command prints and how it exits. -/
def Commands.report (command : Commands) : Except CliError Json → Report
  | .ok result => ⟨emitSuccess B (commandName command) result, 0⟩
  | .error error => ⟨emitFailure B error.code error.details, error.exit⟩

/-- Runs the command line; arguments that do not parse are a usage error. -/
def run : Option Commands → Program CliAction (CliAction.Answer B) Report
  | none => .done ⟨emitFailure B "usage" (.obj [("reason", .str "clap")]), 2⟩
  | some command => (dispatch B blake3 command).run.bind fun result ↦
      .done (command.report B result)

end ContextMesh.Cli
