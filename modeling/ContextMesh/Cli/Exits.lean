import ContextMesh.Cli.Stations
import ContextMesh.Codec.Reading
import ContextMesh.Ledger.Runs

/-!
What an exit says. A process that exits with success has committed exactly what its arguments, its
files, its key and the answers of its provider or its peer name, and nothing when its command only
reads. A process that exits with an error has committed nothing, as much of its recording or its
pull as it came to, or one call of which the database left it in doubt.
-/

set_option autoImplicit false
set_option relaxedAutoImplicit false

namespace ContextMesh.Cli

open Checked Ordered Contract Store Sync Custody Receipt Interaction

section Commits

variable (B : Boundary) (host : Host) (start : Tables)

/-! ### What a command is to commit -/

/-- The key file held the identity. -/
def Loaded (keyFile : PathBuf) (identity : SigningIdentity) : Prop :=
  host.answers (.loadKeyFile keyFile) (.ok identity : Except KeyFileError SigningIdentity)

/-- The bytes came from the standard input, or else from the file. -/
def Given (file : Option PathBuf) (stdin : Bool) (bytes : Bytes) : Prop :=
  if stdin then host.answers .readStdin (some bytes : Option Bytes)
  else ∃ path, file = some path ∧ host.answers (.readFile path) (some bytes : Option Bytes)

section Recordings

variable (provides : (question : ProviderAsk) → question.Reply → Prop)
  (identity : SigningIdentity) (request : InvocationRequest)

/-- The signed question of an invocation: its input, under a name made of random bytes. -/
structure Asked (invocationId : String) (asked : SignedEventV1) : Prop where
  named : ∃ bytes : Fixed 16, provides .entropy (some bytes : Option (Fixed 16)) ∧
    invocationId = "inv1_" ++ B.encode64 bytes.1
  created : identity.createEvent B request.context [request.expectedHead] "agent.request"
    (.obj [("input", request.input), ("invocation_id", .str invocationId),
      ("selected_head", .str (request.expectedHead.text B))]) = .ok asked

/-- The signed answer to a question: what the provider, told the question and the ancestry of its
head in a store of the run, has replied. -/
def Answered (invocationId : String) (asked : SignedEventV1) (kind : OutcomeKind)
    (answered : SignedEventV1) : Prop :=
  ∃ (t : Tables) (projection : Projection) (outcome : ProviderOutcome) (payload : Json),
    Run B start t ∧
    project B t request.context [request.expectedHead] .default = .ok projection ∧
    provides (.invoke ⟨request.context, request.expectedHead, projection.events, asked.eventId,
      invocationId, request.input⟩) outcome ∧
    resultPayload B invocationId outcome = .ok (kind, payload) ∧
    identity.createEvent B request.context [asked.eventId] kind.eventKind payload = .ok answered

/-- The question of an invocation, as it is submitted. -/
def questionOf (asked : SignedEventV1) : Operation :=
  .admitEvent asked (.compareAndSwap request.context request.branch (.head request.expectedHead)
    asked.eventId)

/-- The answer to a question, as it is submitted on the branch. -/
def answerOn (asked answered : SignedEventV1) : Operation :=
  .admitEvent answered (.compareAndSwap request.context request.branch (.head asked.eventId)
    answered.eventId)

/-- What a recording has committed when it ends: the question and its answer, or as much of them as
it came to. An answer that missed its branch is kept beside it. -/
def Records : Except ProviderError InvocationReport → List Operation → Prop
  | .ok report, commits => ∃ asked answered,
    Asked B provides identity request report.invocationId asked ∧
      Answered B start provides identity request report.invocationId asked report.outcome answered ∧
      report.requestEventId = asked.eventId ∧ report.resultEventId = answered.eventId ∧
      commits = [questionOf request asked, answerOn request asked answered]
  | .error failure, commits => commits = [] ∨ ∃ invocationId asked,
    Asked B provides identity request invocationId asked ∧
      (commits = [questionOf request asked] ∨ ∃ kind answered,
        Answered B start provides identity request invocationId asked kind answered ∧
          (commits = [questionOf request asked, answerOn request asked answered] ∧
              failure = .store .indeterminateCommit ∨
            commits = [questionOf request asked, .admitEvent answered .none] ∧
              (failure = .store .indeterminateCommit ∨
                ∃ current, failure = .postExecutionConflict answered.eventId current)))

end Recordings

section Pulls

variable (relays : (question : PeerRequest) → question.Reply → Prop) (config : PullClientConfig)

/-- The import of the page that the peer has answered to the question with the cursor of the state;
the page leads to the next cursor, or is the last one. -/
def ImportsPage (requestedHeads knownHeads : List EventId) (expectedHeads : String)
    (state : PullState) (operation : Operation) (next : Option (ℕ × Fixed 32 × String)) : Prop :=
  ∃ (request : ExportRequest) (question body wire : Bytes) (response : ExportResponse B)
    (limits : BundleLimits),
    ExportRequest.new B config.context requestedHeads knownHeads state.cursor config.limits =
      .ok request ∧
    request.toWire B = .ok question ∧ relays (.postExport question) (.ok body) ∧
    ExportResponse.fromWire B body = .ok response ∧
    checkPage B config expectedHeads state response = .ok next ∧
    response.bundle.toWire = .ok wire ∧
    BundleLimits.new config.limits.maxEvents config.limits.maxBundleBytes MAX_BUNDLE_REFS =
      .ok limits ∧
    operation = .importBundle config.peer wire limits

/-- Imports of pages from a state on, each page at the cursor that the one before it has led to. The
flag says that the last one is among them. -/
inductive Imports (requestedHeads knownHeads : List EventId) (expectedHeads : String) :
    PullState → List Operation → Bool → Prop
  | none (state : PullState) : Imports requestedHeads knownHeads expectedHeads state [] false
  | last {state : PullState} {operation : Operation}
      (page : ImportsPage B relays config requestedHeads knownHeads expectedHeads state operation
        none) :
      Imports requestedHeads knownHeads expectedHeads state [operation] true
  | next {state : PullState} {operation : Operation} {nextOffset : ℕ} {fingerprint : Fixed 32}
      {nextCursor : String} {report : PullReport} {operations : List Operation} {ended : Bool}
      (page : ImportsPage B relays config requestedHeads knownHeads expectedHeads state operation
        (some (nextOffset, fingerprint, nextCursor)))
      (rest : Imports requestedHeads knownHeads expectedHeads
        ⟨report, some nextCursor, nextOffset, some fingerprint⟩ operations ended) :
      Imports requestedHeads knownHeads expectedHeads state (operation :: operations) ended

/-- What a pull starts from: the refs that the peer has advertised, and the heads that stores of the
run had. -/
structure Opens (snapshot : RefSnapshot) (knownHeads : List EventId) : Prop where
  advertised : ∃ body, relays (.getRefs config.context) (.ok body) ∧
    RefSnapshot.fromWire B body = .ok snapshot
  context : snapshot.context = config.context
  known : ∃ t t' «local» remote, Run B start t ∧ Run B start t' ∧
    listLocalRefs B t config.context = .ok «local» ∧
    listRemoteRefs B t' config.peer config.context = .ok remote ∧
    knownHeads = normalize (EventId.text B) («local».map LocalRef.head ++ remote.map RemoteRef.head)

/-- Imports of the pages of the advertised heads. -/
def ImportsHeads (snapshot : RefSnapshot) (knownHeads : List EventId) (imports : List Operation)
    (ended : Bool) : Prop :=
  ∃ expectedHeads, requestedHeadFingerprint B config.context
      (normalize (EventId.text B) (snapshot.refs.map AdvertisedRef.head)) = .ok expectedHeads ∧
    Imports B relays config (normalize (EventId.text B) (snapshot.refs.map AdvertisedRef.head))
      knownHeads expectedHeads .start imports ended

/-- All pages of the advertised heads, if there are any, and at the end the advertised refs. -/
def Pulls (commits : List Operation) : Prop :=
  ∃ (snapshot : RefSnapshot) (knownHeads : List EventId) (imports : List Operation),
    Opens B start relays config snapshot knownHeads ∧
    (snapshot.refs = [] ∧ imports = [] ∨
      ImportsHeads B relays config snapshot knownHeads imports true) ∧
    commits = imports ++ [.replaceRemoteRefSnapshot config.peer config.context snapshot.refs]

/-- What a pull has committed when it ends. -/
def Pulled : Except SyncError PullReport → List Operation → Prop
  | .ok _, commits => Pulls B start relays config commits
  | .error failure, commits => commits = [] ∨
    (∃ (snapshot : RefSnapshot) (knownHeads : List EventId) (ended : Bool),
      Opens B start relays config snapshot knownHeads ∧
        ImportsHeads B relays config snapshot knownHeads commits ended) ∨
    Pulls B start relays config commits ∧ failure = .store .indeterminateCommit

end Pulls

/-- The identity and the request that the arguments of an invocation name. -/
structure Requests (keyFile : PathBuf) (context branch expectedHead : String)
    (inputFile : Option PathBuf) (inputStdin : Bool) (identity : SigningIdentity)
    (request : InvocationRequest) : Prop where
  identity : Loaded host keyFile identity
  input : ∃ bytes, Given host inputFile inputStdin bytes ∧ parsePayload B bytes = .ok request.input
  context : parseContext B context = .ok request.context
  branch : parseBranch branch = .ok request.branch
  expectedHead : parseEvent B "expected-head" expectedHead = .ok request.expectedHead

/-- What a command that succeeds has committed. -/
def Commands.Commits : Commands → List Operation → Prop
  | .contextCreate _ keyFile branch, commits => ∃ identity name entropy,
    Loaded host keyFile identity ∧ parseBranch branch = .ok name ∧
      host.answers .contextEntropy (entropy : Option (Fixed 32)) ∧
      commits = [.createContext identity name entropy]
  | .contextJoin _ context expectedGenesis authors, commits => ∃ provision : ContextProvision,
    mapEach (parseAuthor B) (normalize id authors) = .ok provision.authorizedAuthors ∧
      parseContext B context = .ok provision.context ∧
      parseEvent B "expected-genesis" expectedGenesis = .ok provision.expectedGenesis ∧
      commits = [.joinContext provision]
  | .contextAuthorize _ context author, commits => ∃ id author',
    parseContext B context = .ok id ∧ parseAuthor B author = .ok author' ∧
      commits = [.authorizeAuthor id author']
  | .append _ keyFile context branch expectedHead kind payloadFile payloadStdin, commits =>
    ∃ identity bytes payload id name expected, Loaded host keyFile identity ∧
      Given host payloadFile payloadStdin bytes ∧ parsePayload B bytes = .ok payload ∧
      parseContext B context = .ok id ∧ parseBranch branch = .ok name ∧
      parseEvent B "expected-head" expectedHead = .ok expected ∧
      commits = [.append identity id name expected kind payload]
  | .branchCreate _ context name fromHead, commits => ∃ id branch head,
    parseContext B context = .ok id ∧ parseBranch name = .ok branch ∧
      parseEvent B "from-head" fromHead = .ok head ∧ commits = [.createBranch id branch head]
  | .merge _ keyFile context branch expectedHead parents payloadFile payloadStdin, commits =>
    ∃ identity bytes payload parents' id name expected, Loaded host keyFile identity ∧
      Given host payloadFile payloadStdin bytes ∧ parsePayload B bytes = .ok payload ∧
      mapEach (parseEvent B "parent") parents = .ok parents' ∧
      parseContext B context = .ok id ∧ parseBranch branch = .ok name ∧
      parseEvent B "expected-head" expectedHead = .ok expected ∧
      commits = [.merge identity id name expected parents' payload]
  | .bundleImport _ peer file, commits => ∃ name wire, parsePeer peer = .ok name ∧
    host.answers (.readFile file) (some wire : Option Bytes) ∧
      commits = [.importBundle name wire .default]
  | .invoke _ keyFile context branch expectedHead inputFile inputStdin provider, commits =>
    ∃ identity request report,
      Requests B host keyFile context branch expectedHead inputFile inputStdin identity request ∧
        Records B start (host.provides provider) identity request (.ok report) commits
  | .sync _ peer url _ context _, commits => ∃ name id, parsePeer peer = .ok name ∧
    parseContext B context = .ok id ∧
      Pulls B start (host.relays url) ⟨name, id, .default, .default⟩ commits
  | _, commits => commits = []

/-- What a command that fails may have committed. Invocations and pulls commit as they go. -/
def Commands.Leaves : Commands → CliError → List Operation → Prop
  | .invoke _ keyFile context branch expectedHead inputFile inputStdin provider, error, commits =>
    commits = [] ∨ ∃ identity request failure,
      Requests B host keyFile context branch expectedHead inputFile inputStdin identity request ∧
        error = providerError B failure ∧
        Records B start (host.provides provider) identity request (.error failure) commits
  | .sync _ peer url _ context _, error, commits => commits = [] ∨
    ∃ name id failure, parsePeer peer = .ok name ∧ parseContext B context = .ok id ∧
      error = syncError failure ∧
        Pulled B start (host.relays url) ⟨name, id, .default, .default⟩ (.error failure) commits
  | command, error, commits => commits = [] ∨
    command.Commits B host start commits ∧ error = storeError B .indeterminateCommit

/-- How a command ends. -/
def Commands.Ends (command : Commands) : Except CliError Json → List Operation → Prop
  | .ok _, commits => command.Commits B host start commits
  | .error error, commits => error.Proper ∧ command.Leaves B host start error commits

/-- How a command ends that makes one call at most, and whose success means the commits. -/
def Settled (intends : List Operation → Prop) : Except CliError Json → List Operation → Prop
  | .ok _, commits => intends commits
  | .error error, commits => error.Proper ∧
    (commits = [] ∨ intends commits ∧ error = storeError B .indeterminateCommit)

end Commits

variable {B : Boundary} {host : Host} {start : Tables} {α : Type}
  {intends : List Operation → Prop} {pre : List Operation}
  {post : Except CliError α → List Operation → Prop}

theorem settled_refused (error : CliError) (h : error.Proper) :
    Settled B intends (.error error) [] := ⟨h, Or.inl rfl⟩

/-! ### Parts of commands -/

theorem spec_openStore {post : Except CliError Unit → List Operation → Prop} {db : PathBuf}
    (hfail : ∀ error : CliError, error.Proper → post (.error error) pre)
    (h : post (.ok ()) pre) : Spec B host start pre (openStore B db) post :=
  .ask (fun _ ↦ refuses_mapError proper_storeError) hfail fun _ _ _ _ ↦ h

theorem spec_loadIdentity {post : Except CliError SigningIdentity → List Operation → Prop}
    {keyFile : PathBuf} (hfail : ∀ error : CliError, error.Proper → post (.error error) pre)
    (h : ∀ identity, Loaded host keyFile identity → post (.ok identity) pre) :
    Spec B host start pre (loadIdentity B keyFile) post := by
  refine .ask (fun _ ↦ refuses_mapError proper_keyError) hfail fun answer identity hhost hok ↦ ?_
  obtain rfl := mapError_eq_ok.mp hok
  exact h identity hhost

theorem bounded_eq_ok {source unreadable : String} {answer : Option Bytes} {bytes : Bytes}
    (h : bounded source unreadable answer = .ok bytes) : answer = some bytes := by
  obtain ⟨buffer, hbuffer, hrest⟩ := bind_eq_ok.mp h
  obtain ⟨_, -, hsame⟩ := bind_eq_ok.mp hrest
  rw [required_eq_ok.mp hbuffer, Except.ok.inj hsame]

theorem spec_readBounded {post : Except CliError Bytes → List Operation → Prop} {source : String}
    {file : Option PathBuf} {stdin : Bool}
    (hfail : ∀ error : CliError, error.Proper → post (.error error) pre)
    (h : ∀ bytes, Given host file stdin bytes → post (.ok bytes) pre) :
    Spec B host start pre (readBounded B source file stdin) post := by
  cases stdin with
  | true =>
    refine .ask (fun _ ↦ refuses_bounded _ _ _) hfail fun answer bytes hhost hok ↦ h bytes ?_
    rw [bounded_eq_ok hok] at hhost
    exact hhost
  | false =>
    cases file with
    | none => exact .result (hfail _ (proper_of (by decide)))
    | some path =>
      refine .ask (fun _ ↦ refuses_bounded _ _ _) hfail fun answer bytes hhost hok ↦ h bytes ?_
      rw [bounded_eq_ok hok] at hhost
      exact ⟨path, rfl, hhost⟩

/-- A command that signs a document first opens its store, loads its key and reads the document. -/
theorem spec_signing {db keyFile : PathBuf} {source : String} {file : Option PathBuf} {stdin : Bool}
    {f : SigningIdentity → Json → Process B Json}
    {post : Except CliError Json → List Operation → Prop}
    (hfail : ∀ error : CliError, error.Proper → post (.error error) pre)
    (h : ∀ identity bytes document, Loaded host keyFile identity → Given host file stdin bytes →
      parsePayload B bytes = .ok document → Spec B host start pre (f identity document) post) :
    Spec B host start pre (do
      openStore B db
      let identity ← loadIdentity B keyFile
      let bytes ← readBounded B source file stdin
      let document ← give (parsePayload B bytes)
      f identity document) post := by
  refine .bind (spec_openStore hfail ?_)
  refine .bind (spec_loadIdentity hfail fun identity hidentity ↦ ?_)
  refine .bind (spec_readBounded hfail fun bytes hbytes ↦ ?_)
  exact .bind (.give (refuses_parsePayload _) hfail fun document hdocument ↦
    h identity bytes document hidentity hbytes hdocument)

theorem spec_noteReference {context : ContextId} {wrongContext missing : String}
    {noted : ℕ × List ReceiptDagFinding} {id : EventId}
    {post : Except CliError (ℕ × List ReceiptDagFinding) → List Operation → Prop}
    (hfail : ∀ error : CliError, error.Proper → post (.error error) pre)
    (h : ∀ noted, post (.ok noted) pre) :
    Spec B host start pre (noteReference B context wrongContext missing noted id) post :=
  .bind (.inspect hfail fun _ _ _ _ ↦ .result (h _))

theorem spec_noteReferences {context : ContextId} {wrongContext missing : String}
    {noted : ℕ × List ReceiptDagFinding}
    {post : Except CliError (ℕ × List ReceiptDagFinding) → List Operation → Prop}
    (hfail : ∀ error : CliError, error.Proper → post (.error error) pre)
    (h : ∀ noted, post (.ok noted) pre) (ids : List EventId) :
    Spec B host start pre (noteReferences B context wrongContext missing noted ids) post := by
  induction ids generalizing noted with
  | nil => exact .result (h noted)
  | cons id rest ih => exact .bind (spec_noteReference hfail fun _ ↦ ih)

theorem spec_verifyReferences {receipt : SignedReceiptV1}
    {post : Except CliError ReceiptDagReport → List Operation → Prop}
    (hfail : ∀ error : CliError, error.Proper → post (.error error) pre)
    (h : ∀ report, post (.ok report) pre) :
    Spec B host start pre (verifyReferences B receipt) post :=
  .bind (spec_noteReferences hfail (fun _ ↦ .bind (spec_noteReference hfail fun _ ↦
    .result (h _))) _)

theorem spec_readTask {task : String} {post : Except CliError Bytes → List Operation → Prop}
    (hfail : ∀ error : CliError, error.Proper → post (.error error) pre)
    (h : ∀ bytes, post (.ok bytes) pre) : Spec B host start pre (readTask B task) post := by
  unfold readTask
  split
  · exact .ask (fun _ ↦ refuses_bounded _ _ _) hfail fun _ bytes _ _ ↦ h bytes
  · exact .ask (fun _ ↦ refuses_bounded _ _ _) hfail fun _ bytes _ _ ↦ h bytes
  · exact .result (h _)

/-! ### Commands -/

/-- A command of one question about a secret file. -/
theorem spec_secretFile {β : Type} {question : HostAsk} {answers : question.Reply →
    Except KeyFileError β} {result : β → Json} :
    Spec B host start [] (ask question (fun answer ↦ (answers answer).mapError keyError) >>=
      fun value ↦ give (.ok (result value))) (Settled B (· = [])) :=
  .bind (.ask (fun _ ↦ refuses_mapError proper_keyError) settled_refused fun _ _ _ _ ↦ .result rfl)

theorem spec_keyGenerate (file : PathBuf) :
    Spec B host start [] (keyGenerate B file) (Settled B (· = [])) := spec_secretFile

theorem spec_keyRepairPermissions (file : PathBuf) :
    Spec B host start [] (keyRepairPermissions B file) (Settled B (· = [])) := spec_secretFile

theorem spec_tokenGenerate (file : PathBuf) :
    Spec B host start [] (tokenGenerate B file) (Settled B (· = [])) := spec_secretFile

/-- The call of a command, and what is left to print. -/
theorem spec_call {operation : Operation} {f : operation.Result → Process B Json}
    (hintends : intends [operation])
    (h : ∀ result, Spec B host start [operation] (f result) (Settled B intends)) :
    Spec B host start [] (write B operation >>= f) (Settled B intends) :=
  .bind (.write settled_refused ⟨proper_storeError _, Or.inr ⟨hintends, rfl⟩⟩ h)

theorem spec_contextCreate (db keyFile : PathBuf) (branch : String) :
    Spec B host start [] (contextCreate B db keyFile branch)
      (Settled B ((Commands.contextCreate db keyFile branch).Commits B host start)) := by
  refine .bind (spec_openStore settled_refused ?_)
  refine .bind (spec_loadIdentity settled_refused fun identity hidentity ↦ ?_)
  refine .bind (.give (refuses_parseBranch _) settled_refused fun name hname ↦ ?_)
  refine .bind (.ask (fun _ ↦ refuses_ok _) settled_refused fun entropy value hentropy hvalue ↦ ?_)
  obtain rfl := Except.ok.inj hvalue
  refine spec_call ⟨identity, name, entropy, hidentity, hname, hentropy, rfl⟩ ?_
  rintro ⟨context, genesis, ref⟩
  exact .result ⟨identity, name, entropy, hidentity, hname, hentropy, rfl⟩

theorem spec_contextJoin (db : PathBuf) (context expectedGenesis : String) (authors : List String) :
    Spec B host start [] (contextJoin B db context expectedGenesis authors)
      (Settled B
        ((Commands.contextJoin db context expectedGenesis authors).Commits B host start)) := by
  refine .bind (spec_openStore settled_refused ?_)
  refine .bind (.give (refuses_ensure (proper_of (by decide))) settled_refused fun _ _ ↦ ?_)
  refine .bind (.give (refuses_mapEach refuses_parseAuthor _) settled_refused
    fun allowed hallowed ↦ ?_)
  refine .bind (.give (refuses_parseContext _) settled_refused fun id hid ↦ ?_)
  refine .bind (.give (refuses_parseEvent _ _) settled_refused fun genesis hgenesis ↦ ?_)
  exact spec_call ⟨⟨id, genesis, allowed⟩, hallowed, hid, hgenesis, rfl⟩ fun _ ↦
    .result ⟨⟨id, genesis, allowed⟩, hallowed, hid, hgenesis, rfl⟩

theorem spec_contextAuthorize (db : PathBuf) (context author : String) :
    Spec B host start [] (contextAuthorize B db context author)
      (Settled B ((Commands.contextAuthorize db context author).Commits B host start)) := by
  refine .bind (spec_openStore settled_refused ?_)
  refine .bind (.give (refuses_parseContext _) settled_refused fun id hid ↦ ?_)
  refine .bind (.give (refuses_parseAuthor _) settled_refused fun allowed hallowed ↦ ?_)
  exact spec_call ⟨id, allowed, hid, hallowed, rfl⟩ fun _ ↦
    .result ⟨id, allowed, hid, hallowed, rfl⟩

theorem spec_append (db keyFile : PathBuf) (context branch expectedHead kind : String)
    (payloadFile : Option PathBuf) (payloadStdin : Bool) :
    Spec B host start []
      (append B db keyFile context branch expectedHead kind payloadFile payloadStdin)
      (Settled B ((Commands.append db keyFile context branch expectedHead kind payloadFile
        payloadStdin).Commits B host start)) := by
  refine spec_signing settled_refused fun identity bytes payload hidentity hbytes hpayload ↦ ?_
  refine .bind (.give (refuses_parseContext _) settled_refused fun id hid ↦ ?_)
  refine .bind (.give (refuses_parseBranch _) settled_refused fun name hname ↦ ?_)
  refine .bind (.give (refuses_parseEvent _ _) settled_refused fun expected hexpected ↦ ?_)
  have hintends : (Commands.append db keyFile context branch expectedHead kind payloadFile
      payloadStdin).Commits B host start [.append identity id name expected kind payload] :=
    ⟨identity, bytes, payload, id, name, expected, hidentity, hbytes, hpayload, hid, hname,
      hexpected, rfl⟩
  exact spec_call hintends fun _ ↦ .result hintends

theorem spec_branchCreate (db : PathBuf) (context name fromHead : String) :
    Spec B host start [] (branchCreate B db context name fromHead)
      (Settled B ((Commands.branchCreate db context name fromHead).Commits B host start)) := by
  refine .bind (spec_openStore settled_refused ?_)
  refine .bind (.give (refuses_parseContext _) settled_refused fun id hid ↦ ?_)
  refine .bind (.give (refuses_parseBranch _) settled_refused fun branch hbranch ↦ ?_)
  refine .bind (.give (refuses_parseEvent _ _) settled_refused fun head hhead ↦ ?_)
  exact spec_call ⟨id, branch, head, hid, hbranch, hhead, rfl⟩ fun _ ↦
    .result ⟨id, branch, head, hid, hbranch, hhead, rfl⟩

theorem spec_merge (db keyFile : PathBuf) (context branch expectedHead : String)
    (parents : List String) (payloadFile : Option PathBuf) (payloadStdin : Bool) :
    Spec B host start []
      (merge B db keyFile context branch expectedHead parents payloadFile payloadStdin)
      (Settled B ((Commands.merge db keyFile context branch expectedHead parents payloadFile
        payloadStdin).Commits B host start)) := by
  refine spec_signing settled_refused fun identity bytes payload hidentity hbytes hpayload ↦ ?_
  refine .bind (.give (refuses_mapEach (refuses_parseEvent _) _) settled_refused
    fun parents' hparents ↦ ?_)
  refine .bind (.give (refuses_parseContext _) settled_refused fun id hid ↦ ?_)
  refine .bind (.give (refuses_parseBranch _) settled_refused fun name hname ↦ ?_)
  refine .bind (.give (refuses_parseEvent _ _) settled_refused fun expected hexpected ↦ ?_)
  have hintends : (Commands.merge db keyFile context branch expectedHead parents payloadFile
      payloadStdin).Commits B host start [.merge identity id name expected parents' payload] :=
    ⟨identity, bytes, payload, parents', id, name, expected, hidentity, hbytes, hpayload, hparents,
      hid, hname, hexpected, rfl⟩
  exact spec_call hintends fun _ ↦ .result hintends

theorem spec_importCommand (db : PathBuf) (peer : String) (file : PathBuf) :
    Spec B host start [] (importCommand B db peer file)
      (Settled B ((Commands.bundleImport db peer file).Commits B host start)) := by
  refine .bind (spec_openStore settled_refused ?_)
  refine .bind (.give (refuses_parsePeer _) settled_refused fun name hname ↦ ?_)
  refine .bind (.ask (fun _ ↦ refuses_required (proper_of (by decide))) settled_refused
    fun answer wire hwire hok ↦ ?_)
  rw [required_eq_ok.mp hok] at hwire
  exact spec_call ⟨name, wire, hname, hwire, rfl⟩ fun _ ↦ .result ⟨name, wire, hname, hwire, rfl⟩

theorem spec_showEvent (db : PathBuf) (id : String) :
    Spec B host start [] (showEvent B db id) (Settled B (· = [])) := by
  refine .bind (spec_openStore settled_refused ?_)
  refine .bind (.give (refuses_parseEvent _ _) settled_refused fun _ _ ↦ ?_)
  refine .bind (.inspect settled_refused fun _ _ _ _ ↦ ?_)
  exact .bind (.give (refuses_required (proper_of (by decide))) settled_refused fun _ _ ↦
    .result rfl)

theorem spec_showProjection (db : PathBuf) (context : String) (heads : List String) :
    Spec B host start [] (showProjection B db context heads) (Settled B (· = [])) := by
  refine .bind (spec_openStore settled_refused ?_)
  refine .bind (.give (refuses_mapEach (refuses_parseEvent _) _) settled_refused fun _ _ ↦ ?_)
  refine .bind (.give (refuses_parseContext _) settled_refused fun _ _ ↦ ?_)
  exact .bind (.inspect settled_refused fun _ _ _ _ ↦ .result rfl)

theorem spec_showRefs (db : PathBuf) (context : String) (peer : Option String) :
    Spec B host start [] (showRefs B db context peer) (Settled B (· = [])) := by
  refine .bind (spec_openStore settled_refused ?_)
  refine .bind (.give (refuses_parseContext _) settled_refused fun _ _ ↦ ?_)
  cases peer with
  | none => exact .bind (.inspect settled_refused fun _ _ _ _ ↦ .result rfl)
  | some peer =>
    refine .bind (.give (refuses_parsePeer _) settled_refused fun _ _ ↦ ?_)
    exact .bind (.inspect settled_refused fun _ _ _ _ ↦ .result rfl)

/-- A query about the invocations of a branch. -/
theorem spec_invocationQuery {β : Type} {db : PathBuf} {context branch : String}
    {query : ContextId → LocalRefName → Fallible Store.Read Store.Read.Answer StoreError β}
    {result : β → Json} :
    Spec B host start [] (do
      openStore B db
      let context ← give (parseContext B context)
      let branch ← give (parseBranch branch)
      let found ← Fallible.part CliAction.query (fun _ answer ↦ answer) (storeError B)
        (query context branch)
      give (.ok (result found))) (Settled B (· = [])) := by
  refine .bind (spec_openStore settled_refused ?_)
  refine .bind (.give (refuses_parseContext _) settled_refused fun _ _ ↦ ?_)
  refine .bind (.give (refuses_parseBranch _) settled_refused fun _ _ ↦ ?_)
  exact .bind (.query settled_refused fun _ ↦ .result rfl)

theorem spec_invocationPending (db : PathBuf) (context branch : String) :
    Spec B host start [] (invocationPending B db context branch) (Settled B (· = [])) :=
  spec_invocationQuery

theorem spec_invocationDetached (db : PathBuf) (context branch : String) :
    Spec B host start [] (invocationDetached B db context branch) (Settled B (· = [])) :=
  spec_invocationQuery

theorem spec_verify (db : PathBuf) :
    Spec B host start [] (verify B db) (Settled B (· = [])) := by
  refine .bind (spec_openStore settled_refused ?_)
  refine .bind (.inspect settled_refused fun _ _ _ _ ↦ ?_)
  exact .bind (.give (refuses_ensure (proper_of (by decide))) settled_refused fun _ _ ↦
    .result rfl)

/-- A yes or no of the machine. -/
theorem refuses_flag {error : CliError} (h : error.Proper) (answer : Bool) :
    Refuses (ensure (answer = true) error) := refuses_ensure h

theorem spec_writeOut {post : Except CliError Unit → List Operation → Prop} {field : String}
    {file : PathBuf} {contents : Bytes}
    (hfail : ∀ error : CliError, error.Proper → post (.error error) pre)
    (h : post (.ok ()) pre) : Spec B host start pre (writeOut B field file contents) post :=
  .ask (refuses_flag (proper_of (by decide))) hfail fun _ _ _ _ ↦ h

theorem spec_exportCommand (db : PathBuf) (context : String) (heads knownHeads : List String)
    (out : PathBuf) :
    Spec B host start [] (exportCommand B db context heads knownHeads out)
      (Settled B (· = [])) := by
  refine .bind (spec_openStore settled_refused ?_)
  refine .bind (.give (refuses_parseContext _) settled_refused fun _ _ ↦ ?_)
  refine .bind (.give (refuses_mapEach (refuses_parseEvent _) _) settled_refused fun _ _ ↦ ?_)
  refine .bind (.give (refuses_mapEach (refuses_parseEvent _) _) settled_refused fun _ _ ↦ ?_)
  refine .bind (.inspect settled_refused fun _ _ _ _ ↦ ?_)
  refine .bind (.inspect settled_refused fun _ _ _ _ ↦ ?_)
  refine .bind (.give (refuses_mapError fun _ ↦ proper_of (by decide)) settled_refused
    fun _ _ ↦ ?_)
  exact .bind (spec_writeOut settled_refused (.result rfl))

theorem spec_serve (db tokenFile : PathBuf) (listen : String) (readyFile : PathBuf)
    (acknowledged : Bool) :
    Spec B host start [] (serve B db tokenFile listen readyFile acknowledged)
      (Settled B (· = [])) := by
  refine .bind (spec_openStore settled_refused ?_)
  refine .bind (.ask (refuses_flag (proper_of (by decide))) settled_refused fun _ _ _ _ ↦ ?_)
  refine .bind (.ask (fun _ ↦ refuses_mapError proper_syncError) settled_refused
    fun _ _ _ _ ↦ ?_)
  refine .bind (.ask (refuses_flag (proper_of (by decide))) settled_refused fun _ _ _ _ ↦ ?_)
  exact .bind (.ask (fun _ ↦ refuses_mapError proper_syncError) settled_refused
    fun _ _ _ _ ↦ .result rfl)

theorem refuses_parseCited (events : List String) : Refuses (parseCited B events) :=
  refuses_bind (refuses_mapEach (refuses_parseEvent _) _) fun _ ↦
    refuses_bind (refuses_ensure (proper_of (by decide))) fun _ ↦ refuses_ok _

theorem spec_receiptIssue (blake3 : Bytes → Fixed 32) (db keyFile : PathBuf) (context : String)
    (events : List String) (task recipientHead selector selectorVersion configHash : String)
    (out : PathBuf) :
    Spec B host start []
      (receiptIssue B blake3 db keyFile context events task recipientHead selector selectorVersion
        configHash out) (Settled B (· = [])) := by
  refine .bind (spec_openStore settled_refused ?_)
  refine .bind (spec_loadIdentity settled_refused fun _ _ ↦ ?_)
  refine .bind (.give (refuses_parseContext _) settled_refused fun _ _ ↦ ?_)
  refine .bind (.give (refuses_parseCited _) settled_refused fun _ _ ↦ ?_)
  refine .bind (spec_readTask settled_refused fun _ ↦ ?_)
  refine .bind (.give (refuses_required (proper_of (by decide))) settled_refused fun _ _ ↦ ?_)
  refine .bind (.give (refuses_mapError fun _ ↦ proper_of (by decide)) settled_refused
    fun _ _ ↦ ?_)
  refine .bind (.give (refuses_mapError fun _ ↦ proper_of (by decide)) settled_refused
    fun _ _ ↦ ?_)
  refine .bind (.give (refuses_parseEvent _ _) settled_refused fun _ _ ↦ ?_)
  refine .bind (.ask (fun _ ↦ refuses_ok _) settled_refused fun _ _ _ _ ↦ ?_)
  refine .bind (.give (refuses_mapError fun _ ↦ proper_of (by decide)) settled_refused
    fun _ _ ↦ ?_)
  refine .bind (.give (refuses_mapError fun _ ↦ proper_of (by decide)) settled_refused
    fun _ _ ↦ ?_)
  refine .bind (spec_verifyReferences settled_refused fun _ ↦ ?_)
  refine .bind (.give (refuses_ensure (proper_of (by decide))) settled_refused fun _ _ ↦ ?_)
  refine .bind (.give (refuses_mapError fun _ ↦ proper_of (by decide)) settled_refused
    fun _ _ ↦ ?_)
  exact .bind (spec_writeOut settled_refused (.result rfl))

theorem spec_receiptVerify (db file : PathBuf) :
    Spec B host start [] (receiptVerify B db file) (Settled B (· = [])) := by
  refine .bind (spec_openStore settled_refused ?_)
  refine .bind (.ask (fun _ ↦ refuses_required (proper_of (by decide))) settled_refused
    fun _ _ _ _ ↦ ?_)
  refine .bind (.give (refuses_mapError fun _ ↦ proper_of (by decide)) settled_refused
    fun _ _ ↦ ?_)
  refine .bind (spec_verifyReferences settled_refused fun _ ↦ ?_)
  exact .bind (.give (refuses_ensure (proper_of (by decide))) settled_refused fun _ _ ↦
    .result rfl)

/-! ### Invocations and pulls -/

section Parts

variable {provides : (question : ProviderAsk) → question.Reply → Prop}
  {relays : (question : PeerRequest) → question.Reply → Prop} {config : PullClientConfig}

theorem served_requestPage {wire : Bytes} {post : Except SyncError Bytes → List Operation → Prop}
    (hfail : ∀ error, post (.error error) pre)
    (h : ∀ answer, relays (.postExport wire) answer → post answer pre) :
    Served B start relays pre (requestPage wire) post :=
  .bind (.given (fun _ _ ↦ hfail _) fun _ _ ↦ .asked h)

/-- After the commits before them come imports of pages from the state on, and all of them when the
loop succeeds. -/
def Paged (B : Boundary) (relays : (question : PeerRequest) → question.Reply → Prop)
    (config : PullClientConfig) (requestedHeads knownHeads : List EventId) (expectedHeads : String)
    (pre : List Operation) (state : PullState) (result : Except SyncError PullReport)
    (commits : List Operation) : Prop :=
  ∃ imports ended, commits = pre ++ imports ∧
    Imports B relays config requestedHeads knownHeads expectedHeads state imports ended ∧
    ∀ report, result = .ok report → ended = true

/-- The pages of a pull are imports, however many there are. -/
theorem served_pullPages (requestedHeads knownHeads : List EventId) (expectedHeads : String)
    (left : ℕ) (state : PullState) :
    Served B start relays pre
      (pullPages B config requestedHeads knownHeads expectedHeads left state)
      (Paged B relays config requestedHeads knownHeads expectedHeads pre state) := by
  have hnone (pre : List Operation) (state : PullState) (error : SyncError) :
      Paged B relays config requestedHeads knownHeads expectedHeads pre state (.error error) pre :=
    ⟨[], false, (List.append_nil pre).symm, .none state, nofun⟩
  induction left generalizing state pre with
  | zero => exact .given (fun error _ ↦ hnone pre state error) nofun
  | succ left ih =>
    refine .bind (.given (fun _ _ ↦ hnone _ _ _) fun request hrequest ↦ ?_)
    refine .bind (.given (fun _ _ ↦ hnone _ _ _) fun question hquestion ↦ ?_)
    refine .bind (served_requestPage (fun _ ↦ hnone _ _ _) fun answer hrelays ↦ ?_)
    rcases answer with error | body
    · exact hnone _ _ error
    refine .bind (.given (fun _ _ ↦ hnone _ _ _) fun response hresponse ↦ ?_)
    refine .bind (.given (fun _ _ ↦ hnone _ _ _) fun next hchecked ↦ ?_)
    refine .bind (.given (fun _ _ ↦ hnone _ _ _) fun wire hwire ↦ ?_)
    refine .bind (.given (fun _ _ ↦ hnone _ _ _) fun limits hlimits ↦ ?_)
    have hpage : ImportsPage B relays config requestedHeads knownHeads expectedHeads state
        (.importBundle config.peer wire limits) next :=
      ⟨request, question, body, wire, response, limits, hrequest, hquestion, hrelays, hresponse,
        hchecked, mapError_eq_ok.mp hwire, mapError_eq_ok.mp hlimits, rfl⟩
    have hpaged (error : SyncError) : Paged B relays config requestedHeads knownHeads expectedHeads
        pre state (.error error) (pre ++ [.importBundle config.peer wire limits]) := by
      rcases next with _ | ⟨nextOffset, fingerprint, nextCursor⟩
      · exact ⟨_, true, rfl, .last hpage, nofun⟩
      · have hrest : Imports B relays config requestedHeads knownHeads expectedHeads
            ⟨state.report, some nextCursor, nextOffset, some fingerprint⟩ [] false := .none _
        exact ⟨_, false, rfl, .next hpage hrest, nofun⟩
    refine .bind (.called (fun _ ↦ hnone _ _ _) (hpaged _) fun imported ↦ ?_)
    refine .bind (.given (fun _ _ ↦ hpaged _) fun report _ ↦ ?_)
    rcases next with _ | ⟨nextOffset, fingerprint, nextCursor⟩
    · exact .given (fun _ _ ↦ hpaged _) fun _ _ ↦ ⟨_, true, rfl, .last hpage, fun _ _ ↦ rfl⟩
    · refine (ih _).mono fun result commits hrest ↦ ?_
      obtain ⟨imports, ended, hcommits, himports, hended⟩ := hrest
      refine ⟨_, ended, ?_, .next hpage himports, hended⟩
      rw [hcommits, List.append_assoc]
      rfl

theorem served_pull :
    Served B start relays [] (pull B config) (Pulled B start relays config) := by
  have hnone (error : SyncError) : Pulled B start relays config (.error error) [] := Or.inl rfl
  refine .bind (.asked fun answer hrelays ↦ ?_)
  rcases answer with error | body
  · exact hnone error
  refine .bind (.given (fun error _ ↦ hnone error) fun snapshot hsnapshot ↦ ?_)
  refine .bind (.given (fun error _ ↦ hnone error) fun _ hcontext ↦ ?_)
  rw [ensure_eq_ok] at hcontext
  refine .bind (.read (fun _ ↦ nofun) (fun _ ↦ nofun) fun t answer hrun hlocal ↦ ?_)
  rcases answer with error | «local»
  · exact hnone (.store error)
  refine .bind (.read (fun _ ↦ nofun) (fun _ ↦ nofun) fun t' answer hrun' hremote ↦ ?_)
  rcases answer with error | remote
  · exact hnone (.store error)
  have hopens : Opens B start relays config snapshot (normalize (EventId.text B)
      («local».map LocalRef.head ++ remote.map RemoteRef.head)) :=
    ⟨⟨body, hrelays, hsnapshot⟩, hcontext, t, t', «local», remote, hrun, hrun',
      ReadsAs.found hlocal.2, ReadsAs.found hremote.2, rfl⟩
  refine .bind (.given (fun error _ ↦ hnone error) fun _ _ ↦ ?_)
  split
  · have hrefs : snapshot.refs = [] := List.map_eq_nil_iff.mp (normalize_eq_nil.mp ‹_›)
    have hpulls : Pulls B start relays config
        [.replaceRemoteRefSnapshot config.peer config.context snapshot.refs] :=
      ⟨snapshot, _, [], hopens, Or.inl ⟨hrefs, rfl⟩, rfl⟩
    have hunknown : Pulled B start relays config (.error (.store .indeterminateCommit))
        [.replaceRemoteRefSnapshot config.peer config.context snapshot.refs] :=
      Or.inr (Or.inr ⟨hpulls, rfl⟩)
    refine .bind (.called (fun error ↦ hnone (.store error)) hunknown fun updated ↦ ?_)
    exact .given nofun fun _ _ ↦ hpulls
  · refine .bind (.given (fun error _ ↦ hnone error) fun expectedHeads hexpected ↦ ?_)
    refine .bind ((served_pullPages _ _ _ _ _).mono fun result imports hpaged ↦ ?_)
    obtain ⟨_, ended, rfl, himports, hended⟩ := hpaged
    have hpartial (error : SyncError) : Pulled B start relays config (.error error) imports :=
      Or.inr (Or.inl ⟨snapshot, _, ended, hopens, expectedHeads, hexpected, himports⟩)
    rcases result with error | report
    · exact hpartial error
    obtain rfl := hended report rfl
    have hpulls : Pulls B start relays config
        (imports ++ [.replaceRemoteRefSnapshot config.peer config.context snapshot.refs]) :=
      ⟨snapshot, _, imports, hopens, Or.inr ⟨expectedHeads, hexpected, himports⟩, rfl⟩
    have hunknown : Pulled B start relays config (.error (.store .indeterminateCommit))
        (imports ++ [.replaceRemoteRefSnapshot config.peer config.context snapshot.refs]) :=
      Or.inr (Or.inr ⟨hpulls, rfl⟩)
    refine .bind (.called (fun error ↦ hpartial (.store error)) hunknown fun updated ↦ ?_)
    exact .given nofun fun _ _ ↦ hpulls

/-- A recording that fails before it has committed anything. -/
theorem Records.none {identity : SigningIdentity} {request : InvocationRequest}
    (failure : ProviderError) : Records B start provides identity request (.error failure) [] :=
  Or.inl rfl

theorem served_recordInvocation (identity : SigningIdentity) (request : InvocationRequest) :
    Served B start provides [] (recordInvocation B identity request)
      (Records B start provides identity request) := by
  refine .bind (.given (fun _ _ ↦ .none _) fun inputWire _ ↦ ?_)
  refine .bind (.given (fun _ _ ↦ .none _) fun _ _ ↦ ?_)
  refine .bind (.read (fun _ ↦ nofun) (fun _ ↦ nofun) fun t answer hrun hoccurs ↦ ?_)
  rcases answer with error | projection
  · exact .none _
  have hproject : project B t request.context [request.expectedHead] .default = .ok projection :=
    ReadsAs.found hoccurs.2
  refine .bind (.asked fun answer hdrawn ↦ ?_)
  rcases answer with _ | bytes
  · exact .none _
  refine .bind (.given (fun _ _ ↦ .none _) fun asked hasked ↦ ?_)
  have hasked : Asked B provides identity request _ asked :=
    ⟨⟨bytes, hdrawn, rfl⟩, mapError_eq_ok.mp hasked⟩
  have hquestion (failure : ProviderError) :
      Records B start provides identity request (.error failure) [questionOf request asked] :=
    Or.inr ⟨_, asked, hasked, Or.inl rfl⟩
  refine .bind (.called (fun _ ↦ .none _) (hquestion _) fun _ ↦ ?_)
  refine .bind (.asked fun outcome hreplied ↦ ?_)
  refine .bind (.given (fun _ _ ↦ hquestion _) fun recorded hrecorded ↦ ?_)
  obtain ⟨kind, payload⟩ := recorded
  refine .bind (.given (fun _ _ ↦ hquestion _) fun answered hanswered ↦ ?_)
  have hanswered : Answered B start provides identity request _ asked kind answered :=
    ⟨t, projection, outcome, payload, hrun, hproject, hreplied, hrecorded,
      mapError_eq_ok.mp hanswered⟩
  refine .bind (.called (fun error ↦ ?_) ?_ fun _ ↦ ?_)
  · cases error with
    | staleHead current =>
      have hbeside (failure : ProviderError) (hfailure : failure = .store .indeterminateCommit ∨
          ∃ current, failure = .postExecutionConflict answered.eventId current) :
          Records B start provides identity request (.error failure)
            [questionOf request asked, .admitEvent answered .none] :=
        Or.inr ⟨_, asked, hasked, Or.inr ⟨kind, answered, hanswered, Or.inr ⟨rfl, hfailure⟩⟩⟩
      refine .bind (.called (fun _ ↦ hquestion _) (hbeside _ (Or.inl rfl)) fun _ ↦ ?_)
      refine .given (fun error herror ↦ hbeside error (Or.inr ⟨current, ?_⟩)) nofun
      exact (Except.error.inj herror).symm
    | _ => exact .given (fun _ _ ↦ hquestion _) nofun
  · refine .given (fun error herror ↦ ?_) nofun
    obtain rfl := Except.error.inj herror
    exact Or.inr ⟨_, asked, hasked, Or.inr ⟨kind, answered, hanswered, Or.inl ⟨rfl, rfl⟩⟩⟩
  · refine .given nofun fun report hreport ↦ ?_
    obtain rfl := Except.ok.inj hreport
    exact ⟨asked, answered, hasked, hanswered, rfl, rfl, rfl⟩

end Parts

theorem spec_invoke (db keyFile : PathBuf) (context branch expectedHead : String)
    (inputFile : Option PathBuf) (inputStdin : Bool) (provider : CommandProvider) :
    Spec B host start []
      (invoke B db keyFile context branch expectedHead inputFile inputStdin provider)
      ((Commands.invoke db keyFile context branch expectedHead inputFile inputStdin
        provider).Ends B host start) := by
  have hfail (error : CliError) (h : error.Proper) : (Commands.invoke db keyFile context branch
      expectedHead inputFile inputStdin provider).Ends B host start (.error error) [] :=
    ⟨h, Or.inl rfl⟩
  refine spec_signing hfail fun identity bytes input hidentity hbytes hinput ↦ ?_
  refine .bind (.give (refuses_parseContext _) hfail fun id hid ↦ ?_)
  refine .bind (.give (refuses_parseBranch _) hfail fun name hname ↦ ?_)
  refine .bind (.give (refuses_parseEvent _ _) hfail fun expected hexpected ↦ ?_)
  have hrequests : Requests B host keyFile context branch expectedHead inputFile inputStdin identity
      ⟨id, name, expected, input⟩ := ⟨hidentity, ⟨bytes, hbytes, hinput⟩, hid, hname, hexpected⟩
  refine .bind ?_
  refine .part (.record provider) (fun _ answer ↦ answer) (fun _ _ _ _ hacts ↦ hacts)
    ((served_recordInvocation identity ⟨id, name, expected, input⟩).mono
      fun result commits hrecords ↦ ?_)
  rcases result with failure | report
  · exact ⟨proper_providerError failure,
      Or.inr ⟨identity, _, failure, hrequests, rfl, hrecords⟩⟩
  · exact .result ⟨identity, _, report, hrequests, hrecords⟩

theorem spec_syncCommand (db : PathBuf) (peer url : String) (tokenFile : PathBuf)
    (context : String) (acknowledged : Bool) :
    Spec B host start [] (syncCommand B db peer url tokenFile context acknowledged)
      ((Commands.sync db peer url tokenFile context acknowledged).Ends B host start) := by
  have hfail (error : CliError) (h : error.Proper) : (Commands.sync db peer url tokenFile context
      acknowledged).Ends B host start (.error error) [] := ⟨h, Or.inl rfl⟩
  refine .bind (spec_openStore hfail ?_)
  refine .bind (.give (refuses_parsePeer _) hfail fun name hname ↦ ?_)
  refine .bind (.ask (fun _ ↦ refuses_mapError proper_syncError) hfail fun _ _ _ _ ↦ ?_)
  refine .bind (.give (refuses_parseContext _) hfail fun id hid ↦ ?_)
  refine .bind (.ask (fun _ ↦ refuses_mapError proper_syncError) hfail fun _ _ _ _ ↦ ?_)
  refine .bind ?_
  refine .part (.pull url) (fun _ answer ↦ answer) (fun _ _ _ _ hacts ↦ hacts)
    (served_pull.mono fun result commits hpulled ↦ ?_)
  rcases result with failure | report
  · exact ⟨proper_syncError failure, Or.inr ⟨name, id, failure, hname, hid, rfl, hpulled⟩⟩
  · exact .result ⟨name, id, hname, hid, hpulled⟩

/-! ### The command line -/

/-- A command that makes one call at most ends as its kind does. -/
theorem Spec.settles {command : Commands} {p : Process B Json}
    (h : Spec B host start [] p (Settled B (command.Commits B host start)))
    (hleaves : ∀ error commits, command.Leaves B host start error commits = (commits = [] ∨
      command.Commits B host start commits ∧ error = storeError B .indeterminateCommit)) :
    Spec B host start [] p (command.Ends B host start) := fun w hledger hcommits ↦
  (h w hledger hcommits).mono fun result w' _ hresult ↦ by
    cases result with
    | ok result => exact hresult
    | error error => exact ⟨hresult.1, hleaves error w'.commits ▸ hresult.2⟩

theorem spec_dispatch (blake3 : Bytes → Fixed 32) (command : Commands) :
    Spec B host start [] (dispatch B blake3 command) (command.Ends B host start) := by
  cases command with
  | keyGenerate => exact .settles (spec_keyGenerate _) fun _ _ ↦ rfl
  | keyRepairPermissions => exact .settles (spec_keyRepairPermissions _) fun _ _ ↦ rfl
  | tokenGenerate => exact .settles (spec_tokenGenerate _) fun _ _ ↦ rfl
  | contextCreate => exact .settles (spec_contextCreate _ _ _) fun _ _ ↦ rfl
  | contextJoin => exact .settles (spec_contextJoin _ _ _ _) fun _ _ ↦ rfl
  | contextAuthorize => exact .settles (spec_contextAuthorize _ _ _) fun _ _ ↦ rfl
  | append => exact .settles (spec_append _ _ _ _ _ _ _ _) fun _ _ ↦ rfl
  | branchCreate => exact .settles (spec_branchCreate _ _ _ _) fun _ _ ↦ rfl
  | merge => exact .settles (spec_merge _ _ _ _ _ _ _ _) fun _ _ ↦ rfl
  | showEvent => exact .settles (spec_showEvent _ _) fun _ _ ↦ rfl
  | showProjection => exact .settles (spec_showProjection _ _ _) fun _ _ ↦ rfl
  | showRefs => exact .settles (spec_showRefs _ _ _) fun _ _ ↦ rfl
  | bundleExport => exact .settles (spec_exportCommand _ _ _ _ _) fun _ _ ↦ rfl
  | bundleImport => exact .settles (spec_importCommand _ _ _) fun _ _ ↦ rfl
  | invocationPending => exact .settles (spec_invocationPending _ _ _) fun _ _ ↦ rfl
  | invocationDetached => exact .settles (spec_invocationDetached _ _ _) fun _ _ ↦ rfl
  | verify => exact .settles (spec_verify _) fun _ _ ↦ rfl
  | invoke => exact spec_invoke _ _ _ _ _ _ _ _
  | serve => exact .settles (spec_serve _ _ _ _ _) fun _ _ ↦ rfl
  | sync => exact spec_syncCommand _ _ _ _ _ _
  | receiptIssue => exact .settles (spec_receiptIssue _ _ _ _ _ _ _ _ _ _ _) fun _ _ ↦ rfl
  | receiptVerify => exact .settles (spec_receiptVerify _ _) fun _ _ ↦ rfl

/-- Whatever other processes do to the store while a command runs and however the database and the
machine answer: a process that exits with success has committed exactly what its arguments, its
files, its key and the answers of its provider or its peer name; and any other prints an error with
the exit class of its code and has committed nothing, as much of that recording or that pull as it
came to, or a call of which the database left open whether it was committed. -/
theorem exit_accountable (blake3 : Bytes → Fixed 32) (command : Commands) {report : Report}
    {w : Station}
    (hrun : Runs (Station.Acts B host) (run B blake3 (some command)) ⟨start, []⟩ (.done report) w) :
    ((∃ result, report = ⟨emitSuccess B (commandName command) result, 0⟩) ∧
      command.Commits B host start w.commits) ∨
    ∃ error : CliError, error.Proper ∧ error.exit ≠ 0 ∧
      report = ⟨emitFailure B error.code error.details, error.exit⟩ ∧
      command.Leaves B host start error w.commits := by
  have hspec : Spec B host start [] (dispatch B blake3 command) (command.Ends B host start) :=
    spec_dispatch blake3 command
  have hkeeps : Keeps (Station.Acts B host) (fun w ↦ Run B start w.tables)
      (run B blake3 (some command))
      (fun report w ↦ ∃ result, report = command.report B result ∧
        command.Ends B host start result w.commits) ⟨start, []⟩ :=
    Keeps.bind ((hspec ⟨start, []⟩ (.refl start) rfl).mono
      fun result w hw hresult ↦ ⟨hw, result, rfl, hresult⟩)
  obtain ⟨result, rfl, hends⟩ := hrun.post hkeeps
  cases result with
  | ok result => exact Or.inl ⟨⟨result, rfl⟩, hends⟩
  | error error =>
    obtain ⟨hproper, hleaves⟩ := hends
    refine Or.inr ⟨error, hproper, fun hzero ↦ ?_, rfl, hleaves⟩
    rw [CliError.Proper, hzero] at hproper
    simp [errorClasses] at hproper

section Golden

open Reference Golden

/-- The payload of the request, as a file holds it. -/
def payloadBytes : Bytes := Reference.toVec request.body.payload

/-- A machine with a store, a key of the fixture and a file with the payload of its request. -/
def desk : Host where
  answers
    | .openStore db, answer => db = "context.db" ∧ answer = .ok ()
    | .loadKeyFile file, answer => file = "author.key" ∧ answer = .ok identity
    | .readFile file, answer => file = "payload.json" ∧ answer = some payloadBytes
    | _, _ => False
  provides _ _ _ := False
  relays _ _ _ := False

/-- The command that appends the request of the fixture to its branch. -/
def appending : Commands :=
  .append "context.db" "author.key" (Golden.context.text Golden.B) "main"
    (first.id.text Golden.B) "agent.request" (some "payload.json") false

/-- The call that the command makes. -/
def appended : Operation :=
  .append identity second.context main first.id second.kind second.event.body.payload

theorem parsePayload_bytes :
    parsePayload Golden.B payloadBytes = .ok second.event.body.payload := by
  have hread := fromSlice_canonicalize (B := Golden.B)
    (World.canonicalize_eq request.body.payload) (by decide)
    (golden_unmarked (Or.inr rfl))
  rw [settled_payload request (Or.inr rfl) Golden.B] at hread
  exact required_eq_ok.mpr hread

theorem appending_runs : Runs (Station.Acts Golden.B desk)
    (run Golden.B (fun _ ↦ zeros 32) (some appending)) ⟨branched.tables, []⟩
    (.done ⟨emitSuccess Golden.B "append" (eventResult Golden.B second.event), 0⟩)
    ⟨advanced.tables, [appended]⟩ := by
  have hcontext : parseContext Golden.B (Golden.context.text Golden.B) = .ok Golden.context := by
    rw [parseContext, ContextId.parse_eq_ok.mpr rfl]
    rfl
  have hbranch : parseBranch "main" = .ok main := rfl
  have hexpected : parseEvent Golden.B "expected-head" (first.id.text Golden.B) = .ok first.id := by
    rw [parseEvent, EventId.parse_eq_ok.mpr rfl]
    rfl
  have hbounded : bounded "payload" "file unreadable" (some payloadBytes) = .ok payloadBytes := by
    rw [bounded, required_some, ok_bind, ensure_true (by decide), ok_bind]
  have hanswers {question : HostAsk} {answer : question.Reply}
      (hanswer : desk.answers question answer) : Station.Acts Golden.B desk (.ask question)
        ⟨branched.tables, []⟩ answer ⟨branched.tables, []⟩ :=
    ⟨⟨branched.tables, []⟩, ⟨.refl _, rfl⟩, rfl, hanswer⟩
  have happends : Station.Acts Golden.B desk (.write appended) ⟨branched.tables, []⟩
      (Except.ok second.event : Except StoreError SignedEventV1)
      ⟨advanced.tables, [appended]⟩ := by
    have hexecute : appended.execute Golden.B none branched.tables =
        (advanced.tables, .ok second.event) := (transact_ok append_branched).1
    have hlanded : landed Golden.B appended none branched.tables = [appended] :=
      Station.landed_ok hexecute
    refine ⟨⟨branched.tables, []⟩, ⟨.refl _, rfl⟩, none, nofun, hexecute, ?_⟩
    rw [hlanded]
    rfl
  have hdispatch : Runs (Station.Acts Golden.B desk)
      (dispatch Golden.B (fun _ ↦ zeros 32) appending).run ⟨branched.tables, []⟩
      (.done (.ok (eventResult Golden.B second.event))) ⟨advanced.tables, [appended]⟩ :=
    .attempt (hanswers ⟨rfl, rfl⟩) rfl (.attempt (hanswers ⟨rfl, rfl⟩) rfl
      (.attempt (hanswers ⟨rfl, rfl⟩) hbounded (.ofExcept parsePayload_bytes
        (.ofExcept hcontext (.ofExcept hbranch (.ofExcept hexpected
          (.attempt happends rfl (.refl _ _))))))))
  exact hdispatch.bind _

/-- The command exits with success. It has committed the append of the payload in its file, signed
with the key in its key file. -/
theorem exit_accountable_appending : ∃ (report : Report) (w : Station),
    Runs (Station.Acts Golden.B desk) (run Golden.B (fun _ ↦ zeros 32) (some appending))
      ⟨branched.tables, []⟩ (.done report) w ∧ report.exit = 0 ∧ w.tables = advanced.tables ∧
      appending.Commits Golden.B desk branched.tables w.commits := by
  refine ⟨_, _, appending_runs, rfl, rfl, ?_⟩
  rcases exit_accountable (fun _ ↦ zeros 32) appending appending_runs with
    ⟨-, hcommits⟩ | ⟨error, -, hnonzero, hreport, -⟩
  · exact hcommits
  · exact absurd (congrArg Report.exit hreport).symm hnonzero

end Golden

end ContextMesh.Cli
