import ContextMesh.Transport.Message

/-!
The synchronization server as one request meets it. The guard numbers the request, checks the sizes
of its head, authenticates it and takes a permit; the router then picks a handler, which answers
from the store. Every answer that is no success is an error body with a code and the request id.
-/

set_option autoImplicit false
set_option relaxedAutoImplicit false

namespace ContextMesh.Transport

open Checked Contract Store Sync

/-- Hard concurrent handler limit. -/
def MAX_CONCURRENT_HTTP_REQUESTS : ℕ := 16

def AUTH_HASH_CONTEXT : String := "org.aaif.contextmesh.sync.auth.v1"

/-- Checked transport bounds of a server. -/
structure ServerLimits extends TransportLimits where
  maxConcurrentRequests : ℕ
  deriving DecidableEq

def ServerLimits.new (maxRequestBodyBytes maxResponseBodyBytes maxConcurrentRequests : ℕ) :
    Except SyncError ServerLimits := do
  ensure (¬ (maxRequestBodyBytes = 0 ∨ maxRequestBodyBytes > MAX_PULL_REQUEST_BODY_BYTES ∨
    maxResponseBodyBytes = 0 ∨ maxResponseBodyBytes > MAX_SYNC_RESPONSE_BODY_BYTES ∨
    maxConcurrentRequests = 0 ∨ maxConcurrentRequests > MAX_CONCURRENT_HTTP_REQUESTS))
    .invalidConfig
  .ok ⟨⟨maxRequestBodyBytes, maxResponseBodyBytes⟩, maxConcurrentRequests⟩

/-! ### Answers -/

def jsonResponse (status : ℕ) (wire : Bytes) : Response where
  status := status
  headers := [(CONTENT_TYPE, ascii "application/json"), (CONNECTION, ascii "close")]
  body := wire

variable (B : Boundary)

def errorBody (code requestId : String) : Bytes :=
  match canonicalize B (.obj [("error", .obj [("code", .str code), ("request_id", .str requestId)]),
    ("protocol_version", .num (.posInt SYNC_PROTOCOL_VERSION))]) with
  | .ok wire => wire
  | .error _ => ascii ("\x7b\"error\":\x7b\"code\":\"internal\",\"request_id\":" ++
      "\"req1_AAAAAAAAAAAAAAAAAAAAAA\"\x7d,\"protocol_version\":1\x7d")

/-- An error body; a failed authentication also names its scheme. -/
def errorResponse (status : ℕ) (code : String) (requestId : Option String) : Response :=
  let wire := errorBody B code (requestId.getD "req1_AAAAAAAAAAAAAAAAAAAAAA")
  let response := jsonResponse status wire
  if status = 401 then
    { response with headers := response.headers.insert "www-authenticate" (ascii "Bearer") }
  else response

/-- The code of an error of the store. -/
def storeCode : StoreError → String
  | .contextUnknown | .parentMissing _ => "not_found"
  | .bundleLimitExceeded | .projectionLimitExceeded | .limitExceeded => "limit_exceeded"
  | .bundleOrder => "pagination_conflict"
  | .databaseUnavailable | .indeterminateCommit => "unavailable"
  | _ => "internal"

/-- The code of an error of a handler. -/
def syncCode : SyncError → String
  | .unsupportedVersion => "unsupported_version"
  | .limitExceeded | .invalidConfig => "limit_exceeded"
  | .paginationConflict => "pagination_conflict"
  | .timeout => "timeout"
  | .store error => storeCode error
  | .protocol => "malformed_request"
  | _ => "internal"

def syncError (error : SyncError) (requestId : String) : Response :=
  errorResponse B (syncStatus error) (syncCode error) (some requestId)

/-- What a handler makes of its result. -/
def answer (requestId : String) : Except SyncError Bytes → Response
  | .ok wire => jsonResponse 200 wire
  | .error error => syncError B error requestId

def malformed (requestId : String) : Response :=
  errorResponse B 400 "malformed_request" (some requestId)

def limitExceeded (status : ℕ) (requestId : String) : Response :=
  errorResponse B status "limit_exceeded" (some requestId)

/-! ### Handlers -/

/-- The context that the target of a refs request names. -/
def refsContext (target : Option String) : Option ContextId := do
  let raw ← target
  let contextText ← stripPrefix "/v1/refs?context=" raw
  if contextText = "" ∨ '&' ∈ contextText.toList ∨ '%' ∈ contextText.toList then none
  else (ContextId.parse B contextText).toOption

def getRefsHandler (t : Tables) (requestId : String) (request : Request) : Response :=
  if request.method ≠ .get ∨ hasBody request.headers then malformed B requestId
  else
    match refsContext B request.target with
    | none => malformed B requestId
    | some context => answer B requestId (getRefs B t context)

def postExportHandler (limits : ServerLimits) (t : Tables) (requestId : String)
    (request : Request) : Response :=
  if request.method ≠ .post ∨ ¬ jsonContentType request.headers then malformed B requestId
  else if contentLengthOver request.headers limits.maxRequestBodyBytes then
    limitExceeded B 413 requestId
  else
    -- one byte more than allowed is read to tell a body that is too long
    match toBytes request.body (limits.maxRequestBodyBytes + 1) with
    | .error .stalled => errorResponse B 408 "timeout" (some requestId)
    | .error _ => limitExceeded B 413 requestId
    | .ok body => answer B requestId (postExport B limits.toTransportLimits t body)

/-- The path of a target, which ends at its query. -/
def path (target : Option String) : String :=
  String.ofList ((target.getD "").toList.takeWhile fun c ↦ c ≠ '?')

/-- Picks the handler of a request. A HEAD request is answered like GET, without the body. -/
def route (limits : ServerLimits) (t : Tables) (requestId : String) (request : Request) :
    Response :=
  let notAllowed := errorResponse B 405 "method_not_allowed" (some requestId)
  if path request.target = "/v1/refs" then
    match request.method with
    | .get => getRefsHandler B t requestId request
    | .head => { getRefsHandler B t requestId request with body := [] }
    | _ => notAllowed
  else if path request.target = "/v1/bundles/export" then
    match request.method with
    | .post => postExportHandler B limits t requestId request
    | _ => notAllowed
  else errorResponse B 404 "not_found" (some requestId)

/-! ### The guard -/

/-- The numbering of requests under a secret seed. -/
structure RequestIds where
  seed : Fixed 32
  counter : ℕ

/-- The next id; the counter is a 64-bit word that does not wrap. -/
def RequestIds.next (keyedHash : Fixed 32 → Bytes → Fixed 32) (ids : RequestIds) :
    RequestIds × Option String :=
  match checkedAdd ids.counter 1 with
  | none => (ids, none)
  | some counter =>
    let hash := keyedHash ids.seed (toBeBytes 8 ids.counter)
    ({ ids with counter := counter }, some ("req1_" ++ B.encode64 (hash.1.take 16)))

/-- There is one authorization, and its hash is the expected one. -/
def authenticated (headers : HeaderMap) (expected : Fixed 32) : Bool :=
  match headers.getAll AUTHORIZATION with
  | [value] => B.deriveKey AUTH_HASH_CONTEXT value = expected
  | _ => false

/-- What the requests of a server share. -/
structure AppState where
  store : Tables
  authHash : Fixed 32
  requestIds : RequestIds
  permits : ℕ
  limits : ServerLimits

/-- A server before its first request; the seed of its request ids is random. -/
def AppState.new (store : Tables) (authHash : Fixed 32) (limits : ServerLimits) (seed : Fixed 32) :
    AppState where
  store := store
  authHash := authHash
  requestIds := ⟨seed, 0⟩
  permits := limits.maxConcurrentRequests
  limits := limits

/-- The checks before a permit is taken. -/
def screen (state : AppState) (requestId : String) (request : Request) : Option Response :=
  if (request.target.elim 0 String.utf8ByteSize) > MAX_REQUEST_TARGET_BYTES then
    some (limitExceeded B 414 requestId)
  else if headersExceed request.headers then some (limitExceeded B 431 requestId)
  else if authenticated B request.headers state.authHash = false then
    some (errorResponse B 401 "authentication_failed" (some requestId))
  else none

/-- What becomes of a request before its handler runs. -/
inductive Entry
  | refused (response : Response)
  | entered (requestId : String)

/-- The guard up to the handler, which it lets run under a permit. -/
def enter (keyedHash : Fixed 32 → Bytes → Fixed 32) (state : AppState) (request : Request) :
    AppState × Entry :=
  match state.requestIds.next B keyedHash with
  | (_, none) => (state, .refused (errorResponse B 500 "internal" none))
  | (ids, some requestId) =>
    let numbered := { state with requestIds := ids }
    match screen B state requestId request with
    | some response => (numbered, .refused response)
    | none =>
      if state.permits = 0 then
        (numbered, .refused (errorResponse B 503 "unavailable" (some requestId)))
      else ({ numbered with permits := state.permits - 1 }, .entered requestId)

/-- The guard behind the handler, which may have run out of time. -/
def leave (requestId : String) (outcome : Option Response) : Response :=
  let response := outcome.getD (errorResponse B 408 "timeout" (some requestId))
  { response with headers := response.headers.insert CONNECTION (ascii "close") }

/-- One request that no other one overlaps with, and whose handler ends in time. -/
def guard (keyedHash : Fixed 32 → Bytes → Fixed 32) (state : AppState) (request : Request) :
    AppState × Response :=
  match enter B keyedHash state request with
  | (after, .refused response) => (after, response)
  | (after, .entered requestId) =>
    ({ after with permits := after.permits + 1 },
      leave B requestId (some (route B state.limits state.store requestId request)))

end ContextMesh.Transport
