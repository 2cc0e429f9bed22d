import ContextMesh.Reference.Exchange
import ContextMesh.Transport.Client
import Mathlib.Algebra.Order.BigOperators.Group.List

/-!
The HTTP transport refines the plain exchange of questions and answers: a client with the token of a
ready server reads of its reply exactly what `serve` says, for every question, every store and every
way in which the network delivers the bodies.
-/

set_option autoImplicit false
set_option relaxedAutoImplicit false

namespace ContextMesh.Transport

open Checked Contract Store Sync

variable {B : Boundary}

/-! ### Shapes of responses -/

@[simp] theorem errorResponse_status (status : ℕ) (code : String) (requestId : Option String) :
    (errorResponse B status code requestId).status = status := by
  rw [errorResponse]
  by_cases h : status = 401
  · simp [h, jsonResponse]
  · simp [h, jsonResponse]

@[simp] theorem errorResponse_body (status : ℕ) (code : String) (requestId : Option String) :
    (errorResponse B status code requestId).body =
      errorBody B code (requestId.getD "req1_AAAAAAAAAAAAAAAAAAAAAA") := by
  rw [errorResponse]
  by_cases h : status = 401
  · simp [h, jsonResponse]
  · simp [h, jsonResponse]

theorem storeStatus_failure (error : StoreError) :
    ¬ (200 ≤ storeStatus error ∧ storeStatus error < 300) := by
  cases error <;> simp [storeStatus]

/-- No error of a handler is a success. -/
theorem syncStatus_failure (error : SyncError) :
    ¬ (200 ≤ syncStatus error ∧ syncStatus error < 300) := by
  cases error with
  | store error => exact storeStatus_failure error
  | _ => decide

/-- What a client reads of the answer of a handler. -/
theorem readReply_answer {requestId : String} {outcome : Except SyncError Bytes} {reply : Reply}
    {limit : ℕ} (hlimit : limit < 2 ^ 64)
    (harrives : Arrives (leave B requestId (some (answer B requestId outcome))) reply) :
    readReply limit reply = readResponse limit outcome := by
  cases outcome with
  | ok wire =>
    refine (readReply_success harrives rfl ?_ ?_ hlimit).trans rfl
    · exact (getAll_insert_other _ (by decide) _).trans rfl
    · exact (getAll_insert_other _ (by decide) _).trans rfl
  | error error =>
    have hstatus : (leave B requestId (some (answer B requestId (.error error)))).status =
        syncStatus error := errorResponse_status ..
    rw [readReply_failure harrives (hstatus ▸ syncStatus_failure error), hstatus, readResponse]

/-! ### Requests of the client pass the guard -/

/-- The server has a permit and a request number left. -/
structure Ready (server : AppState) : Prop where
  permit : server.permits ≠ 0
  number : server.requestIds.counter + 1 < 2 ^ 64

theorem headerBytes_append (first second : HeaderMap) :
    headerBytes (first ++ second) = headerBytes first + headerBytes second := by
  rw [headerBytes, List.map_append, List.sum_append, headerBytes, headerBytes]

theorem length_le_headerBytes {headers : HeaderMap} {field : String × Bytes}
    (h : field ∈ headers) : field.2.length ≤ headerBytes headers :=
  (Nat.le_add_left ..).trans (List.le_sum_of_mem (List.mem_map_of_mem h))

/-- Ambient fields and a few small ones of the client are within the bounds of the server. -/
theorem headersExceed_client {ambient own : HeaderMap} (h : Ambient ambient)
    (hfew : own.length ≤ 3) (hsmall : headerBytes own ≤ 256) :
    headersExceed (ambient ++ own) = false := by
  have hvalue : (MAX_HTTP_HEADER_VALUE_BYTES : ℕ) = 8192 := rfl
  have hbytes : (MAX_HTTP_HEADER_BYTES : ℕ) = 16384 := rfl
  have hcount : (MAX_HTTP_HEADERS : ℕ) = 96 := rfl
  have hambient := h.small
  have hambientFew := h.few
  refine headersExceed_eq_false.mpr ⟨?_, fun field hfield ↦ ?_, ?_⟩
  · rw [List.length_append]
    omega
  · rcases List.mem_append.mp hfield with hfield | hfield
    · exact (length_le_headerBytes hfield).trans hambient
    · have hown := length_le_headerBytes hfield
      omega
  · rw [headerBytes_append]
    omega

/-- A request that passes the checks and finds the server ready is handled. -/
theorem guard_handled (keyedHash : Fixed 32 → Bytes → Fixed 32) {server : AppState}
    (hready : Ready server) (request : Request)
    (htarget : request.target.elim 0 String.utf8ByteSize ≤ MAX_REQUEST_TARGET_BYTES)
    (hheaders : headersExceed request.headers = false)
    (hauthenticated : authenticated B request.headers server.authHash = true) :
    ∃ requestId, (guard B keyedHash server request).2 =
      leave B requestId (some (route B server.limits server.store requestId request)) := by
  have hnext : checkedAdd server.requestIds.counter 1 = some (server.requestIds.counter + 1) :=
    if_pos hready.number
  have hscreen (requestId : String) : screen B server requestId request = none := by
    rw [screen, if_neg (Nat.not_lt.mpr htarget), hheaders, hauthenticated]
    rfl
  refine ⟨"req1_" ++ B.encode64 ((keyedHash server.requestIds.seed
    (toBeBytes 8 server.requestIds.counter)).1.take 16), ?_⟩
  rw [guard, enter, RequestIds.next, hnext]
  dsimp only
  rw [hscreen, if_neg hready.permit]

variable {client : HttpClient} {server : AppState}

theorem authenticated_client (hhash : server.authHash = client.token.hash B)
    {ambient own : HeaderMap} (h : Ambient ambient)
    (hown : own.getAll AUTHORIZATION = [client.token.authorization]) :
    authenticated B (ambient ++ own) server.authHash = true := by
  rw [authenticated, getAll_append, getAll_eq_nil fun field hfield ↦ (h.plain field hfield).1,
    List.nil_append, hown]
  exact decide_eq_true hhash.symm

/-! ### The request for refs -/

theorem text_plain (context : ContextId) : ∀ c ∈ (context.text B).toList, plainChar c = true := by
  intro c hc
  have hplain := B.encode64_plain context.bytes.1
  have hlead : "ctx1_".toList.all plainChar = true := by decide
  rw [ContextId.text, fixedText, String.toList_append] at hc
  rcases List.mem_append.mp hc with hfirst | hencoded
  · exact List.all_eq_true.mp hlead c hfirst
  · exact List.all_eq_true.mp hplain c hencoded

theorem path_refs (rest : String) : path (some ("/v1/refs?context=" ++ rest)) = "/v1/refs" := by
  rw [path, Option.getD_some, String.toList_append]
  rfl

/-- The target of the client names the context. -/
theorem refsContext_client (context : ContextId) :
    refsContext B (some ("/v1/refs?context=" ++ context.text B)) = some context := by
  have hsymbol {c : Char} (hc : plainChar c = false) : c ∉ (context.text B).toList := fun hmem ↦ by
    rw [text_plain context c hmem] at hc
    cases hc
  have hnonempty : context.text B ≠ "" := by
    intro hempty
    have hlist := congrArg String.toList hempty
    rw [ContextId.text, fixedText, String.toList_append] at hlist
    cases hlist
  have hclean : ¬ (context.text B = "" ∨ '&' ∈ (context.text B).toList ∨
      '%' ∈ (context.text B).toList) := by
    rintro (hempty | hmem | hmem)
    · exact hnonempty hempty
    · exact hsymbol (by decide) hmem
    · exact hsymbol (by decide) hmem
  rw [refsContext]
  show (stripPrefix "/v1/refs?context=" ("/v1/refs?context=" ++ context.text B) >>= fun text ↦
    if text = "" ∨ '&' ∈ text.toList ∨ '%' ∈ text.toList then none
    else (ContextId.parse B text).toOption) = _
  rw [stripPrefix_append]
  show (if context.text B = "" ∨ '&' ∈ (context.text B).toList ∨ '%' ∈ (context.text B).toList
    then none else (ContextId.parse B (context.text B)).toOption) = _
  rw [if_neg hclean, ContextId.parse_eq_ok.mpr rfl]
  rfl

theorem target_refs (context : ContextId) :
    ("/v1/refs?context=" ++ context.text B).utf8ByteSize ≤ MAX_REQUEST_TARGET_BYTES := by
  rw [String.utf8ByteSize_append, ContextId.text, fixedText, String.utf8ByteSize_append,
    B.encode64_size, context.bytes.2]
  decide

theorem guard_getRefs (keyedHash : Fixed 32 → Bytes → Fixed 32) (hready : Ready server)
    (hhash : server.authHash = client.token.hash B) (context : ContextId) {ambient : HeaderMap}
    (h : Ambient ambient) :
    ∃ requestId, (guard B keyedHash server (client.getRefs B context ambient)).2 =
      leave B requestId (some (answer B requestId (getRefs B server.store context))) := by
  have hown : HeaderMap.getAll [(AUTHORIZATION, client.token.authorization)] AUTHORIZATION =
      [client.token.authorization] := by rw [getAll_cons, if_pos rfl]; rfl
  have hsmall : headerBytes [(AUTHORIZATION, client.token.authorization)] ≤ 256 := by
    have hname : AUTHORIZATION.utf8ByteSize = 13 := by decide
    rw [headerBytes, List.map_singleton, List.sum_singleton, client.token.sized, hname]
    decide
  obtain ⟨requestId, hguard⟩ := guard_handled keyedHash hready
    (client.getRefs B context ambient) (target_refs context)
    (headersExceed_client h (Nat.le_of_ble_eq_true rfl) hsmall)
    (authenticated_client hhash h hown)
  refine ⟨requestId, hguard.trans ?_⟩
  have hbodyless : hasBody (ambient ++ [(AUTHORIZATION, client.token.authorization)]) = false := by
    have hlength : HeaderMap.get (ambient ++ [(AUTHORIZATION, client.token.authorization)])
        CONTENT_LENGTH = none := by
      rw [HeaderMap.get, getAll_append,
        getAll_eq_nil fun field hfield ↦ (h.plain field hfield).2.2.1]
      rfl
    rw [hasBody, hlength, List.any_append]
    simp only [Option.bind_eq_bind, Option.bind_none, Option.any_none, Bool.false_or,
      Bool.or_eq_false_iff, List.any_eq_false, decide_eq_true_eq]
    refine ⟨fun field hfield ↦ (h.plain field hfield).2.2.2, fun field hfield ↦ ?_⟩
    rw [List.mem_singleton.mp hfield]
    exact (by decide : AUTHORIZATION ≠ "transfer-encoding")
  have hroute : route B server.limits server.store requestId (client.getRefs B context ambient) =
      answer B requestId (getRefs B server.store context) := by
    rw [route]
    simp only [HttpClient.getRefs, path_refs, if_true]
    rw [getRefsHandler, if_neg (by simp [hbodyless]), refsContext_client]
  rw [hroute]

/-! ### The request for a page -/

theorem guard_postExport (keyedHash : Fixed 32 → Bytes → Fixed 32) (hready : Ready server)
    (hhash : server.authHash = client.token.hash B)
    (hbound : server.limits.maxRequestBodyBytes ≤ MAX_PULL_REQUEST_BODY_BYTES) {wire : Bytes}
    {ambient : HeaderMap} (h : Ambient ambient) {chunks : List Bytes}
    (hcut : chunks.flatten = wire) {request : Request}
    (hsent : client.postExport wire ambient chunks = .ok request) :
    ∃ requestId, (guard B keyedHash server request).2 = leave B requestId (some
      (answer B requestId (postExport B server.limits.toTransportLimits server.store wire))) := by
  obtain ⟨hshort, hsent⟩ := unit_bind_eq_ok.mp hsent
  rw [ensure_eq_ok] at hshort
  rw [Except.ok.injEq] at hsent
  subst hsent
  have hmax : (MAX_PULL_REQUEST_BODY_BYTES : ℕ) = 65536 := rfl
  set own : HeaderMap := [(AUTHORIZATION, client.token.authorization),
    (CONTENT_TYPE, ascii "application/json"), (CONTENT_LENGTH, decimal wire.length)] with hown
  have hdigits : (decimal wire.length).length ≤ 5 := by
    rw [decimal, List.length_map, Nat.length_toDigits_le_iff (by decide) (by decide)]
    omega
  have hsmall : headerBytes own ≤ 256 := by
    have hfixed : AUTHORIZATION.utf8ByteSize = 13 ∧ CONTENT_TYPE.utf8ByteSize = 12 ∧
        CONTENT_LENGTH.utf8ByteSize = 14 ∧ (ascii "application/json").length = 16 := by decide
    simp only [hown, headerBytes, List.map_cons, List.map_nil, List.sum_cons, List.sum_nil,
      client.token.sized]
    omega
  have hauthorization : own.getAll AUTHORIZATION = [client.token.authorization] := by
    simp only [hown, getAll_cons]
    rfl
  obtain ⟨requestId, hguard⟩ := guard_handled keyedHash hready
    ⟨.post, some "/v1/bundles/export", ambient ++ own, ⟨chunks, .complete⟩⟩
    (by decide : "/v1/bundles/export".utf8ByteSize ≤ MAX_REQUEST_TARGET_BYTES)
    (headersExceed_client h le_rfl hsmall) (authenticated_client hhash h hauthorization)
  refine ⟨requestId, hguard.trans ?_⟩
  have htyped : jsonContentType (ambient ++ own) = true := by
    rw [jsonContentType, getAll_append,
      getAll_eq_nil fun field hfield ↦ (h.plain field hfield).2.1]
    simp only [hown, getAll_cons]
    exact decide_eq_true rfl
  have hstated : HeaderMap.getAll (ambient ++ own) CONTENT_LENGTH = [decimal wire.length] := by
    rw [getAll_append, getAll_eq_nil fun field hfield ↦ (h.plain field hfield).2.2.1]
    simp only [hown, getAll_cons]
    rfl
  have hpath : path (some "/v1/bundles/export") = "/v1/bundles/export" := by decide
  have hroute : route B server.limits server.store requestId
      ⟨.post, some "/v1/bundles/export", ambient ++ own, ⟨chunks, .complete⟩⟩ =
        answer B requestId
          (postExport B server.limits.toTransportLimits server.store wire) := by
    rw [route]
    simp only [hpath, if_true]
    rw [if_neg (by decide), postExportHandler, if_neg (by simp [htyped]),
      contentLengthOver_decimal hstated (by omega)]
    by_cases hlong : server.limits.maxRequestBodyBytes < wire.length
    · rw [if_pos (decide_eq_true hlong), postExport, ensure_false (Nat.not_le.mpr hlong),
        error_bind]
      rfl
    · have hread : toBytes (⟨chunks, .complete⟩ : Body)
          (server.limits.maxRequestBodyBytes + 1) = .ok wire := by
        rw [toBytes, collect_flatten, List.nil_append, hcut]
        rw [List.nil_append, hcut]
        omega
      rw [if_neg (by simpa using hlong), hread]
  rw [hroute]

/-! ### The conversation -/

/-- Any response can arrive. -/
theorem exists_arrives (response : Response) : ∃ reply, Arrives response reply :=
  ⟨⟨response.status, response.headers ++ [(CONTENT_LENGTH, decimal response.body.length)],
    ⟨[response.body], .complete⟩⟩, rfl,
    ⟨[], ⟨List.forall_mem_nil _, Nat.zero_le _, Nat.zero_le _⟩, rfl⟩, by simp, rfl⟩

/-- The answer of a request for refs is that of its handler. -/
theorem asks_getRefs_iff (keyedHash : Fixed 32 → Bytes → Fixed 32) (hready : Ready server)
    (hhash : server.authHash = client.token.hash B)
    (hresponse : client.responseLimit ≤ MAX_SYNC_RESPONSE_BODY_BYTES) (context : ContextId)
    (result : Except SyncError Bytes) :
    client.Asks B keyedHash server (.getRefs context) result ↔
      result = serve B server.limits.toTransportLimits client.responseLimit server.store
        (.getRefs context) := by
  have hword : client.responseLimit < 2 ^ 64 :=
    Nat.lt_of_le_of_lt hresponse (by decide : MAX_SYNC_RESPONSE_BODY_BYTES < 2 ^ 64)
  have hnone : Ambient [] := ⟨List.forall_mem_nil _, Nat.zero_le _, Nat.zero_le _⟩
  constructor
  · intro h
    cases h with
    | getRefs fields arrives =>
      obtain ⟨requestId, hguard⟩ := guard_getRefs keyedHash hready hhash context fields
      rw [hguard] at arrives
      exact readReply_answer hword arrives
  · rintro rfl
    obtain ⟨requestId, hguard⟩ := guard_getRefs keyedHash hready hhash context hnone
    obtain ⟨reply, hreply⟩ := exists_arrives
      (guard B keyedHash server (client.getRefs B context [])).2
    have hread : readReply client.responseLimit reply = serve B server.limits.toTransportLimits
        client.responseLimit server.store (.getRefs context) :=
      readReply_answer hword (hguard ▸ hreply)
    rw [← hread]
    exact .getRefs hnone hreply

/-- The answer of a request for a page is that of its handler, or the client does not ask. -/
theorem asks_postExport_iff (keyedHash : Fixed 32 → Bytes → Fixed 32) (hready : Ready server)
    (hhash : server.authHash = client.token.hash B)
    (hlimits : ServerLimits.new server.limits.maxRequestBodyBytes
      server.limits.maxResponseBodyBytes server.limits.maxConcurrentRequests = .ok server.limits)
    (hresponse : client.responseLimit ≤ MAX_SYNC_RESPONSE_BODY_BYTES) (wire : Bytes)
    (result : Except SyncError Bytes) :
    client.Asks B keyedHash server (.postExport wire) result ↔
      result = serve B server.limits.toTransportLimits client.responseLimit server.store
        (.postExport wire) := by
  have hbound : server.limits.maxRequestBodyBytes ≤ MAX_PULL_REQUEST_BODY_BYTES := by
    obtain ⟨hchecked, -⟩ := unit_bind_eq_ok.mp hlimits
    have hgood := ensure_eq_ok.mp hchecked
    push Not at hgood
    exact hgood.2.1
  have hword : client.responseLimit < 2 ^ 64 :=
    Nat.lt_of_le_of_lt hresponse (by decide : MAX_SYNC_RESPONSE_BODY_BYTES < 2 ^ 64)
  have hnone : Ambient [] := ⟨List.forall_mem_nil _, Nat.zero_le _, Nat.zero_le _⟩
  by_cases hshort : wire.length ≤ MAX_PULL_REQUEST_BODY_BYTES
  · have hsend (ambient : HeaderMap) (chunks : List Bytes) :
        ∃ request, client.postExport wire ambient chunks = .ok request :=
      ⟨_, by rw [HttpClient.postExport, ensure_true hshort, ok_bind]⟩
    constructor
    · intro h
      cases h with
      | tooLong refused =>
        obtain ⟨request, hsent⟩ := hsend [] [wire]
        rw [hsent] at refused
        cases refused
      | postExport fields cut sent arrives =>
        obtain ⟨requestId, hguard⟩ :=
          guard_postExport keyedHash hready hhash hbound fields cut sent
        rw [hguard] at arrives
        exact readReply_answer hword arrives
    · rintro rfl
      have hwhole : [wire].flatten = wire := List.flatten_singleton
      obtain ⟨request, hsent⟩ := hsend [] [wire]
      obtain ⟨requestId, hguard⟩ :=
        guard_postExport keyedHash hready hhash hbound hnone hwhole hsent
      obtain ⟨reply, hreply⟩ := exists_arrives (guard B keyedHash server request).2
      have hread : readReply client.responseLimit reply = serve B
          server.limits.toTransportLimits client.responseLimit server.store (.postExport wire) :=
        readReply_answer hword (hguard ▸ hreply)
      rw [← hread]
      exact .postExport hnone hwhole hsent hreply
  · have hrefused (ambient : HeaderMap) (chunks : List Bytes) :
        client.postExport wire ambient chunks = .error .limitExceeded := by
      rw [HttpClient.postExport, ensure_false hshort, error_bind]
    have hserve : serve B server.limits.toTransportLimits client.responseLimit server.store
        (.postExport wire) = .error .limitExceeded := by
      rw [serve, postExport, ensure_false (by omega), error_bind]
      rfl
    constructor
    · intro h
      cases h with
      | tooLong refused =>
        rw [hrefused, Except.error.injEq] at refused
        rw [hserve, refused]
      | postExport fields cut sent arrives =>
        rw [hrefused] at sent
        cases sent
    · rintro rfl
      exact hserve ▸ .tooLong (hrefused [] [wire])

/-- A client with the token of a ready server reads what the handler of its question answers on the
store, and nothing else: the envelope of HTTP, with its checks of sizes, types, lengths and
authorization, adds no failure and hides no answer, however the bodies are cut into chunks. -/
theorem asks_iff_serve (keyedHash : Fixed 32 → Bytes → Fixed 32) (hready : Ready server)
    (hhash : server.authHash = client.token.hash B)
    (hlimits : ServerLimits.new server.limits.maxRequestBodyBytes
      server.limits.maxResponseBodyBytes server.limits.maxConcurrentRequests = .ok server.limits)
    (hresponse : client.responseLimit ≤ MAX_SYNC_RESPONSE_BODY_BYTES) (question : PeerRequest)
    (result : Except SyncError Bytes) :
    client.Asks B keyedHash server question result ↔
      result = serve B server.limits.toTransportLimits client.responseLimit server.store
        question := by
  cases question with
  | getRefs context => exact asks_getRefs_iff keyedHash hready hhash hresponse context result
  | postExport wire =>
    exact asks_postExport_iff keyedHash hready hhash hlimits hresponse wire result

section Golden

open Reference Golden

/-- The token of 32 zero bytes. -/
def golden : LoadedToken := ⟨ascii "Bearer token1_" ++ List.replicate 43 65, by decide⟩

/-- A server of the store with the request, before its first request. -/
def opened : AppState :=
  .new advanced.tables (golden.hash Golden.B) ⟨.default, MAX_CONCURRENT_HTTP_REQUESTS⟩ (zeros 32)

theorem opened_ready : Ready opened := ⟨by decide, by decide⟩

theorem asks_iff_serve_opened :
    HttpClient.Asks Golden.B (fun seed _ ↦ seed) ⟨golden, MAX_SYNC_RESPONSE_BODY_BYTES⟩ opened
      (.getRefs Golden.context) (serve Golden.B .default MAX_SYNC_RESPONSE_BODY_BYTES
        advanced.tables (.getRefs Golden.context)) :=
  (asks_iff_serve _ opened_ready rfl (by decide) le_rfl _ _).mpr rfl

end Golden

end ContextMesh.Transport
