import ContextMesh.Transport.Guard

/-!
The client of the synchronization server, and its conversation with an honest server. What the
client reads in the end is what the handler of its question answers on the store, however the
network cuts the bodies into chunks: the heads, the token and the stated lengths pass the checks of
the other side.
-/

set_option autoImplicit false
set_option relaxedAutoImplicit false

namespace ContextMesh.Transport

open Checked Contract Store Sync

/-! ### Tokens -/

/-- The bytes after `token1_` of a canonical token. -/
def ENCODED_LEN : ℕ := 43

/-- Exact decoded bearer-token length. -/
def AUTH_TOKEN_BYTES : ℕ := 32

/-- A bearer token as it stands in the authorization field. -/
structure LoadedToken where
  authorization : Bytes
  sized : authorization.length = 57

/-- The text of ASCII bytes. -/
def asciiText (bytes : Bytes) : Option String :=
  if bytes.all fun byte ↦ byte.toNat < 128 then
    some (String.ofList (bytes.map fun byte ↦ Char.ofNat byte.toNat))
  else none

variable (B : Boundary)

/-- Accepts the canonical text of a token only. -/
def LoadedToken.parse (text : Bytes) : Except SyncError LoadedToken :=
  if h : text.length = 7 + ENCODED_LEN ∧ ascii "token1_" <+: text then do
    let encoded ← required (asciiText (text.drop 7)) .tokenSource
    let decoded ← required (B.decode64 encoded) .tokenSource
    ensure (decoded.length = AUTH_TOKEN_BYTES ∧ ascii (B.encode64 decoded) = text.drop 7)
      .tokenSource
    .ok ⟨ascii "Bearer " ++ text, by rw [List.length_append, h.1]; rfl⟩
  else .error .tokenSource

def LoadedToken.hash (token : LoadedToken) : Fixed 32 :=
  B.deriveKey AUTH_HASH_CONTEXT token.authorization

/-! ### The client -/

structure HttpClient where
  token : LoadedToken
  responseLimit : ℕ

/-- A response as it arrives. -/
structure Reply where
  status : ℕ
  headers : HeaderMap
  body : Body

/-- Reads a reply within the bound of the client. -/
def readReply (limit : ℕ) (reply : Reply) : Except SyncError Bytes :=
  if ¬ (200 ≤ reply.status ∧ reply.status < 300) then .error (statusError reply.status)
  else if ¬ jsonContentType reply.headers then .error .protocol
  else if contentLengthOver reply.headers limit then .error .limitExceeded
  else
    (toBytes reply.body limit).mapError fun fault ↦
      match fault with
      | .tooLong => .limitExceeded
      | .broken => .transport
      | .stalled => .timeout

/-- A number in decimal digits. -/
def decimal (n : ℕ) : Bytes := (Nat.toDigits 10 n).map Ascii.byteOf

/-- The request for the refs of a context. The HTTP library adds fields of its own in front. -/
def HttpClient.getRefs (client : HttpClient) (context : ContextId) (ambient : HeaderMap) :
    Request where
  method := .get
  target := some ("/v1/refs?context=" ++ context.text B)
  headers := ambient ++ [(AUTHORIZATION, client.token.authorization)]
  body := ⟨[], .complete⟩

/-- The request for a page, whose length the HTTP library states; no request when it is too long. -/
def HttpClient.postExport (client : HttpClient) (wire : Bytes) (ambient : HeaderMap)
    (chunks : List Bytes) : Except SyncError Request := do
  ensure (wire.length ≤ MAX_PULL_REQUEST_BODY_BYTES) .limitExceeded
  .ok {
    method := .post
    target := some "/v1/bundles/export"
    headers := ambient ++ [(AUTHORIZATION, client.token.authorization),
      (CONTENT_TYPE, ascii "application/json"), (CONTENT_LENGTH, decimal wire.length)]
    body := ⟨chunks, .complete⟩ }

/-! ### The network -/

/-- What HTTP libraries add to a head: a few small fields that say nothing about the body, the type
or the sender. -/
structure Ambient (fields : HeaderMap) : Prop where
  plain : ∀ field ∈ fields, field.1 ≠ AUTHORIZATION ∧ field.1 ≠ CONTENT_TYPE ∧
    field.1 ≠ CONTENT_LENGTH ∧ field.1 ≠ "transfer-encoding"
  few : fields.length ≤ 64
  small : headerBytes fields ≤ MAX_HTTP_HEADER_VALUE_BYTES

/-- The response arrives whole, with its length stated, in chunks of any sizes. -/
structure Arrives (response : Response) (reply : Reply) : Prop where
  status : reply.status = response.status
  headers : ∃ ambient, Ambient ambient ∧
    reply.headers = response.headers ++ (CONTENT_LENGTH, decimal response.body.length) :: ambient
  body : reply.body.chunks.flatten = response.body
  complete : reply.body.last = .complete

/-- A request of the client is answered by the server, and the client reads the reply. -/
inductive HttpClient.Asks (keyedHash : Fixed 32 → Bytes → Fixed 32) (client : HttpClient)
    (server : AppState) : PeerRequest → Except SyncError Bytes → Prop
  | getRefs {context : ContextId} {ambient : HeaderMap} {reply : Reply} (fields : Ambient ambient)
      (arrives : Arrives (guard B keyedHash server (client.getRefs B context ambient)).2 reply) :
      HttpClient.Asks keyedHash client server (.getRefs context)
        (readReply client.responseLimit reply)
  | tooLong {wire : Bytes} {error : SyncError}
      (refused : client.postExport wire [] [wire] = .error error) :
      HttpClient.Asks keyedHash client server (.postExport wire) (.error error)
  | postExport {wire : Bytes} {ambient : HeaderMap} {chunks : List Bytes} {request : Request}
      {reply : Reply} (fields : Ambient ambient) (cut : chunks.flatten = wire)
      (sent : client.postExport wire ambient chunks = .ok request)
      (arrives : Arrives (guard B keyedHash server request).2 reply) :
      HttpClient.Asks keyedHash client server (.postExport wire)
        (readReply client.responseLimit reply)

/-! ### Numbers in fields -/

theorem readDigits_append {acc n : ℕ} {front back : Bytes} (h : readDigits acc front = some n) :
    readDigits acc (front ++ back) = readDigits n back := by
  induction front generalizing acc with
  | nil =>
    rw [readDigits, Option.some.injEq] at h
    rw [List.nil_append, h]
  | cons byte rest ih =>
    rw [readDigits] at h
    rw [List.cons_append, readDigits]
    by_cases hdigit : Ascii.isDigit byte
    · rw [if_pos hdigit] at h ⊢
      exact ih h
    · rw [if_neg hdigit] at h
      cases h

/-- The byte of a digit states it. -/
theorem byteOf_digitChar {d : ℕ} (h : d < 10) :
    Ascii.isDigit (Ascii.byteOf d.digitChar) = true ∧
      (Ascii.byteOf d.digitChar).toNat - 48 = d := by
  have hall : ∀ d < 10, Ascii.isDigit (Ascii.byteOf (Nat.digitChar d)) = true ∧
      (Ascii.byteOf (Nat.digitChar d)).toNat - 48 = d := by decide
  exact hall d h

theorem readDigits_decimal (n : ℕ) : readDigits 0 (decimal n) = some n := by
  induction n using Nat.strong_induction_on with
  | _ n ih =>
    unfold decimal
    by_cases hsmall : n < 10
    · obtain ⟨hdigit, hvalue⟩ := byteOf_digitChar hsmall
      rw [Nat.toDigits_of_lt_base hsmall, List.map_singleton, readDigits, if_pos hdigit, hvalue,
        readDigits, Nat.zero_mul, Nat.zero_add]
    · obtain ⟨hdigit, hvalue⟩ := byteOf_digitChar (Nat.mod_lt n (by decide : 0 < 10))
      have hfront := ih (n / 10) (Nat.div_lt_self (by omega) (by decide))
      unfold decimal at hfront
      rw [Nat.toDigits_of_base_le (by decide) (Nat.not_lt.mp hsmall), List.map_append,
        readDigits_append hfront, List.map_singleton, readDigits, if_pos hdigit, hvalue, readDigits]
      congr 1
      omega

theorem mem_decimal {n : ℕ} {byte : UInt8} (h : byte ∈ decimal n) :
    Ascii.isDigit byte = true := by
  obtain ⟨c, hc, rfl⟩ := List.mem_map.mp h
  have hdigit := Nat.isDigit_of_mem_toDigits (by decide) (by decide) hc
  simp only [Char.isDigit, Bool.and_eq_true, decide_eq_true_eq] at hdigit
  have hascii : c.toNat < 128 := by
    have : c.val.toNat ≤ 57 := hdigit.2
    exact Nat.lt_of_le_of_lt this (by decide)
  rw [Ascii.isDigit, Ascii.byteOf_toNat hascii]
  have hlow : 48 ≤ c.toNat := hdigit.1
  have hhigh : c.toNat ≤ 57 := hdigit.2
  simp [hlow, hhigh]

theorem decimal_ne_nil (n : ℕ) : decimal n ≠ [] := fun hnil ↦
  Nat.toDigits_ne_nil (List.map_eq_nil_iff.mp hnil)

/-- The field of a decimal number states it, within a word. -/
theorem statedNumber_decimal (n : ℕ) :
    statedNumber (decimal n) = if n < 2 ^ 64 then some n else none := by
  have hvisible : (decimal n).all fun byte ↦
      32 ≤ byte.toNat ∧ byte.toNat < 127 ∨ byte = 9 := by
    refine List.all_eq_true.mpr fun byte hbyte ↦ decide_eq_true ?_
    have hdigit := mem_decimal hbyte
    simp only [Ascii.isDigit, Bool.and_eq_true, decide_eq_true_eq] at hdigit
    omega
  have hplus : (decimal n).head? ≠ some 43 := by
    intro hhead
    have hdigit := mem_decimal (List.mem_of_mem_head? hhead)
    revert hdigit
    decide
  rw [statedNumber, toStr, if_pos hvisible]
  show parseUnsigned (decimal n) = _
  rw [parseUnsigned]
  simp only [if_neg hplus, if_neg (decimal_ne_nil n), readDigits_decimal]
  rfl

/-- Among ambient fields, the stated length of a body is over a limit when the body is. -/
theorem contentLengthOver_decimal {headers : HeaderMap} {n limit : ℕ}
    (hstated : headers.getAll CONTENT_LENGTH = [decimal n]) (hlimit : limit < 2 ^ 64) :
    contentLengthOver headers limit = decide (limit < n) := by
  rw [contentLengthOver, hstated]
  dsimp only
  rw [statedNumber_decimal]
  by_cases hword : n < 2 ^ 64
  · rw [if_pos hword]
    rfl
  · rw [if_neg hword]
    have hover : limit < n := by omega
    simp [hover]

/-! ### Replies -/

theorem getAll_append (first second : HeaderMap) (name : String) :
    HeaderMap.getAll (first ++ second) name = first.getAll name ++ second.getAll name := by
  rw [HeaderMap.getAll, List.filter_append, List.map_append]
  rfl

theorem getAll_cons (first name : String) (value : Bytes) (rest : HeaderMap) :
    HeaderMap.getAll ((first, value) :: rest) name =
      if first = name then value :: rest.getAll name else rest.getAll name := by
  rw [HeaderMap.getAll, List.filter_cons]
  by_cases hsame : first = name
  · simp [hsame, HeaderMap.getAll]
  · simp [hsame, HeaderMap.getAll]

theorem getAll_eq_nil {headers : HeaderMap} {name : String}
    (h : ∀ field ∈ headers, field.1 ≠ name) : headers.getAll name = [] := by
  rw [HeaderMap.getAll, List.map_eq_nil_iff, List.filter_eq_nil_iff]
  exact fun field hfield ↦ by simpa using h field hfield

/-- A successful response is read when it is within the limit. -/
theorem readReply_success {response : Response} {reply : Reply} {limit : ℕ}
    (harrives : Arrives response reply) (hstatus : response.status = 200)
    (htype : response.headers.getAll CONTENT_TYPE = [ascii "application/json"])
    (hlength : response.headers.getAll CONTENT_LENGTH = []) (hlimit : limit < 2 ^ 64) :
    readReply limit reply =
      (ensure (response.body.length ≤ limit) .limitExceeded >>= fun _ ↦ .ok response.body) := by
  obtain ⟨ambient, hambient, hheaders⟩ := harrives.headers
  have htyped : jsonContentType reply.headers = true := by
    rw [jsonContentType, hheaders, getAll_append, htype, getAll_cons, if_neg (by decide),
      getAll_eq_nil fun field hfield ↦ (hambient.plain field hfield).2.1, List.append_nil]
    exact decide_eq_true rfl
  have hstated : reply.headers.getAll CONTENT_LENGTH = [decimal response.body.length] := by
    rw [hheaders, getAll_append, hlength, getAll_cons, if_pos rfl,
      getAll_eq_nil fun field hfield ↦ (hambient.plain field hfield).2.2.1, List.nil_append]
  have hbody := harrives.body
  rw [readReply, harrives.status, hstatus, if_neg (by decide), if_neg (not_not_intro htyped),
    contentLengthOver_decimal hstated hlimit]
  by_cases hlong : limit < response.body.length
  · rw [if_pos (decide_eq_true hlong), ensure_false (Nat.not_le.mpr hlong), error_bind]
  · rw [if_neg (by simpa using hlong), ensure_true (Nat.not_lt.mp hlong), ok_bind, toBytes,
      harrives.complete, collect_flatten]
    · rw [List.nil_append, hbody, mapError_ok]
    · rw [List.nil_append, hbody]
      exact Nat.not_lt.mp hlong

theorem readReply_failure {response : Response} {reply : Reply} {limit : ℕ}
    (harrives : Arrives response reply)
    (hstatus : ¬ (200 ≤ response.status ∧ response.status < 300)) :
    readReply limit reply = .error (statusError response.status) := by
  rw [readReply, harrives.status, if_pos hstatus]

end ContextMesh.Transport
