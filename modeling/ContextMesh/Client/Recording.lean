import ContextMesh.Client.Store

/-!
Recording one provider invocation: the request commits on its branch, the provider runs outside any
transaction, and its linked result commits after it, on the branch when the branch has not moved.
-/

set_option autoImplicit false
set_option relaxedAutoImplicit false

namespace ContextMesh.Store

open Checked Contract Interaction

/-- Maximum canonical provider input bytes. -/
def PROVIDER_INPUT_LIMIT : ℕ := 1048576

/-- Maximum canonical provider response bytes. -/
def PROVIDER_RESPONSE_LIMIT : ℕ := 1048576

/-- Maximum sanitized provider failure detail bytes. -/
def ERROR_DETAIL_LIMIT : ℕ := 1024

/-- The failures of a recording. -/
inductive ProviderError
  | validation
  | providerMalformed
  | limitExceeded
  | postExecutionConflict (result : EventId) (currentHead : Option EventId)
  | store (error : StoreError)
  | internal
  deriving DecidableEq

/-- One invocation outcome. -/
inductive ProviderOutcome
  | response (value : Json)
  | failure (code detail : String)

/-- Kind of the recorded result event. -/
inductive OutcomeKind
  | response
  | recordedError
  deriving DecidableEq

/-- Exact metadata supplied to a provider for one invocation. -/
structure InvocationContext where
  context : ContextId
  selectedHead : EventId
  ancestry : List SignedEventV1
  requestEventId : EventId
  invocationId : String
  input : Json

/-- One requested invocation; the provider answers from outside. -/
structure InvocationRequest where
  context : ContextId
  branch : LocalRefName
  expectedHead : EventId
  input : Json

structure InvocationReport where
  requestEventId : EventId
  invocationId : String
  outcome : OutcomeKind
  resultEventId : EventId

/-- What a recording asks for: random bytes, which the system may not have, and the outcome of its
provider. -/
inductive ProviderAsk
  | entropy
  | invoke (invocation : InvocationContext)

def ProviderAsk.Reply : ProviderAsk → Type
  | entropy => Option (Fixed 16)
  | invoke _ => ProviderOutcome

abbrev Recording (α : Type) := Client ProviderAsk ProviderAsk.Reply ProviderError α

/-- Replaces control characters and stops at the bound; `used` counts the bytes written. -/
def sanitizeChars (used : ℕ) : List Char → List Char
  | [] => []
  | character :: rest =>
    let replacement := if character.val < 32 ∨ character.val = 127 then Char.ofNat 0xFFFD
      else character
    if used + replacement.utf8Size > ERROR_DETAIL_LIMIT then []
    else replacement :: sanitizeChars (used + replacement.utf8Size) rest

def sanitizeDetail (text : String) : String := String.ofList (sanitizeChars 0 text.toList)

variable (B : Boundary)

def generateInvocationId : Recording String :=
  Fallible.attempt (.ask .entropy) fun bytes : Option (Fixed 16) ↦ do
    let bytes ← required bytes .internal
    .ok ("inv1_" ++ B.encode64 bytes.1)

def invoke (invocation : InvocationContext) : Recording ProviderOutcome :=
  Fallible.observe (Action.ask (ProviderAsk.invoke invocation))

/-- The kind and the payload of the result event of an outcome. -/
def resultPayload (invocationId : String) :
    ProviderOutcome → Except ProviderError (OutcomeKind × Json)
  | .response response => do
    let wire ← (canonicalize B response).mapError fun _ ↦ .providerMalformed
    ensure (wire.length ≤ PROVIDER_RESPONSE_LIMIT) .limitExceeded
    .ok (.response, .obj [("invocation_id", .str invocationId), ("response", response)])
  | .failure code detail => .ok (.recordedError, .obj [("detail", .str (sanitizeDetail detail)),
      ("error_code", .str code), ("invocation_id", .str invocationId)])

def OutcomeKind.eventKind : OutcomeKind → String
  | response => "agent.response"
  | recordedError => "agent.error"

/-- Records one invocation: request commit, provider call, linked result. -/
def recordInvocation (identity : SigningIdentity) (request : InvocationRequest) :
    Recording InvocationReport := do
  let inputWire ← Fallible.ofExcept
    ((canonicalize B request.input).mapError fun _ ↦ .validation)
  Fallible.ofExcept (ensure (inputWire.length ≤ PROVIDER_INPUT_LIMIT) .limitExceeded)
  let projection ← projectStep request.context [request.expectedHead] .default .store
  let invocationId ← generateInvocationId B
  let requestEvent ← Fallible.ofExcept ((identity.createEvent B request.context
    [request.expectedHead] "agent.request"
    (.obj [("input", request.input), ("invocation_id", .str invocationId),
      ("selected_head", .str (request.expectedHead.text B))])).mapError fun _ ↦ .validation)
  let _ ← call (.admitEvent requestEvent (.compareAndSwap request.context request.branch
    (.head request.expectedHead) requestEvent.eventId)) .store
  let outcome ← invoke ⟨request.context, request.expectedHead, projection.events,
    requestEvent.eventId, invocationId, request.input⟩
  let (kind, payload) ← Fallible.ofExcept (resultPayload B invocationId outcome)
  let resultEvent ← Fallible.ofExcept ((identity.createEvent B request.context
    [requestEvent.eventId] kind.eventKind payload).mapError fun _ ↦ .internal)
  let committed ← tryCall (.admitEvent resultEvent (.compareAndSwap request.context request.branch
    (.head requestEvent.eventId) resultEvent.eventId))
  match committed with
  | .ok _ => Fallible.ofExcept (.ok
      ⟨requestEvent.eventId, invocationId, kind, resultEvent.eventId⟩)
  | .error (.staleHead current) => do
    let _ ← call (.admitEvent resultEvent .none) .store
    Fallible.ofExcept (.error (.postExecutionConflict resultEvent.eventId current))
  | .error error => Fallible.ofExcept (.error (.store error))

end ContextMesh.Store
