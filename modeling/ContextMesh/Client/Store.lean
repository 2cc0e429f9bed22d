import ContextMesh.Foundation.Interaction
import ContextMesh.Store.Operation

/-!
Clients of a store. A client performs writing operations, each one transaction, and reads, and it
may ask something outside the store. The database may fail a transaction or a read; what the
outside answers is up to the outside.
-/

set_option autoImplicit false
set_option relaxedAutoImplicit false

namespace ContextMesh.Store

open Contract Interaction

/-- One step of a client: a writing operation, a read, or a question to the outside. -/
inductive Action (Ask : Type)
  | call (operation : Operation)
  | project (context : ContextId) (heads : List EventId) (limits : ProjectionLimits)
  | listLocalRefs (context : ContextId)
  | listRemoteRefs (peer : PeerName) (context : ContextId)
  | ask (question : Ask)

/-- What the client learns from a step. -/
def Action.Answer {Ask : Type} (Reply : Ask → Type) : Action Ask → Type
  | call operation => Except StoreError operation.Result
  | project _ _ _ => Except StoreError Projection
  | listLocalRefs _ => Except StoreError (List LocalRef)
  | listRemoteRefs _ _ => Except StoreError (List RemoteRef)
  | ask question => Reply question

/-- A client program that may fail. -/
abbrev Client (Ask : Type) (Reply : Ask → Type) (ε α : Type) :=
  Fallible (Action Ask) (Action.Answer Reply) ε α

section Steps

variable {Ask : Type} {Reply : Ask → Type} {ε : Type}

/-- A writing operation. -/
def call (operation : Operation) (mapError : StoreError → ε) :
    Client Ask Reply ε operation.Result :=
  Fallible.attempt (.call operation) fun answer ↦ Except.mapError mapError answer

/-- A writing operation, with its failure as a value. -/
def tryCall (operation : Operation) : Client Ask Reply ε (Except StoreError operation.Result) :=
  Fallible.observe (Action.call operation)

def projectStep (context : ContextId) (heads : List EventId) (limits : ProjectionLimits)
    (mapError : StoreError → ε) : Client Ask Reply ε Projection :=
  Fallible.attempt (.project context heads limits) fun answer ↦ Except.mapError mapError answer

def listLocalRefsStep (context : ContextId) (mapError : StoreError → ε) :
    Client Ask Reply ε (List LocalRef) :=
  Fallible.attempt (.listLocalRefs context) fun answer ↦ Except.mapError mapError answer

def listRemoteRefsStep (peer : PeerName) (context : ContextId) (mapError : StoreError → ε) :
    Client Ask Reply ε (List RemoteRef) :=
  Fallible.attempt (.listRemoteRefs peer context) fun answer ↦ Except.mapError mapError answer

end Steps

/-- A read returns what the tables hold, or fails. -/
def ReadsAs {α : Type} (found : Except StoreError α) (answer : Except StoreError α) : Prop :=
  answer = found ∨ ∃ error, answer = .error error

theorem ReadsAs.found {α : Type} {found : Except StoreError α} {value : α}
    (h : ReadsAs found (.ok value)) : found = .ok value := by
  rcases h with hsame | ⟨error, herror⟩
  · exact hsame.symm
  · cases herror

/-- What a step may answer, and the tables after it, when the database may fail in the given
ways. -/
def Action.Occurs (B : Boundary) (fails : Fault → Prop) {Ask : Type} (Reply : Ask → Type) :
    Effect (Action Ask) (Action.Answer Reply) Tables
  | .call operation, t, answer, t' => ∃ fault : Option Fault, (∀ f ∈ fault, fails f) ∧
      operation.execute B fault t = (t', answer)
  | .project context heads limits, t, answer, t' =>
    t' = t ∧ ReadsAs (Store.project B t context heads limits) answer
  | .listLocalRefs context, t, answer, t' =>
    t' = t ∧ ReadsAs (Store.listLocalRefs B t context) answer
  | .listRemoteRefs peer context, t, answer, t' =>
    t' = t ∧ ReadsAs (Store.listRemoteRefs B t peer context) answer
  | .ask _, t, _, t' => t' = t

/-- A call that occurs leaves the tables alone or commits the transaction of its operation. -/
theorem occurs_call {B : Boundary} {fails : Fault → Prop} {Ask : Type} {Reply : Ask → Type}
    {operation : Operation} {t t' : Tables} {answer : Except StoreError operation.Result}
    (h : Action.Occurs B fails Reply (.call operation) t answer t') :
    t' = t ∨ ∃ result, operation.body B t = .ok (t', result) := by
  obtain ⟨fault, -, hexecute⟩ := h
  have hafter := transact_cases fault (operation.body B) t
  rw [Operation.execute] at hexecute
  rw [hexecute] at hafter
  rcases hafter with ⟨hsame, -⟩ | ⟨result, hbody, -⟩
  · exact Or.inl hsame
  · exact Or.inr ⟨result, hbody⟩

/-- A call that fails has not committed when no commit is left unacknowledged. -/
theorem occurs_failed {B : Boundary} {Ask : Type} {Reply : Ask → Type} {operation : Operation}
    {t t' : Tables} {error : StoreError}
    (h : Action.Occurs B (· ≠ Fault.unacknowledged) Reply (.call operation) t (.error error) t') :
    t' = t := by
  obtain ⟨fault, hfault, hexecute⟩ := h
  have hafter : (operation.execute B fault t).1 = t' := congrArg Prod.fst hexecute
  have hanswer : (operation.execute B fault t).2 = .error error := congrArg Prod.snd hexecute
  rw [← hafter]
  rw [Operation.execute] at hanswer ⊢
  rcases hbody : operation.body B t with failed | ⟨after, result⟩
  · exact (transact_error hbody fault).1
  · cases fault with
    | none =>
      rw [(transact_ok hbody).1] at hanswer
      cases hanswer
    | some fault =>
      cases fault with
      | unacknowledged => exact absurd rfl (hfault _ rfl)
      | refused | lost => rfl

/-- A call that reports success has committed its transaction. -/
theorem occurs_acknowledged {B : Boundary} {fails : Fault → Prop} {Ask : Type} {Reply : Ask → Type}
    {operation : Operation} {t t' : Tables} {result : operation.Result}
    (h : Action.Occurs B fails Reply (.call operation) t (.ok result) t') :
    operation.body B t = .ok (t', result) := by
  obtain ⟨fault, -, hexecute⟩ := h
  have hcommitted := transact_acknowledged (congrArg Prod.snd hexecute)
  rcases transact_cases fault (operation.body B) t with ⟨-, hnothing⟩ | ⟨value, hbody, hvalue⟩
  · rw [hnothing] at hcommitted
    cases hcommitted
  · rw [hvalue, Option.some.injEq] at hcommitted
    rw [hbody, hcommitted]
    exact congrArg (fun out ↦ Except.ok (out.1, result)) hexecute

end ContextMesh.Store
