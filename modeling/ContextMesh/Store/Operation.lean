import ContextMesh.Store.Sync

/-!
The writing operations of the store with their arguments, and the stores that runs of operations
reach. Each operation is one transaction, which the database may fail.
-/

set_option autoImplicit false
set_option relaxedAutoImplicit false

namespace ContextMesh.Store

open Contract

/-- A call of a writing operation. The entropy of a new context is what the system gave it. -/
inductive Operation
  | provisionContext (provision : ContextProvision)
  | joinContext (provision : ContextProvision)
  | createContext (identity : SigningIdentity) (branch : LocalRefName) (entropy : Option (Fixed 32))
  | authorizeAuthor (context : ContextId) (author : AuthorId)
  | admitEvent (event : SignedEventV1) (mutation : RefMutation)
  | admitWire (wire : Bytes) (mutation : RefMutation)
  | append (identity : SigningIdentity) (context : ContextId) (branch : LocalRefName)
      (expected : EventId) (kind : String) (payload : Json)
  | createBranch (context : ContextId) (name : LocalRefName) (fromHead : EventId)
  | merge (identity : SigningIdentity) (context : ContextId) (branch : LocalRefName)
      (expected : EventId) (parents : List EventId) (payload : Json)
  | setRemoteRef (peer : PeerName) (context : ContextId) (name : LocalRefName) (head : EventId)
  | importBundle (peer : PeerName) (wire : Bytes) (limits : BundleLimits)
  | replaceRemoteRefSnapshot (peer : PeerName) (context : ContextId) (refs : List AdvertisedRef)

/-- What a successful call returns. -/
def Operation.Result : Operation → Type
  | provisionContext _ | joinContext _ | setRemoteRef _ _ _ _ => Unit
  | createContext _ _ _ => ContextId × SignedEventV1 × LocalRef
  | authorizeAuthor _ _ => Bool
  | admitEvent _ _ | admitWire _ _ => AdmissionStatus
  | append _ _ _ _ _ _ | merge _ _ _ _ _ _ => SignedEventV1
  | createBranch _ _ _ => LocalRef
  | importBundle _ _ _ => ImportReport
  | replaceRemoteRefSnapshot _ _ _ => ℕ

variable (B : Boundary)

/-- The transaction of a call. -/
def Operation.body : (operation : Operation) → Tables →
    Except StoreError (Tables × operation.Result)
  | provisionContext provision => Store.provisionContext B provision
  | joinContext provision => Store.joinContext B provision
  | createContext identity branch entropy => Store.createContext B identity branch entropy
  | authorizeAuthor context author => Store.authorizeAuthor context author
  | admitEvent event mutation => Store.admitEvent B event mutation
  | admitWire wire mutation => Store.admitWire B wire mutation
  | append identity context branch expected kind payload =>
    Store.append B identity context branch expected kind payload
  | createBranch context name fromHead => Store.createBranch B context name fromHead
  | merge identity context branch expected parents payload =>
    Store.merge B identity context branch expected parents payload
  | setRemoteRef peer context name head => Store.setRemoteRef B peer context name head
  | importBundle peer wire limits => Store.importBundle B peer wire limits
  | replaceRemoteRefSnapshot peer context refs => Store.replaceRemoteRefSnapshot B peer context refs

/-- The tables after a call, and what the call reported. -/
def Operation.execute (operation : Operation) (fault : Option Fault) (t : Tables) :
    Tables × Except StoreError operation.Result := transact fault (operation.body B) t

/-- The second tables are reached from the first by calls, each of which the database may fail. -/
inductive Run : Tables → Tables → Prop
  | refl (t : Tables) : Run t t
  | step {t t' : Tables} (run : Run t t') (operation : Operation) (fault : Option Fault) :
      Run t (operation.execute B fault t').1

/-- The tables that calls reach from an empty store. -/
abbrev Reachable : Tables → Prop := Run B .empty

variable {B}

theorem Run.trans {a b c : Tables} (hab : Run B a b) (hbc : Run B b c) : Run B a c := by
  induction hbc with
  | refl => exact hab
  | step _ operation fault ih => exact .step ih operation fault

/-- A call that the database does not fail extends a run. -/
theorem Run.perform {t t' after : Tables} (run : Run B t t') (operation : Operation)
    {result : operation.Result} (hbody : operation.body B t' = .ok (after, result)) :
    Run B t after := by
  have hstep := Run.step run operation none
  rwa [Operation.execute, transact, hbody] at hstep

/-- What every successful transaction keeps, every run keeps. -/
theorem Run.invariant {motive : Tables → Prop}
    (hstep : ∀ t, motive t → ∀ (operation : Operation) after result,
      operation.body B t = .ok (after, result) → motive after)
    {t t' : Tables} (h : motive t) (hrun : Run B t t') : motive t' := by
  induction hrun with
  | refl => exact h
  | step _ operation fault ih =>
    rcases transact_cases fault (operation.body B) _ with ⟨hsame, -⟩ | ⟨result, hbody, -⟩
    · rw [Operation.execute, hsame]
      exact ih
    · exact hstep _ ih operation _ result hbody

end ContextMesh.Store
