import ContextMesh.Store.Dag

/-!
The errors of rows. Reading rows reports corruption or a broken contract, writing rows reports the
database; what only the logic above the rows reports never comes from below.
-/

set_option autoImplicit false
set_option relaxedAutoImplicit false

namespace ContextMesh.Store

open Checked Contract

/-- The errors that reading and writing rows may report. -/
def StoreError.OfRows : StoreError → Prop
  | .corruptStorage | .databaseUnavailable | .contract _ => True
  | _ => False

variable {B : Boundary} {t : Tables} {error : StoreError}

section Rows

variable (h : ¬ error.OfRows)

include h

theorem corruptStorage_ne : StoreError.corruptStorage ≠ error := by
  rintro rfl
  exact h trivial

theorem databaseUnavailable_ne : StoreError.databaseUnavailable ≠ error := by
  rintro rfl
  exact h trivial

theorem contract_ne (broken : ContractError) : StoreError.contract broken ≠ error := by
  rintro rfl
  exact h trivial

/-! ### Cells -/

theorem blobValue_ne_error (value : SqlValue) : blobValue value ≠ .error error := by
  cases value with
  | blob bytes => exact ok_ne_error
  | _ => exact error_ne_error (corruptStorage_ne h)

theorem integerValue_ne_error (value : SqlValue) : integerValue value ≠ .error error := by
  cases value with
  | integer number => exact ok_ne_error
  | _ => exact error_ne_error (corruptStorage_ne h)

theorem textValue_ne_error (value : SqlValue) : textValue value ≠ .error error := by
  cases value with
  | text content => exact ok_ne_error
  | _ => exact error_ne_error (corruptStorage_ne h)

theorem exact32_ne_error (value : SqlValue) : exact32 value ≠ .error error := by
  refine bind_ne_error (blobValue_ne_error h value) fun bytes _ ↦ ?_
  split_ifs
  · exact ok_ne_error
  · exact error_ne_error (corruptStorage_ne h)

theorem idValue_ne_error (value : SqlValue) : idValue value ≠ .error error :=
  bind_ne_error (exact32_ne_error h value) fun _ _ ↦ ok_ne_error

theorem optionalId_ne_error (value : SqlValue) : optionalId value ≠ .error error := by
  cases value with
  | null => exact ok_ne_error
  | _ => exact bind_ne_error (idValue_ne_error h _) fun _ _ ↦ ok_ne_error

/-! ### Queries -/

theorem contextRow_ne_error (context : ContextId) : contextRow t context ≠ .error error := by
  unfold contextRow
  split
  · exact ok_ne_error
  · exact bind_ne_error (idValue_ne_error h _) fun _ _ ↦
      bind_ne_error (optionalId_ne_error h _) fun _ _ ↦
      bind_ne_error (integerValue_ne_error h _) fun _ _ ↦
      bind_ne_error (ensure_ne_error (corruptStorage_ne h)) fun _ _ ↦ ok_ne_error

theorem eventWire_ne_error (id : EventId) : eventWire t id ≠ .error error := by
  unfold eventWire
  split
  · exact ok_ne_error
  · exact bind_ne_error (blobValue_ne_error h _) fun _ _ ↦
      bind_ne_error (ensure_ne_error (corruptStorage_ne h)) fun _ _ ↦ ok_ne_error

theorem authoritativeEventContext_ne_error (id : EventId) :
    authoritativeEventContext B t id ≠ .error error := by
  refine bind_ne_error (eventWire_ne_error h id) fun found _ ↦ ?_
  cases found with
  | none => exact ok_ne_error
  | some wire =>
    exact bind_ne_error (mapError_ne_error fun _ ↦ corruptStorage_ne h) fun _ _ ↦
      bind_ne_error (ensure_ne_error (corruptStorage_ne h)) fun _ _ ↦ ok_ne_error

theorem edgeRows_ne_error (id : EventId) : edgeRows t id ≠ .error error :=
  mapEach_ne_error (fun _ ↦ idValue_ne_error h _) _

theorem validateStoredEvent_ne_error (event : SignedEventV1) :
    validateStoredEvent B t event ≠ .error error := by
  unfold validateStoredEvent
  split
  · exact error_ne_error (corruptStorage_ne h)
  · exact bind_ne_error (bind_ne_error (exact32_ne_error h _) fun _ _ ↦ ok_ne_error) fun _ _ ↦
      bind_ne_error (bind_ne_error (exact32_ne_error h _) fun _ _ ↦ ok_ne_error) fun _ _ ↦
      bind_ne_error (textValue_ne_error h _) fun _ _ ↦
      bind_ne_error (blobValue_ne_error h _) fun _ _ ↦
      bind_ne_error (ensure_ne_error (corruptStorage_ne h)) fun _ _ ↦
      bind_ne_error (mapError_ne_error (contract_ne h)) fun _ _ ↦
      bind_ne_error (ensure_ne_error (corruptStorage_ne h)) fun _ _ ↦
      bind_ne_error (edgeRows_ne_error h _) fun _ _ ↦ ensure_ne_error (corruptStorage_ne h)

/-! ### Statements -/

theorem insertEdges_ne_error (child : EventId) (first : ℕ) (parents : List EventId) :
    t.insertEdges child first parents ≠ .error error := by
  induction parents generalizing t first with
  | nil => exact ok_ne_error
  | cons parent rest ih =>
    exact bind_ne_error (bind_ne_error (ensure_ne_error (databaseUnavailable_ne h)) fun _ _ ↦
      ok_ne_error) fun _ _ ↦ ih _

theorem insertEventRows_ne_error (event : SignedEventV1) (wire : Bytes) :
    insertEventRows event wire t ≠ .error error :=
  bind_ne_error (bind_ne_error (ensure_ne_error (databaseUnavailable_ne h)) fun _ _ ↦ ok_ne_error)
    fun _ _ ↦ insertEdges_ne_error h _ _ _

theorem activateContext_ne_error (context : ContextId) (genesis : EventId) :
    t.activateContext context genesis ≠ .error error := by
  unfold Tables.activateContext
  dsimp only
  split_ifs
  · exact ok_ne_error
  · exact bind_ne_error (ensure_ne_error (databaseUnavailable_ne h)) fun _ _ ↦ ok_ne_error

end Rows

/-! ### Errors of the operations -/

theorem projectionCycle_above : ¬ StoreError.projectionCycle.OfRows := id

theorem staleHead_above (current : Option EventId) : ¬ (StoreError.staleHead current).OfRows := id

/-- A load that fails reports no cycle. -/
theorem loadVerifiedEvent_ne_cycle (id : EventId) :
    loadVerifiedEvent B t id ≠ .error .projectionCycle :=
  bind_ne_error (eventWire_ne_error projectionCycle_above id) fun _ _ ↦
    bind_ne_error (required_ne_error (by simp)) fun _ _ ↦
    bind_ne_error (mapError_ne_error fun _ ↦ by simp) fun _ _ ↦
    bind_ne_error (ensure_ne_error (by simp)) fun _ _ ↦
    bind_ne_error (validateStoredEvent_ne_error projectionCycle_above _) fun _ _ ↦ ok_ne_error

/-- A visit that fails reports no cycle. -/
theorem visitEvent_ne_cycle (context : ContextId) (limits : ProjectionLimits) (usage : Usage)
    (id : EventId) : visitEvent B t context limits usage id ≠ .error .projectionCycle :=
  bind_ne_error (loadVerifiedEvent_ne_cycle id) fun _ _ ↦
    bind_ne_error (ensure_ne_error (by simp)) fun _ _ ↦
    bind_ne_error (mapError_ne_error fun _ ↦ by simp) fun _ _ ↦
    bind_ne_error (ensure_ne_error (by simp)) fun _ _ ↦ ok_ne_error

/-- A policy check that fails reports no stale head. -/
theorem checkPolicy_ne_stale (event : SignedEventV1) (current : Option EventId) :
    checkPolicy B event t ≠ .error (.staleHead current) :=
  bind_ne_error (contextRow_ne_error (staleHead_above current) _) fun _ _ ↦
    bind_ne_error (required_ne_error (by simp)) fun _ _ ↦
    bind_ne_error (ensure_ne_error (by simp)) fun _ _ ↦
    bind_ne_error (ensure_ne_error (by simp)) fun _ _ ↦
    bind_ne_error (checkEach_ne_error (fun _ ↦
      bind_ne_error (authoritativeEventContext_ne_error (staleHead_above current) _) fun _ _ ↦
        bind_ne_error (required_ne_error (by simp)) fun _ _ ↦ ensure_ne_error (by simp)) _)
      fun _ _ ↦ ok_ne_error

/-- A record that fails reports no stale head. -/
theorem recordEvent_ne_stale (event verified : SignedEventV1) (wire : Bytes) (row : EventId × ℤ)
    (current : Option EventId) :
    recordEvent B event verified wire row t ≠ .error (.staleHead current) := by
  refine bind_ne_error (eventWire_ne_error (staleHead_above current) _) fun existing _ ↦
    bind_ne_error (ensure_ne_error (by simp)) fun _ _ ↦ bind_ne_error ?_ fun stored _ ↦
    bind_ne_error ?_ fun _ _ ↦ ok_ne_error
  · cases existing with
    | none =>
      exact bind_ne_error (insertEventRows_ne_error (staleHead_above current) _ _) fun _ _ ↦
        ok_ne_error
    | some storedWire =>
      exact bind_ne_error (ensure_ne_error (by simp)) fun _ _ ↦
        bind_ne_error (validateStoredEvent_ne_error (staleHead_above current) _) fun _ _ ↦
          ok_ne_error
  · unfold activateIfPending
    split_ifs
    · exact bind_ne_error (activateContext_ne_error (staleHead_above current) _ _) fun _ _ ↦
        bind_ne_error (ensure_ne_error (by simp)) fun _ _ ↦ ok_ne_error
    · exact ok_ne_error

end ContextMesh.Store
