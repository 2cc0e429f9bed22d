import ContextMesh.Ledger.Statements

/-!
Admission on the tables of a well-formed ledger. The admission of an event succeeds exactly when the
ledger admits it and its ref movement is allowed, and then it records the event unless it is stored
already. The import of a bundle event, a separate piece of code, does the same.
-/

set_option autoImplicit false
set_option relaxedAutoImplicit false

namespace ContextMesh.Store

open Checked Ordered Keyed Contract

variable {B : Boundary}

namespace StoredEvent

/-- An event that renders to the wire of a stored event has its identity and its columns. -/
theorem columns {event : SignedEventV1} {e : StoredEvent B} (h : event.toWire B = .ok e.wire) :
    event.eventId = e.id ∧ event.body.context = e.context ∧ event.body.author = e.author ∧
      event.body.kind = e.kind ∧ event.body.parents = e.parents := by
  obtain ⟨-, hid, hcontext, hauthor, hkind, hparents⟩ :=
    SignedEventV1.fromWire_toWire h e.authentic.parses
  exact ⟨hid.symm, hcontext.symm, hauthor.symm, hkind.symm, hparents.symm⟩

end StoredEvent

namespace Registration

theorem state_eq_zero {r : Registration} : r.state = 0 ↔ r.active = false := by
  cases hactive : r.active <;> simp [state, hactive]

theorem state_eq_one {r : Registration} : r.state = 1 ↔ r.active = true := by
  cases hactive : r.active <;> simp [state, hactive]

end Registration

/-- The state of a ref that a movement expects. -/
def RefExpectation.current : RefExpectation → Option EventId
  | .absent => none
  | .head id => some id

/-- A ref movement for an event: nothing, a ref found at its new head, or a swap. -/
inductive Swaps (L : Ledger B) (id : EventId) : RefMutation → Ledger B → Bool → Prop
  | none : Swaps L id .none L false
  | applied {context : ContextId} {name : LocalRefName} {expected : RefExpectation}
      {newHead : EventId} (current : L.localHead context name = some newHead) :
      Swaps L id (.compareAndSwap context name expected newHead) L true
  | swapped {context : ContextId} {name : LocalRefName} {expected : RefExpectation}
      {newHead : EventId} (current : L.localHead context name = expected.current)
      (moved : L.localHead context name ≠ some newHead) :
      Swaps L id (.compareAndSwap context name expected newHead)
        (L.setLocal ⟨context, name, id⟩) false

namespace Ledger

variable {L : Ledger B}

theorem WellKeyed.holds_iff (h : L.WellKeyed) {context : ContextId} {id : EventId} :
    L.Holds context id ↔ (L.find id).map StoredEvent.context = some context := by
  rw [Option.map_eq_some_iff]
  constructor
  · rintro ⟨e, he, hid, hcontext⟩
    exact ⟨e, h.find_eq_some.mpr ⟨he, hid⟩, hcontext⟩
  · rintro ⟨e, hfind, hcontext⟩
    obtain ⟨he, hid⟩ := h.find_eq_some.mp hfind
    exact ⟨e, he, hid, hcontext⟩

theorem Holds.find_ne_none {context : ContextId} {id : EventId} (h : L.Holds context id) :
    L.find id ≠ none := by
  obtain ⟨e, he, hid, -⟩ := h
  exact fun hnone ↦ find_eq_none.mp hnone e he hid

theorem WellFormed.registration_of_holds (h : L.WellFormed) {context : ContextId} {id : EventId}
    (hholds : L.Holds context id) : L.registration context ≠ none := by
  obtain ⟨e, he, -, rfl⟩ := hholds
  obtain ⟨r, hr, -⟩ := h.registration_of_mem he
  simp [hr]

/-- An unknown context has no branch. -/
theorem WellFormed.localHead_of_fresh (h : L.WellFormed) {context : ContextId}
    (hfresh : L.registration context = none) (name : LocalRefName) :
    L.localHead context name = none := by
  rw [localHead_eq_none]
  rintro ref href ⟨hsame, -⟩
  exact h.registration_of_holds (h.localTargets ref href) (hsame ▸ hfresh)

theorem requireInContext_tables (h : L.WellKeyed) {context : ContextId} {id : EventId} {u : Unit} :
    requireInContext B context L.tables id = .ok u ↔ L.Holds context id := by
  rw [requireInContext, authoritativeEventContext_tables h, ok_bind, h.holds_iff]
  cases (L.find id).map StoredEvent.context with
  | none => simp
  | some found => simp

theorem checkParents_tables (h : L.WellKeyed) {context : ContextId} {parents : List EventId} :
    checkEach (requireInContext B context L.tables) parents = .ok () ↔
      ∀ parent ∈ parents, L.Holds context parent := by
  simp only [checkEach_eq_ok, requireInContext_tables h]

/-- The ref movement of a stored event of the context. -/
theorem applyRefMutation_tables (h : L.WellFormed) {id : EventId} {mutation : RefMutation}
    (hholds : ∀ context name expected newHead,
      mutation = .compareAndSwap context name expected newHead → L.Holds context id)
    {t : Tables} {applied : Bool} :
    applyRefMutation id mutation L.tables = .ok (t, applied) ↔
      ∃ L', Swaps L id mutation L' applied ∧ t = L'.tables := by
  cases mutation with
  | none =>
    rw [applyRefMutation, Except.ok.injEq, Prod.mk.injEq]
    constructor
    · rintro ⟨rfl, rfl⟩
      exact ⟨L, .none, rfl⟩
    · rintro ⟨L', hswaps, rfl⟩
      cases hswaps
      exact ⟨rfl, rfl⟩
  | compareAndSwap context name expected newHead =>
    have hid := hholds context name expected newHead rfl
    rw [applyRefMutation, localRefId_tables h.toWellKeyed, ok_bind]
    by_cases hcurrent : L.localHead context name = some newHead
    · rw [if_pos hcurrent, Except.ok.injEq, Prod.mk.injEq]
      constructor
      · rintro ⟨rfl, rfl⟩
        exact ⟨L, .applied hcurrent, rfl⟩
      · rintro ⟨L', hswaps, rfl⟩
        cases hswaps with
        | applied current => exact ⟨rfl, rfl⟩
        | swapped current moved => exact absurd hcurrent moved
    · rw [if_neg hcurrent]
      have hswapped : (∃ L', Swaps L id (.compareAndSwap context name expected newHead) L' applied ∧
          t = L'.tables) ↔ L.localHead context name = expected.current ∧ applied = false ∧
            t = (L.setLocal ⟨context, name, id⟩).tables := by
        constructor
        · rintro ⟨L', hswaps, rfl⟩
          cases hswaps with
          | applied current => exact absurd current hcurrent
          | swapped current moved => exact ⟨current, rfl, rfl⟩
        · rintro ⟨hexpected, rfl, rfl⟩
          exact ⟨_, .swapped hexpected hcurrent, rfl⟩
      rw [hswapped]
      cases hhead : L.localHead context name with
      | none =>
        cases expected with
        | absent =>
          have hinsert := insertLocalRef_tables ⟨context, name, id⟩ hhead
            (h.registration_of_holds hid) hid.find_ne_none
          dsimp only at hinsert ⊢
          rw [hinsert, ok_bind, Except.ok.injEq, Prod.mk.injEq]
          constructor
          · rintro ⟨rfl, rfl⟩
            exact ⟨rfl, rfl, rfl⟩
          · rintro ⟨-, rfl, rfl⟩
            exact ⟨rfl, rfl⟩
        | head expected => simp [RefExpectation.current]
      | some current =>
        cases expected with
        | absent => simp [RefExpectation.current]
        | head expected =>
          dsimp only
          by_cases hsame : expected = current
          · subst hsame
            have hupdate := updateLocalRef_tables h.toWellKeyed ⟨context, name, id⟩ hhead
              hid.find_ne_none
            dsimp only at hupdate
            rw [if_pos rfl, hupdate, ok_bind]
            simp only [if_true, Except.ok.injEq, Prod.mk.injEq, RefExpectation.current, true_and]
            constructor
            · rintro ⟨rfl, rfl⟩
              exact ⟨rfl, rfl⟩
            · rintro ⟨rfl, rfl⟩
              exact ⟨rfl, rfl⟩
          · rw [if_neg hsame]
            simp [RefExpectation.current, Ne.symm hsame]

/-! ### The admission of one event -/

/-- The genesis of an active context is stored. -/
theorem WellFormed.find_genesis (h : L.WellFormed) {r : Registration} (hr : r ∈ L.registrations)
    (hactive : r.active = true) : L.find r.expected ≠ none := by
  obtain ⟨e, he, -, hid, -⟩ := h.genesis r hr hactive
  exact fun hnone ↦ find_eq_none.mp hnone e he hid

/-- The registration of an event that the ledger admits. -/
theorem Admits.registration (h : L.WellFormed) {e : StoredEvent B} (hadmits : L.Admits e) :
    ∃ r, L.registration e.context = some r ∧
      if r.active then IsGenesis r.expected e.event ∨
        ¬ (e.parents = [] ∨ e.kind = "context.genesis") else IsGenesis r.expected e.event := by
  obtain ⟨r, hr, hcontext, hgate⟩ := hadmits.registered
  exact ⟨r, h.registration_eq_some.mpr ⟨hr, hcontext⟩, hgate⟩

/-- An admitted event that is stored already is stored as it is, in an active context. -/
theorem Admits.stored (h : L.WellFormed) {e f : StoredEvent B} (hadmits : L.Admits e)
    (hf : L.find e.id = some f) : f = e ∧ e ∈ L.events := by
  obtain ⟨hmem, hid⟩ := h.find_eq_some.mp hf
  obtain rfl := StoredEvent.ext_wire (hadmits.sameWire f hmem hid)
  exact ⟨rfl, hmem⟩

theorem mem_admitted (h : L.WellFormed) {e : StoredEvent B} (hadmits : L.Admits e) :
    e ∈ (L.admitted e).events := by
  unfold admitted
  split_ifs with hfresh
  · exact List.mem_append_right _ (List.mem_singleton_self _)
  · obtain ⟨f, hf⟩ := Option.ne_none_iff_exists'.mp hfresh
    exact (hadmits.stored h hf).2

/-- The rows of a fresh admitted event, with the activation it may bring. -/
theorem insertEventRows_activate (h : L.WellFormed) {e : StoredEvent B} {r : Registration}
    (hr : L.registration e.context = some r) (hadmits : L.Admits e) (hfresh : L.find e.id = none) :
    ∃ rows, insertEventRows e.event e.wire L.tables = .ok rows ∧
      activateIfPending r.state e.context e.id rows = .ok (L.record e).tables := by
  obtain ⟨s, hs, hgate⟩ := hadmits.registration h
  obtain rfl : r = s := Option.some.inj (hr.symm.trans hs)
  refine ⟨_, insertEventRows_tables hfresh (by simp [hr])
    fun parent hparent ↦ (hadmits.parents parent hparent).find_ne_none, ?_⟩
  rw [activateIfPending]
  cases hactive : r.active with
  | false =>
    rw [if_pos (Registration.state_eq_zero.mpr hactive)]
    rw [hactive, if_neg Bool.false_ne_true] at hgate
    exact activate_tables h hr hactive hgate.1 hfresh
  | true =>
    have hstate : ¬ r.state = 0 := by
      rw [Registration.state_eq_zero, hactive]
      exact Bool.true_eq_false_eq_False
    rw [if_neg hstate, record_tables_of_active h.toWellKeyed hr hactive]

theorem insertEventRows_congr {event event' : SignedEventV1} (hid : event.eventId = event'.eventId)
    (hcontext : event.body.context = event'.body.context)
    (hauthor : event.body.author = event'.body.author)
    (hkind : event.body.kind = event'.body.kind)
    (hparents : event.body.parents = event'.body.parents) (wire : Bytes) (t : Tables) :
    insertEventRows event wire t = insertEventRows event' wire t := by
  rw [insertEventRows, insertEventRows, hid, hcontext, hauthor, hkind, hparents]

/-- The policy checks are the demands of the ledger, apart from the wire of a stored event. -/
theorem checkPolicy_tables (h : L.WellFormed) {event : SignedEventV1} {e : StoredEvent B}
    (hrender : event.toWire B = .ok e.wire) {row : EventId × ℤ} :
    checkPolicy B event L.tables = .ok row ↔ ∃ r, L.registration e.context = some r ∧
      row = (r.expected, r.state) ∧
      (if r.active then IsGenesis r.expected e.event ∨
        ¬ (e.parents = [] ∨ e.kind = "context.genesis") else IsGenesis r.expected e.event) ∧
      (e.context, e.author) ∈ L.authors ∧ ∀ parent ∈ e.parents, L.Holds e.context parent := by
  obtain ⟨hid, hcontext, hauthor, hkind, hparents⟩ := StoredEvent.columns hrender
  have hgenesis (expected : EventId) : IsGenesis expected event ↔ IsGenesis expected e.event := by
    rw [IsGenesis, IsGenesis, hid, hkind, hparents]
  rw [checkPolicy, hcontext, contextRow_tables h.toWellKeyed, ok_bind]
  cases hr : L.registration e.context with
  | none => simp
  | some r =>
    rw [Option.map_some, required_some, ok_bind]
    have hgate : (if r.state = 0 then IsGenesis r.expected event else IsGenesis r.expected event ∨
        ¬ (event.body.parents = [] ∨ event.body.kind = "context.genesis")) ↔
        (if r.active then IsGenesis r.expected e.event ∨
          ¬ (e.parents = [] ∨ e.kind = "context.genesis") else IsGenesis r.expected e.event) := by
      rw [hgenesis, hparents, hkind]
      cases hactive : r.active <;> simp [Registration.state, hactive]
    rw [unit_bind_eq_ok, ensure_eq_ok, hgate]
    simp only [unit_bind_eq_ok, ensure_eq_ok, hauthor, hparents,
      isAuthorized_tables h.toWellKeyed, decide_eq_true_eq, checkParents_tables h.toWellKeyed,
      Except.ok.injEq, Option.some.injEq, exists_eq_left']
    constructor
    · rintro ⟨hgate, hauthorized, hheld, rfl⟩
      exact ⟨rfl, hgate, hauthorized, hheld⟩
    · rintro ⟨rfl, hgate, hauthorized, hheld⟩
      exact ⟨hgate, hauthorized, hheld, rfl⟩

/-- Recording an allowed event demands only that a stored event of its identity has its wire. -/
theorem recordEvent_tables (h : L.WellFormed) {event : SignedEventV1} {e : StoredEvent B}
    (hrender : event.toWire B = .ok e.wire) {r : Registration}
    (hr : L.registration e.context = some r)
    (hgate : if r.active then IsGenesis r.expected e.event ∨
      ¬ (e.parents = [] ∨ e.kind = "context.genesis") else IsGenesis r.expected e.event)
    (hauthorized : (e.context, e.author) ∈ L.authors)
    (hheld : ∀ parent ∈ e.parents, L.Holds e.context parent) {recorded : Tables × Bool} :
    recordEvent B event e.event e.wire (r.expected, r.state) L.tables = .ok recorded ↔
      L.Admits e ∧ recorded = ((L.admitted e).tables, decide (L.find e.id = none)) := by
  obtain ⟨hid, hcontext, hauthor, hkind, hparents⟩ := StoredEvent.columns hrender
  obtain ⟨hmem, hregistered⟩ := h.registration_eq_some.mp hr
  have hadmits (hsame : ∀ f ∈ L.events, f.id = e.id → f.wire = e.wire) : L.Admits e :=
    ⟨⟨r, hmem, hregistered, hgate⟩, hauthorized, hheld, hsame⟩
  rw [recordEvent, hid, hcontext, eventWire_tables h.toWellKeyed, ok_bind]
  cases hfind : L.find e.id with
  | none =>
    have hadmits := hadmits fun f hf hfid ↦ absurd hfid (find_eq_none.mp hfind f hf)
    obtain ⟨rows, hinsert, hactivate⟩ := insertEventRows_activate h hr hadmits hfind
    have hgenesis : ¬ (r.state = 1 ∧ IsGenesis r.expected event ∧
        (none : Option (StoredEvent B)).map StoredEvent.wire = none) := by
      rintro ⟨hactive, hisGenesis, -⟩
      refine h.find_genesis hmem (Registration.state_eq_one.mp hactive) ?_
      rw [← hisGenesis.1, hid, hfind]
    have hinsert' : insertEventRows event e.wire L.tables = .ok rows := by
      rw [insertEventRows_congr hid hcontext hauthor hkind hparents, hinsert]
    rw [ensure_true hgenesis, ok_bind, Option.map_none, storeEvent, hinsert', ok_bind, ok_bind,
      hactivate, ok_bind, admitted, if_pos hfind, Except.ok.injEq]
    simp [hadmits, eq_comm]
  | some f =>
    obtain ⟨hf, hfid⟩ := h.find_eq_some.mp hfind
    rw [Option.map_some, ensure_true (by simp), ok_bind, storeEvent]
    by_cases hwire : f.wire = e.wire
    · obtain rfl := StoredEvent.ext_wire hwire
      have hadmits := hadmits fun g hg hgid ↦ by
        rw [h.event_eq_of_id hg hf (hgid.trans hfid.symm)]
      have hactive : r.active = true := h.active_of_mem hf hr
      have hstate : ¬ r.state = 0 := by
        rw [Registration.state_eq_zero, hactive]
        exact Bool.true_eq_false_eq_False
      rw [ensure_true rfl, ok_bind, validateStoredEvent_tables h.toWellKeyed hf, ok_bind, ok_bind,
        activateIfPending, if_neg hstate, ok_bind, admitted, hfind]
      simp [hadmits, eq_comm]
    · rw [ensure_false hwire, error_bind, error_bind]
      refine iff_of_false (fun hok ↦ by cases hok) fun hok ↦ hwire (hok.1.sameWire f hf hfid)

/-- Admission succeeds exactly when the ledger admits the event and its ref movement is allowed. -/
theorem admit_eq_ok (h : L.WellFormed) {event : SignedEventV1} {mutation : RefMutation}
    {t : Tables} {status : AdmissionStatus} :
    admitEvent B event mutation L.tables = .ok (t, status) ↔
      ∃ e : StoredEvent B, event.toWire B = .ok e.wire ∧ mutation.Targets event ∧ L.Admits e ∧
        ∃ L' applied, Swaps (L.admitted e) e.id mutation L' applied ∧ t = L'.tables ∧
          status = if applied then .alreadyApplied
            else if L.find e.id = none then .inserted else .alreadyPresent := by
  have hafter (e : StoredEvent B) (hrender : event.toWire B = .ok e.wire)
      (htargets : mutation.Targets event) (hadmits : L.Admits e) (moved : Tables × Bool) :
      applyRefMutation event.eventId mutation (L.admitted e).tables = .ok moved ↔
        ∃ L', Swaps (L.admitted e) e.id mutation L' moved.2 ∧ moved.1 = L'.tables := by
    obtain ⟨hid, hcontext, -⟩ := StoredEvent.columns hrender
    rw [hid]
    refine applyRefMutation_tables (h.admitted hadmits) fun context name expected newHead hcas ↦ ?_
    subst hcas
    exact ⟨e, mem_admitted h hadmits, rfl, hcontext.symm.trans htargets.1.symm⟩
  constructor
  · intro hok
    obtain ⟨-, hok⟩ := unit_bind_eq_ok.mp hok
    obtain ⟨wire, hwire, hok⟩ := bind_eq_ok.mp hok
    obtain ⟨verified, hverified, hok⟩ := bind_eq_ok.mp hok
    obtain ⟨htargets, hok⟩ := unit_bind_eq_ok.mp hok
    obtain ⟨row, hrow, hok⟩ := bind_eq_ok.mp hok
    obtain ⟨recorded, hrecorded, hok⟩ := bind_eq_ok.mp hok
    obtain ⟨moved, hmoved, hok⟩ := bind_eq_ok.mp hok
    rw [mapError_eq_ok] at hwire hverified
    rw [ensure_eq_ok] at htargets
    rw [Except.ok.injEq, Prod.mk.injEq] at hok
    let e : StoredEvent B := ⟨verified, wire, (SignedEventV1.fromWire_toWire hwire hverified).1⟩
    obtain ⟨r, hr, rfl, hgate, hauthorized, hheld⟩ := (checkPolicy_tables h (e := e) hwire).mp hrow
    obtain ⟨hadmits, rfl⟩ :=
      (recordEvent_tables h (e := e) hwire hr hgate hauthorized hheld).mp hrecorded
    obtain ⟨L', hswaps, hL'⟩ := (hafter e hwire htargets hadmits moved).mp hmoved
    refine ⟨e, hwire, htargets, hadmits, L', moved.2, hswaps, hok.1 ▸ hL', ?_⟩
    rw [← hok.2]
    simp only [decide_eq_true_eq]
  · rintro ⟨e, hrender, htargets, hadmits, L', applied, hswaps, rfl, rfl⟩
    obtain ⟨r, hr, hgate⟩ := hadmits.registration h
    have hpolicy := (checkPolicy_tables h (e := e) hrender).mpr
      ⟨r, hr, rfl, hgate, hadmits.authorized, hadmits.parents⟩
    have hrecorded := (recordEvent_tables h (e := e) hrender hr hgate hadmits.authorized
      hadmits.parents).mpr ⟨hadmits, rfl⟩
    have hmoved := (hafter e hrender htargets hadmits (L'.tables, applied)).mpr
      ⟨L', hswaps, rfl⟩
    rw [admitEvent, (SignedEventV1.toWire_eq_ok.mp hrender).1, mapError_ok, ok_bind, hrender,
      mapError_ok, ok_bind, e.authentic.parses, mapError_ok, ok_bind, ensure_true htargets, ok_bind,
      hpolicy, ok_bind, hrecorded, ok_bind, hmoved, ok_bind]
    simp only [decide_eq_true_eq]

end Ledger

end ContextMesh.Store
