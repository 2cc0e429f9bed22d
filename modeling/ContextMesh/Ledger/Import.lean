import ContextMesh.Ledger.Admission

/-!
Bundle import on the tables of a well-formed ledger: the events of the bundle are admitted in order,
then its advertised refs are set.
-/

set_option autoImplicit false
set_option relaxedAutoImplicit false

namespace ContextMesh.Store

open Checked Ordered Keyed Contract Relation

variable {B : Boundary}

namespace Ledger

variable {L : Ledger B}

/-! ### Events -/

/-- Admits events in order. -/
def admitAll (L : Ledger B) (es : List (StoredEvent B)) : Ledger B := es.foldl admitted L

/-- The ledger admits the events in order. -/
def AdmitsAll : Ledger B → List (StoredEvent B) → Prop
  | _, [] => True
  | L, e :: rest => L.Admits e ∧ (L.admitted e).AdmitsAll rest

/-- The number of events that are new when they are admitted in order. -/
def newCount : Ledger B → List (StoredEvent B) → ℕ
  | _, [] => 0
  | L, e :: rest => (if L.find e.id = none then 1 else 0) + (L.admitted e).newCount rest

theorem admitAll_append (before after : List (StoredEvent B)) :
    L.admitAll (before ++ after) = (L.admitAll before).admitAll after := List.foldl_append

theorem admitsAll_append {before after : List (StoredEvent B)} :
    L.AdmitsAll (before ++ after) ↔ L.AdmitsAll before ∧ (L.admitAll before).AdmitsAll after := by
  induction before generalizing L with
  | nil => exact (and_iff_right trivial).symm
  | cons e rest ih =>
    rw [List.cons_append, AdmitsAll, AdmitsAll, ih, and_assoc]
    rfl

theorem newCount_le (L : Ledger B) (es : List (StoredEvent B)) : L.newCount es ≤ es.length := by
  induction es generalizing L with
  | nil => exact le_rfl
  | cons e rest ih =>
    have := ih (L.admitted e)
    rw [newCount, List.length_cons]
    split_ifs <;> omega

theorem WellFormed.admitAll (h : L.WellFormed) {es : List (StoredEvent B)}
    (hadmits : L.AdmitsAll es) : (L.admitAll es).WellFormed := by
  induction es generalizing L with
  | nil => exact h
  | cons e rest ih => exact ih (h.admitted hadmits.1) hadmits.2

/-- Admitting an event leaves its context active. -/
theorem registration_admitted (h : L.WellFormed) {e : StoredEvent B} {r : Registration}
    (hr : L.registration e.context = some r) (hadmits : L.Admits e) :
    (L.admitted e).registration e.context = some { r with active := true } := by
  rw [(h.admitted hadmits).registration_eq_some]
  obtain ⟨hmem, hcontext⟩ := h.registration_eq_some.mp hr
  refine ⟨?_, hcontext⟩
  unfold admitted
  split_ifs with hfresh
  · have := mem_registrations_record (e := e) hmem
    rwa [if_pos hcontext] at this
  · obtain ⟨f, hf⟩ := Option.ne_none_iff_exists'.mp hfresh
    rw [← h.active_of_mem (hadmits.stored h hf).2 hr]
    exact hmem

/-- The import refuses an event for the state of its context unless the registration lets it in. -/
theorem not_refused_iff {r : Registration} {e : StoredEvent B} :
    (¬ (r.state = 0 ∧ ¬ IsGenesis r.expected e.event) ∧
      ¬ (r.state = 1 ∧ ¬ IsGenesis r.expected e.event ∧
        (e.parents = [] ∨ e.kind = "context.genesis"))) ↔
      (if r.active then IsGenesis r.expected e.event ∨
        ¬ (e.parents = [] ∨ e.kind = "context.genesis") else IsGenesis r.expected e.event) := by
  cases hactive : r.active <;> simp only [Registration.state, hactive]
  · simp
  · simp only [if_true, one_ne_zero, false_and, not_false_eq_true, true_and]
    tauto

/-- An admitted event that is not stored yet is recorded, and its context is active after it. -/
theorem importRows_none (h : L.WellFormed) {e : StoredEvent B} {r : Registration}
    (hr : L.registration e.context = some r) (hadmits : L.Admits e) (hfind : L.find e.id = none)
    (inserted present : ℕ) :
    (do
      let next ← importRows B e.context r.expected ⟨L.tables, r.state, inserted, present⟩ e.event
        e.wire none
      if r.state = 0 then do
        let activated ← activate e.context e.id next.tables
        .ok { next with tables := activated, state := 1 }
      else .ok next) = (.ok ⟨(L.record e).tables, 1, inserted + 1, present⟩ :
        Except StoreError ImportProgress) := by
  have hmem := (h.registration_eq_some.mp hr).1
  have hnot : ¬ (r.state = 1 ∧ IsGenesis r.expected e.event) := fun hstored ↦
    h.find_genesis hmem (Registration.state_eq_one.mp hstored.1) (hstored.2.1 ▸ hfind)
  obtain ⟨rows, hinsert, hactivate⟩ := insertEventRows_activate h hr hadmits hfind
  obtain ⟨events, hevents, hedges⟩ := bind_eq_ok.mp hinsert
  rw [importRows, if_neg hnot, hevents, ok_bind, hedges, ok_bind, ok_bind]
  dsimp only
  rw [activateIfPending] at hactivate
  split_ifs with hstate
  · rw [if_pos hstate] at hactivate
    rw [hactivate, ok_bind]
  · rw [if_neg hstate, Except.ok.injEq] at hactivate
    have hone : r.state = 1 := by
      rw [Registration.state_eq_one]
      simpa [Registration.state_eq_zero] using hstate
    rw [hactivate, hone]

/-- A stored event is only counted, and it has to be the imported one. -/
theorem importRows_some (h : L.WellFormed) {e f : StoredEvent B} {r : Registration}
    (hr : L.registration e.context = some r) (hf : f ∈ L.events) {inserted present : ℕ}
    {last : ImportProgress} :
    (do
      let next ← importRows B e.context r.expected ⟨L.tables, r.state, inserted, present⟩ e.event
        e.wire (some f.wire)
      if r.state = 0 then do
        let activated ← activate e.context e.id next.tables
        .ok { next with tables := activated, state := 1 }
      else .ok next) = (.ok last : Except StoreError ImportProgress) ↔
        f = e ∧ last = ⟨L.tables, 1, inserted, present + 1⟩ := by
  constructor
  · intro hok
    obtain ⟨progress, hprogress, hlast⟩ := bind_eq_ok.mp hok
    rw [importRows] at hprogress
    split_ifs at hprogress with hcorrupt
    obtain ⟨hwire, hchecked⟩ := unit_bind_eq_ok.mp hprogress
    obtain ⟨-, hcounted⟩ := unit_bind_eq_ok.mp hchecked
    rw [ensure_eq_ok] at hwire
    rw [Except.ok.injEq] at hcounted
    obtain rfl := StoredEvent.ext_wire hwire
    have hone : r.state = 1 := Registration.state_eq_one.mpr (h.active_of_mem hf hr)
    rw [← hcounted, hone, if_neg one_ne_zero, Except.ok.injEq] at hlast
    exact ⟨rfl, hlast.symm⟩
  · rintro ⟨rfl, rfl⟩
    have hone : r.state = 1 := Registration.state_eq_one.mpr (h.active_of_mem hf hr)
    rw [importRows, hone, if_neg fun hpending ↦ one_ne_zero hpending.1, ensure_true rfl, ok_bind,
      validateStoredEvent_tables h.toWellKeyed hf, ok_bind, ok_bind, if_neg one_ne_zero]

/-- Importing an event of a bundle succeeds exactly when the ledger admits it. -/
theorem importEvent_eq_ok (h : L.WellFormed) {e : StoredEvent B} {r : Registration}
    (hr : L.registration e.context = some r) {inserted present : ℕ} {next : ImportProgress} :
    importEvent B e.context r.expected ⟨L.tables, r.state, inserted, present⟩ e.event = .ok next ↔
      L.Admits e ∧ next = ⟨(L.admitted e).tables, 1,
        inserted + (if L.find e.id = none then 1 else 0),
        present + (if L.find e.id = none then 0 else 1)⟩ := by
  obtain ⟨hmem, hregistered⟩ := h.registration_eq_some.mp hr
  have hdemands (hadmits : L.Admits e) : if r.active then IsGenesis r.expected e.event ∨
      ¬ (e.parents = [] ∨ e.kind = "context.genesis") else IsGenesis r.expected e.event := by
    obtain ⟨s, hs, hgate⟩ := hadmits.registration h
    obtain rfl : r = s := Option.some.inj (hr.symm.trans hs)
    exact hgate
  rw [importEvent]
  dsimp only
  simp only [unit_bind_eq_ok, ensure_eq_ok, isAuthorized_tables h.toWellKeyed, decide_eq_true_eq,
    checkParents_tables h.toWellKeyed, e.authentic.renders, mapError_ok, ok_bind,
    eventWire_tables h.toWellKeyed]
  rw [← and_assoc, not_refused_iff]
  cases hfind : L.find e.id with
  | none =>
    rw [Option.map_none, if_pos rfl, if_pos rfl, admitted, if_pos hfind]
    constructor
    · rintro ⟨hgate, hauthorized, hheld, hok⟩
      have hadmits : L.Admits e := ⟨⟨r, hmem, hregistered, hgate⟩, hauthorized, hheld,
        fun f hf hfid ↦ absurd hfid (find_eq_none.mp hfind f hf)⟩
      rw [importRows_none h hr hadmits hfind, Except.ok.injEq] at hok
      exact ⟨hadmits, hok.symm⟩
    · rintro ⟨hadmits, rfl⟩
      exact ⟨hdemands hadmits, hadmits.authorized, hadmits.parents,
        importRows_none h hr hadmits hfind inserted present⟩
  | some f =>
    obtain ⟨hf, hfid⟩ := h.find_eq_some.mp hfind
    rw [Option.map_some, admitted, hfind]
    simp only [reduceCtorEq, if_false, add_zero]
    constructor
    · rintro ⟨hgate, hauthorized, hheld, hok⟩
      obtain ⟨rfl, rfl⟩ := (importRows_some h hr hf).mp hok
      refine ⟨⟨⟨r, hmem, hregistered, hgate⟩, hauthorized, hheld, fun g hg hgid ↦ ?_⟩, rfl⟩
      rw [h.event_eq_of_id hg hf hgid]
    · rintro ⟨hadmits, rfl⟩
      obtain ⟨rfl, -⟩ := hadmits.stored h hfind
      exact ⟨hdemands hadmits, hadmits.authorized, hadmits.parents,
        (importRows_some h hr hf).mpr ⟨rfl, rfl⟩⟩

/-- Importing the events of a bundle succeeds exactly when the ledger admits them in order. -/
theorem importEvents_eq_ok (h : L.WellFormed) {context : ContextId} {r : Registration}
    (hr : L.registration context = some r) {es : List (StoredEvent B)}
    (hcontext : ∀ e ∈ es, e.context = context) (inserted present : ℕ) {final : ImportProgress} :
    foldEach (importEvent B context r.expected) ⟨L.tables, r.state, inserted, present⟩
        (es.map StoredEvent.event) = .ok final ↔
      L.AdmitsAll es ∧ final = ⟨(L.admitAll es).tables, if es = [] then r.state else 1,
        inserted + L.newCount es, present + (es.length - L.newCount es)⟩ := by
  induction es generalizing L r inserted present with
  | nil => simp [foldEach, AdmitsAll, admitAll, newCount, eq_comm]
  | cons e rest ih =>
    obtain rfl := hcontext e List.mem_cons_self
    have hrest : ∀ f ∈ rest, f.context = e.context := fun f hf ↦
      hcontext f (List.mem_cons_of_mem _ hf)
    simp only [List.map_cons, foldEach, bind_eq_ok, importEvent_eq_ok h hr, AdmitsAll]
    have hnext (hadmits : L.Admits e) {i p : ℕ} := ih (h.admitted hadmits)
      (registration_admitted h hr hadmits) hrest i p
    have hstate : ({ r with active := true } : Registration).state = 1 := by
      simp [Registration.state]
    simp only [hstate, ite_self] at hnext
    have hcounts : ∀ i p : ℕ, (⟨((L.admitted e).admitAll rest).tables, 1,
        i + (if L.find e.id = none then 1 else 0) + (L.admitted e).newCount rest,
        p + (if L.find e.id = none then 0 else 1) +
          (rest.length - (L.admitted e).newCount rest)⟩ : ImportProgress) =
        ⟨(L.admitAll (e :: rest)).tables, if e :: rest = [] then r.state else 1,
          i + L.newCount (e :: rest),
          p + ((e :: rest).length - L.newCount (e :: rest))⟩ := by
      intro i p
      have hle := newCount_le (L.admitted e) rest
      rw [if_neg (List.cons_ne_nil _ _), ImportProgress.mk.injEq]
      refine ⟨rfl, rfl, ?_, ?_⟩
      · rw [newCount]
        omega
      · rw [newCount, List.length_cons]
        split_ifs <;> omega
    constructor
    · rintro ⟨next, ⟨hadmits, rfl⟩, hok⟩
      obtain ⟨hall, rfl⟩ := (hnext hadmits).mp hok
      exact ⟨⟨hadmits, hall⟩, hcounts inserted present⟩
    · rintro ⟨⟨hadmits, hall⟩, rfl⟩
      exact ⟨_, ⟨hadmits, rfl⟩, (hnext hadmits).mpr ⟨hall, (hcounts inserted present).symm⟩⟩

/-! ### Refs -/

/-- Sets a remote ref unless it is there already. -/
def tracked (L : Ledger B) (peer : PeerName) (context : ContextId) (item : AdvertisedRef) :
    Ledger B :=
  if L.remoteHead peer context item.name = some item.head then L
  else L.setRemote ⟨peer, context, item.name, item.head⟩

def trackAll (L : Ledger B) (peer : PeerName) (context : ContextId) (refs : List AdvertisedRef) :
    Ledger B := refs.foldl (fun L item ↦ L.tracked peer context item) L

/-- The number of remote refs that change when they are set in order. -/
def changedCount (peer : PeerName) (context : ContextId) :
    Ledger B → List AdvertisedRef → ℕ
  | _, [] => 0
  | L, item :: rest => (if L.remoteHead peer context item.name = some item.head then 0 else 1) +
    changedCount peer context (L.tracked peer context item) rest

theorem tracked_events (peer : PeerName) (context : ContextId) (item : AdvertisedRef) :
    (L.tracked peer context item).events = L.events := by
  unfold tracked
  split_ifs <;> rfl

theorem WellFormed.tracked (h : L.WellFormed) {peer : PeerName} {context : ContextId}
    {item : AdvertisedRef} (hholds : L.Holds context item.head) :
    (L.tracked peer context item).WellFormed := by
  unfold Ledger.tracked
  split_ifs
  · exact h
  · exact h.setRemote hholds

theorem importRef_eq_ok (h : L.WellFormed) {peer : PeerName} {context : ContextId} {count : ℕ}
    {item : AdvertisedRef} {next : Tables × ℕ} :
    importRef B peer context (L.tables, count) item = .ok next ↔ L.Holds context item.head ∧
      next = ((L.tracked peer context item).tables,
        count + if L.remoteHead peer context item.name = some item.head then 0 else 1) := by
  rw [importRef, authoritativeEventContext_tables h.toWellKeyed, ok_bind, unit_bind_eq_ok,
    ensure_eq_ok, ← h.holds_iff, remoteRefId_tables h.toWellKeyed, ok_bind]
  refine and_congr_right fun hholds ↦ ?_
  unfold Ledger.tracked
  split_ifs with hcurrent
  · rw [Except.ok.injEq]
    simp [eq_comm]
  · have hupsert := upsertRemoteRef_tables ⟨peer, context, item.name, item.head⟩
      (h.registration_of_holds hholds) hholds.find_ne_none
    dsimp only at hupsert ⊢
    rw [hupsert, ok_bind, Except.ok.injEq]
    simp [eq_comm]

theorem importRefs_eq_ok (h : L.WellFormed) {peer : PeerName} {context : ContextId} {count : ℕ}
    {refs : List AdvertisedRef} {final : Tables × ℕ} :
    foldEach (importRef B peer context) (L.tables, count) refs = .ok final ↔
      (∀ item ∈ refs, L.Holds context item.head) ∧
        final = ((L.trackAll peer context refs).tables,
          count + L.changedCount peer context refs) := by
  induction refs generalizing L count with
  | nil => simp [foldEach, trackAll, changedCount, eq_comm]
  | cons item rest ih =>
    simp only [foldEach, bind_eq_ok, importRef_eq_ok h, List.forall_mem_cons]
    have hsame (id : EventId) :
        (L.tracked peer context item).Holds context id ↔ L.Holds context id := by
      rw [Holds, Holds, tracked_events]
    constructor
    · rintro ⟨next, ⟨hholds, rfl⟩, hok⟩
      obtain ⟨hall, rfl⟩ := (ih (h.tracked hholds)).mp hok
      refine ⟨⟨hholds, fun other hother ↦ (hsame _).mp (hall other hother)⟩, ?_⟩
      rw [changedCount, ← add_assoc]
      rfl
    · rintro ⟨⟨hholds, hall⟩, rfl⟩
      refine ⟨_, ⟨hholds, rfl⟩, (ih (h.tracked hholds)).mpr
        ⟨fun other hother ↦ (hsame _).mpr (hall other hother), ?_⟩⟩
      rw [changedCount, ← add_assoc]
      rfl

/-! ### The whole import -/

/-- The import of a checked bundle of authentic events. -/
theorem importBundleValue_eq_ok (h : L.WellFormed) {peer : PeerName} {bundle : BundleV1 B}
    {es : List (StoredEvent B)} (hes : bundle.events = es.map StoredEvent.event)
    (hcontext : ∀ e ∈ es, e.context = bundle.context) {t : Tables} {report : ImportReport} :
    importBundleValue peer bundle L.tables = .ok (t, report) ↔
      L.registration bundle.context ≠ none ∧ L.AdmitsAll es ∧
        (∀ item ∈ bundle.refs, (L.admitAll es).Holds bundle.context item.head) ∧
        t = ((L.admitAll es).trackAll peer bundle.context bundle.refs).tables ∧
        report = ⟨L.newCount es, es.length - L.newCount es,
          (L.admitAll es).changedCount peer bundle.context bundle.refs⟩ := by
  rw [importBundleValue, contextRow_tables h.toWellKeyed, ok_bind, hes]
  cases hr : L.registration bundle.context with
  | none => simp
  | some r =>
    rw [Option.map_some, required_some, ok_bind]
    dsimp only
    simp only [bind_eq_ok, importEvents_eq_ok h hr hcontext]
    constructor
    · rintro ⟨imported, ⟨hall, rfl⟩, hok⟩
      obtain ⟨updated, hupdated, hok⟩ := hok
      obtain ⟨hheld, rfl⟩ := (importRefs_eq_ok (h.admitAll hall)).mp hupdated
      rw [Except.ok.injEq, Prod.mk.injEq] at hok
      refine ⟨by simp, hall, hheld, hok.1.symm, ?_⟩
      rw [← hok.2]
      simp
    · rintro ⟨-, hall, hheld, rfl, rfl⟩
      exact ⟨_, ⟨hall, rfl⟩, _, (importRefs_eq_ok (h.admitAll hall)).mpr ⟨hheld, rfl⟩, by simp⟩

/-! ### The changes of an import -/

theorem Steps.admitted {e : StoredEvent B} (hadmits : L.Admits e) :
    Steps (· = .record e.context e.id) L (L.admitted e) := by
  unfold Ledger.admitted
  split_ifs with hfresh
  · exact .one (.record hadmits hfresh) rfl
  · exact .refl

theorem Steps.admitAll (h : L.WellFormed) {es : List (StoredEvent B)} (hall : L.AdmitsAll es) :
    Steps (fun change ↦ ∃ e ∈ es, change = .record e.context e.id) L (L.admitAll es) := by
  induction es generalizing L with
  | nil => exact .refl
  | cons e rest ih =>
    refine ReflTransGen.trans ((Steps.admitted hall.1).mono fun change hchange ↦
      ⟨e, List.mem_cons_self, hchange⟩) ?_
    exact (ih (h.admitted hall.1) hall.2).mono fun change ⟨f, hf, hchange⟩ ↦
      ⟨f, List.mem_cons_of_mem _ hf, hchange⟩

theorem Steps.trackAll (h : L.WellFormed) (peer : PeerName) {context : ContextId}
    {refs : List AdvertisedRef} (hheld : ∀ item ∈ refs, L.Holds context item.head) :
    Steps (fun change ↦ ∃ item ∈ refs, change = .track peer context item.name item.head) L
      (L.trackAll peer context refs) := by
  induction refs generalizing L with
  | nil => exact .refl
  | cons item rest ih =>
    have hitem := hheld item List.mem_cons_self
    have hafter : (L.tracked peer context item).WellFormed := h.tracked hitem
    have hrest := ih hafter fun other hother ↦ by
      rw [Holds, tracked_events]
      exact hheld other (List.mem_cons_of_mem _ hother)
    refine ReflTransGen.trans ?_ (hrest.mono fun change ⟨other, hother, hchange⟩ ↦
      ⟨other, List.mem_cons_of_mem _ hother, hchange⟩)
    unfold Ledger.tracked
    split_ifs
    · exact .refl
    · exact .single ⟨_, ⟨item, List.mem_cons_self, rfl⟩, .track hitem⟩

end Ledger

end ContextMesh.Store
