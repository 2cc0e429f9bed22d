import ContextMesh.Ledger.Batch

/-!
Order independence of admission. Whatever calls deliver a set of events to a store, in whatever
order and batches, with repeats and with failing attempts between them, the store ends with the same
events, edges and context rows.
-/

set_option autoImplicit false
set_option relaxedAutoImplicit false

namespace ContextMesh.Store

open Checked Ordered Keyed Contract

variable {B : Boundary}

/-! ### What a delivery leaves -/

namespace Ledger

variable {L L' L'' : Ledger B} {es fs : List (StoredEvent B)}

/-- The second ledger is the first with the events: they are stored, their contexts are active, and
nothing else but refs has changed. -/
structure Absorbs (L : Ledger B) (es : List (StoredEvent B)) (L' : Ledger B) : Prop where
  events : ∀ f, f ∈ L'.events ↔ f ∈ L.events ∨ f ∈ es
  registrations : L'.registrations = L.registrations.map fun r ↦
    if ∃ e ∈ es, e.context = r.context then { r with active := true } else r
  authors : L'.authors = L.authors

theorem Absorbs.refl (L : Ledger B) : Absorbs L [] L where
  events f := by simp
  registrations := by simp
  authors := rfl

theorem Absorbs.trans (h : Absorbs L es L') (h' : Absorbs L' fs L'') :
    Absorbs L (es ++ fs) L'' where
  events f := by
    rw [h'.events, h.events, List.mem_append, or_assoc]
  registrations := by
    rw [h'.registrations, h.registrations, List.map_map]
    refine List.map_congr_left fun r _ ↦ ?_
    have happend : (∃ e ∈ es ++ fs, e.context = r.context) ↔
        (∃ e ∈ es, e.context = r.context) ∨ ∃ e ∈ fs, e.context = r.context := by
      simp only [List.mem_append, or_and_right, exists_or]
    simp only [Function.comp_apply, happend]
    by_cases hfirst : ∃ e ∈ es, e.context = r.context
    · simp only [if_pos hfirst, if_pos (Or.inl hfirst : (∃ e ∈ es, _) ∨ ∃ e ∈ fs, _), ite_self]
    · simp only [if_neg hfirst, or_iff_right hfirst]
  authors := h'.authors.trans h.authors

/-- Refs do not matter to what is absorbed. -/
theorem Absorbs.congr (h : Absorbs L es L') (hevents : L''.events = L'.events)
    (hregistrations : L''.registrations = L'.registrations) (hauthors : L''.authors = L'.authors) :
    Absorbs L es L'' where
  events f := by
    rw [hevents, h.events]
  registrations := by
    rw [hregistrations, h.registrations]
  authors := hauthors.trans h.authors

theorem Absorbs.admitted (h : L.WellFormed) {e : StoredEvent B} (hadmits : L.Admits e) :
    Absorbs L [e] (L.admitted e) where
  events f := by
    rw [mem_events_admitted h hadmits, List.mem_singleton]
  registrations := by
    have hrecord : (L.admitted e).registrations = (L.record e).registrations := by
      unfold Ledger.admitted
      split_ifs with hfresh
      · rfl
      · obtain ⟨f, hf⟩ := Option.ne_none_iff_exists'.mp hfresh
        obtain ⟨r, hr, hactive⟩ := h.registration_of_mem (hadmits.stored h hf).2
        exact (registrations_record_of_active h.toWellKeyed hr hactive).symm
    rw [hrecord, record]
    refine List.map_congr_left fun r _ ↦ ?_
    have hone : (∃ f ∈ [e], f.context = r.context) ↔ r.context = e.context := by
      rw [eq_comm]
      simp
    simp only [hone]
  authors := L.admitted_authors e

theorem Absorbs.admitAll (h : L.WellFormed) (hall : L.AdmitsAll es) :
    Absorbs L es (L.admitAll es) := by
  induction es generalizing L with
  | nil => exact .refl L
  | cons e rest ih =>
    exact (Absorbs.admitted h hall.1).trans (ih (h.admitted hall.1) hall.2)

/-- Two ledgers that have absorbed the same events have the same rows, up to the order of events. -/
theorem Absorbs.tables_perm (h' : L'.WellFormed) (h'' : L''.WellFormed) (hes : Absorbs L es L')
    (hfs : Absorbs L fs L'') (hsame : ∀ e, e ∈ es ↔ e ∈ fs) :
    L'.tables.events.Perm L''.tables.events ∧
      L'.tables.parentEdges.Perm L''.tables.parentEdges ∧
      L'.tables.contexts = L''.tables.contexts ∧
      L'.tables.authorizedAuthors = L''.tables.authorizedAuthors := by
  have hperm : L'.events.Perm L''.events := by
    refine (List.perm_ext_iff_of_nodup ?_ ?_).mpr fun f ↦ ?_
    · exact h'.toWellKeyed.events.of_map
    · exact h''.toWellKeyed.events.of_map
    · rw [hes.events, hfs.events, hsame]
  have hregistrations : L'.registrations = L''.registrations := by
    simp only [hes.registrations, hfs.registrations, hsame]
  refine ⟨hperm.map _, hperm.flatMap_right _, ?_, ?_⟩
  · rw [tables, tables, hregistrations]
  · rw [tables, tables, hes.authors, hfs.authors]

end Ledger

/-! ### Deliveries -/

variable (B) in
/-- The events that a call submits for admission, by their canonical wires. -/
def Submits : Operation → List (StoredEvent B) → Prop
  | .admitEvent event _, es => ∃ e, event.toWire B = .ok e.wire ∧ es = [e]
  | .admitWire wire _, es => ∃ event e, SignedEventV1.fromWire B wire = .ok event ∧
      event.toWire B = .ok e.wire ∧ es = [e]
  | .importBundle _ wire _, es => ∃ bundle, BundleV1.fromWire B wire = .ok bundle ∧
      bundle.events = es.map StoredEvent.event
  | _, _ => False

/-- Runs of calls that deliver events, with the events that were committed so far. Any call may
fail, for reasons of its own or of the database. -/
inductive Deliveries (t : Tables) : List (StoredEvent B) → Tables → Prop
  | start : Deliveries t [] t
  | failed {es : List (StoredEvent B)} {t' : Tables} (run : Deliveries t es t')
      (operation : Operation) (fault : Option Fault)
      (lost : committed fault (operation.body B) t' = none) :
      Deliveries t es (operation.execute B fault t').1
  | delivered {es fs : List (StoredEvent B)} {t' : Tables} (run : Deliveries t es t')
      (operation : Operation) (fault : Option Fault) (submits : Submits B operation fs)
      {result : operation.Result} (kept : committed fault (operation.body B) t' = some result) :
      Deliveries t (es ++ fs) (operation.execute B fault t').1

namespace Ledger

variable {L : Ledger B} {t : Tables} {es : List (StoredEvent B)}

/-- The refs that an admission moves do not matter to what the ledger absorbs. -/
theorem Absorbs.swaps {L' L'' : Ledger B} (h : Absorbs L es L') {id : EventId}
    {mutation : RefMutation} {applied : Bool} (hswaps : Swaps L' id mutation L'' applied) :
    Absorbs L es L'' := by
  cases hswaps with
  | none => exact h
  | applied => exact h
  | swapped => exact h.congr rfl rfl rfl

theorem admitEvent_absorbs (h : L.WellFormed) {event : SignedEventV1} {e : StoredEvent B}
    (hrender : event.toWire B = .ok e.wire) {mutation : RefMutation} {status : AdmissionStatus}
    (hok : admitEvent B event mutation L.tables = .ok (t, status)) :
    L.Admits e ∧ ∃ L', L'.WellFormed ∧ t = L'.tables ∧ Absorbs L [e] L' := by
  obtain ⟨f, hf, htargets, hadmits, L', applied, hswaps, rfl, -⟩ := (admit_eq_ok h).mp hok
  rw [hrender, Except.ok.injEq] at hf
  obtain rfl := StoredEvent.ext_wire hf
  obtain ⟨-, hcontext, -⟩ := StoredEvent.columns hrender
  have hsteps := Swaps.steps hswaps fun context name expected newHead hcas ↦ by
    subst hcas
    exact ⟨e, mem_admitted h hadmits, rfl, hcontext.symm.trans htargets.1.symm⟩
  exact ⟨hadmits, L', hsteps.wellFormed (h.admitted hadmits), rfl,
    (Absorbs.admitted h hadmits).swaps hswaps⟩

/-- A committed call that submits events has admitted them in order and absorbs them. -/
theorem submits_absorbs (h : L.WellFormed) {operation : Operation} {result : operation.Result}
    (hsubmits : Submits B operation es) (hok : operation.body B L.tables = .ok (t, result)) :
    L.AdmitsAll es ∧ ∃ L', L'.WellFormed ∧ t = L'.tables ∧ Absorbs L es L' := by
  cases operation with
  | admitEvent event mutation =>
    obtain ⟨e, hrender, rfl⟩ := hsubmits
    obtain ⟨hadmits, hafter⟩ := admitEvent_absorbs h hrender hok
    exact ⟨⟨hadmits, trivial⟩, hafter⟩
  | admitWire wire mutation =>
    obtain ⟨event, e, hparse, hrender, rfl⟩ := hsubmits
    obtain ⟨parsed, hparsed, hok⟩ := bind_eq_ok.mp hok
    rw [mapError_eq_ok, hparse, Except.ok.injEq] at hparsed
    subst hparsed
    obtain ⟨hadmits, hafter⟩ := admitEvent_absorbs h hrender hok
    exact ⟨⟨hadmits, trivial⟩, hafter⟩
  | importBundle peer wire limits =>
    obtain ⟨bundle, hparse, hes⟩ := hsubmits
    obtain ⟨-, -, other, hother, -, -, -, hok⟩ := importBundle_eq_ok.mp hok
    rw [hparse, Except.ok.injEq] at hother
    subst hother
    have hcontext : ∀ e ∈ es, e.context = bundle.context := fun e he ↦
      bundle.event_context e.event (hes ▸ List.mem_map_of_mem he)
    obtain ⟨-, hall, hheld, rfl, -⟩ := (importBundleValue_eq_ok h hes hcontext).mp hok
    have hafter := h.admitAll hall
    obtain ⟨hregistrations, hauthors, hevents, -⟩ :=
      trackAll_frame (L := L.admitAll es) peer bundle.context bundle.refs
    exact ⟨hall, _, (Steps.trackAll hafter peer hheld).wellFormed hafter, rfl,
      (Absorbs.admitAll h hall).congr hevents hregistrations hauthors⟩
  | _ => exact hsubmits.elim

/-- Events that are admitted in order stand after their parents or over stored ones. -/
theorem AdmitsAll.parents (h : L.WellFormed) {before after : List (StoredEvent B)}
    {e : StoredEvent B} (hall : L.AdmitsAll (before ++ e :: after)) :
    ∀ parent ∈ e.parents, parent ∈ before.map StoredEvent.id ∨ L.Holds e.context parent := by
  induction before generalizing L with
  | nil => exact fun parent hparent ↦ Or.inr (hall.1.parents parent hparent)
  | cons f rest ih =>
    intro parent hparent
    rcases ih (h.admitted hall.1) hall.2 parent hparent with hmem | ⟨g, hg, hid, hcontext⟩
    · exact Or.inl (List.mem_cons_of_mem _ hmem)
    · rcases (mem_events_admitted h hall.1).mp hg with hg | rfl
      · exact Or.inr ⟨g, hg, hid, hcontext⟩
      · exact Or.inl (hid ▸ List.mem_cons_self)

/-- A run of deliveries absorbs the events it has committed. -/
theorem deliveries_absorb (h : L.WellFormed) (hrun : Deliveries L.tables es t) :
    ∃ L', L'.WellFormed ∧ t = L'.tables ∧ Absorbs L es L' := by
  induction hrun with
  | start => exact ⟨L, h, rfl, .refl L⟩
  | failed _ operation fault lost ih =>
    obtain ⟨L', h', rfl, habsorbs⟩ := ih
    rcases transact_cases fault (operation.body B) L'.tables with ⟨hsame, -⟩ | ⟨_, -, hkept⟩
    · exact ⟨L', h', hsame, habsorbs⟩
    · rw [lost] at hkept
      cases hkept
  | delivered _ operation fault submits kept ih =>
    obtain ⟨L', h', rfl, habsorbs⟩ := ih
    rcases transact_cases fault (operation.body B) L'.tables with ⟨-, hlost⟩ | ⟨result, hok, -⟩
    · rw [hlost] at kept
      cases kept
    · obtain ⟨-, L'', h'', hafter, hmore⟩ := submits_absorbs h' submits hok
      exact ⟨L'', h'', hafter, habsorbs.trans hmore⟩

end Ledger

/-! ### Eligible events -/

variable (B) in
/-- The events are individually valid for a context of the store: they belong to it, their authors
are allowed, no root is among them but the expected genesis, and each identity has one wire. -/
structure Eligible (t : Tables) (context : ContextId) (expected : EventId)
    (S : List (StoredEvent B)) : Prop where
  inContext : ∀ e ∈ S, e.context = context
  authorized : ∀ e ∈ S, isAuthorized t context e.author = true
  rooted : ∀ e ∈ S, e.parents = [] ∨ e.kind = "context.genesis" → IsGenesis expected e.event
  oneWire : ∀ e ∈ S, ∀ f ∈ S, f.id = e.id → f.wire = e.wire
  storedWire : ∀ e ∈ S, ∀ wire, eventWire t e.id = .ok (some wire) → wire = e.wire

namespace Ledger

variable {L L' : Ledger B} {context : ContextId} {S done es : List (StoredEvent B)}

/-- Absorbing events keeps the expected genesis of a context. -/
theorem Absorbs.registration (h : L.WellFormed) (h' : L'.WellFormed) (habsorbs : Absorbs L done L')
    {r : Registration} (hr : L.registration context = some r) :
    ∃ r', L'.registration context = some r' ∧ r'.expected = r.expected := by
  obtain ⟨hmem, hcontext⟩ := h.registration_eq_some.mp hr
  have hmapped := List.mem_map_of_mem (f := fun r : Registration ↦
    if ∃ e ∈ done, e.context = r.context then { r with active := true } else r) hmem
  rw [← habsorbs.registrations] at hmapped
  refine ⟨_, h'.registration_eq_some.mpr ⟨hmapped, ?_⟩, ?_⟩
  · split_ifs <;> exact hcontext
  · split_ifs <;> rfl

/-- After any delivery of eligible events, an eligible event is admitted once its parents are
stored. -/
theorem Absorbs.admits (h : L.WellFormed) (h' : L'.WellFormed) {r : Registration}
    (hr : L.registration context = some r) (hS : Eligible B L.tables context r.expected S)
    (habsorbs : Absorbs L done L') (hdone : ∀ e ∈ done, e ∈ S) {e : StoredEvent B} (he : e ∈ S)
    (hparents : ∀ parent ∈ e.parents, L'.Holds context parent) : L'.Admits e := by
  have hcontext := hS.inContext e he
  obtain ⟨r', hr', hexpected⟩ := habsorbs.registration h h' hr
  obtain ⟨hmem, hregistered⟩ := h'.registration_eq_some.mp hr'
  refine ⟨⟨r', hmem, hregistered.trans hcontext.symm, ?_⟩, ?_, ?_, ?_⟩
  · rw [hexpected]
    by_cases hroot : e.parents = [] ∨ e.kind = "context.genesis"
    · have hgenesis := hS.rooted e he hroot
      split_ifs
      · exact Or.inl hgenesis
      · exact hgenesis
    · -- A stored parent shows that the context is active.
      obtain ⟨parent, hparent⟩ := List.exists_mem_of_ne_nil _ (not_or.mp hroot).1
      obtain ⟨f, hf, -, rfl⟩ := hparents parent hparent
      rw [if_pos (h'.active_of_mem hf hr')]
      exact Or.inr hroot
  · rw [habsorbs.authors, hcontext]
    have := hS.authorized e he
    rwa [isAuthorized_tables h.toWellKeyed, decide_eq_true_eq] at this
  · rw [hcontext]
    exact hparents
  · intro f hf hid
    rcases (habsorbs.events f).mp hf with hf | hf
    · refine hS.storedWire e he f.wire ?_
      rw [eventWire_tables h.toWellKeyed, h.find_eq_some.mpr ⟨hf, hid⟩]
      rfl
    · exact hS.oneWire e he f (hdone f hf) hid

/-- After any delivery of eligible events, eligible events are admitted in every order that lists
each after its parents. -/
theorem Absorbs.admitsAll (h : L.WellFormed) (h' : L'.WellFormed) {r : Registration}
    (hr : L.registration context = some r) (hS : Eligible B L.tables context r.expected S)
    (habsorbs : Absorbs L done L') (hdone : ∀ e ∈ done, e ∈ S) (hes : ∀ e ∈ es, e ∈ S)
    (hfirst : ∀ before e after, es = before ++ e :: after → ∀ parent ∈ e.parents,
      parent ∈ before.map StoredEvent.id ∨ L'.Holds context parent) : L'.AdmitsAll es := by
  induction es generalizing L' done with
  | nil => trivial
  | cons e rest ih =>
    obtain ⟨he, hrest⟩ := List.forall_mem_cons.mp hes
    have hadmits : L'.Admits e := habsorbs.admits h h' hr hS hdone he fun parent hparent ↦
      (hfirst [] e rest rfl parent hparent).resolve_left List.not_mem_nil
    have hmore := Absorbs.admitted h' hadmits
    refine ⟨hadmits, ih (h'.admitted hadmits) (habsorbs.trans hmore) ?_ hrest ?_⟩
    · intro f hf
      rcases List.mem_append.mp hf with hf | hf
      · exact hdone f hf
      · exact List.mem_singleton.mp hf ▸ he
    · intro before f after hsplit parent hparent
      have hkept {id : EventId} (hid : L'.Holds context id) :
          (L'.admitted e).Holds context id := by
        obtain ⟨g, hg, hgid⟩ := hid
        exact ⟨g, (hmore.events g).mpr (Or.inl hg), hgid⟩
      rcases hfirst (e :: before) f after (by rw [hsplit]; rfl) parent hparent with hmem | hheld
      · rcases List.mem_cons.mp hmem with rfl | hmem
        · exact Or.inr ⟨e, mem_admitted h' hadmits, rfl, hS.inContext e he⟩
        · exact Or.inl hmem
      · exact Or.inr (hkept hheld)

end Ledger

/-- Admission does not depend on the order. Over a provisioned context, eligible events are admitted
in every order that lists each after its parents, one at a time or as a bundle; an attempt that
comes before a parent fails and changes nothing; and all runs that deliver the same events end with
the same events, edges and context rows. An event whose parents never come is never delivered, so
nothing asks the events to be closed under parents. -/
theorem admission_confluent (B : Boundary) (t : Tables) (hreachable : Reachable B t)
    (context : ContextId) (expected : EventId) (state : ℤ)
    (hprovisioned : contextRow t context = .ok (some (expected, state)))
    (S : List (StoredEvent B)) (heligible : Eligible B t context expected S) :
    (∀ done t', Deliveries t done t' → (∀ e ∈ done, e ∈ S) → ∀ es, (∀ e ∈ es, e ∈ S) →
      (∀ before e after, es = before ++ e :: after → ∀ parent ∈ e.parents,
        parent ∈ before.map StoredEvent.id ∨ t'.Holds B context parent) →
      (∃ out, admitEach B (es.map StoredEvent.event) t' = .ok out) ∧
      ∀ peer wire limits bundle, Accepts B wire limits bundle → bundle.context = context →
        bundle.events = es.map StoredEvent.event →
        (∀ item ∈ bundle.refs, item.head ∈ es.map StoredEvent.id ∨
          t'.Holds B context item.head) →
        ∃ out, importBundle B peer wire limits t' = .ok out) ∧
    (∀ (done : List (StoredEvent B)) t', Deliveries t done t' → ∀ operation es,
      Submits B operation es → ∀ before e after, es = before ++ e :: after →
      (∃ parent ∈ e.parents, parent ∉ before.map StoredEvent.id ∧
        ¬ t'.Holds B e.context parent) → ∀ fault,
      (operation.execute B fault t').1 = t' ∧
        ∃ error, (operation.execute B fault t').2 = .error error) ∧
    ∀ done₁ t₁ done₂ t₂, Deliveries t done₁ t₁ → Deliveries t done₂ t₂ →
      (∀ e, e ∈ done₁ ↔ e ∈ S) → (∀ e, e ∈ done₂ ↔ e ∈ S) →
      t₁.events.Perm t₂.events ∧ t₁.parentEdges.Perm t₂.parentEdges ∧
        t₁.contexts = t₂.contexts ∧ t₁.authorizedAuthors = t₂.authorizedAuthors := by
  obtain ⟨L, h, rfl⟩ := Ledger.exists_of_reachable hreachable
  obtain ⟨r, hr, rfl⟩ := h.registration_of_row hprovisioned
  refine ⟨?_, ?_, ?_⟩
  · intro done t' hrun hdone es hes hfirst
    obtain ⟨L', h', rfl, habsorbs⟩ := Ledger.deliveries_absorb h hrun
    simp only [Ledger.holds_tables] at hfirst ⊢
    have hall := habsorbs.admitsAll h h' hr heligible hdone hes hfirst
    refine ⟨⟨_, (Ledger.admitEach_eq_ok h').mpr ⟨hall, rfl, rfl⟩⟩, ?_⟩
    rintro peer wire limits bundle haccepted rfl hevents hrefs
    obtain ⟨r', hr', -⟩ := habsorbs.registration h h' hr
    rw [haccepted.importBundle_eq]
    refine ⟨_, (Ledger.importBundleValue_eq_ok h' hevents fun e he ↦
      heligible.inContext e (hes e he)).mpr
        ⟨by rw [hr']; exact Option.some_ne_none _, hall, fun item hitem ↦ ?_, rfl, rfl⟩⟩
    rcases hrefs item hitem with hmem | ⟨f, hf, hheld⟩
    · obtain ⟨e, he, hid⟩ := List.mem_map.mp hmem
      exact ⟨e, (Ledger.mem_events_admitAll h' hall).mpr (Or.inr he), hid,
        heligible.inContext e (hes e he)⟩
    · exact ⟨f, (Ledger.mem_events_admitAll h' hall).mpr (Or.inl hf), hheld⟩
  · intro done t' hrun operation es hsubmits before e after hsplit hmissing fault
    obtain ⟨L', h', rfl, -⟩ := Ledger.deliveries_absorb h hrun
    cases hbody : operation.body B L'.tables with
    | error error => exact transact_error hbody fault
    | ok out =>
      obtain ⟨hall, -⟩ := Ledger.submits_absorbs h' hsubmits hbody
      obtain ⟨parent, hparent, hnot, hunheld⟩ := hmissing
      rw [hsplit] at hall
      rw [Ledger.holds_tables] at hunheld
      exact absurd (hall.parents h' parent hparent) (not_or.mpr ⟨hnot, hunheld⟩)
  · intro done₁ t₁ done₂ t₂ hrun₁ hrun₂ hdone₁ hdone₂
    obtain ⟨L₁, h₁, rfl, habsorbs₁⟩ := Ledger.deliveries_absorb h hrun₁
    obtain ⟨L₂, h₂, rfl, habsorbs₂⟩ := Ledger.deliveries_absorb h hrun₂
    exact habsorbs₁.tables_perm h₁ h₂ habsorbs₂ fun e ↦ (hdone₁ e).trans (hdone₂ e).symm

section Golden

open Reference Golden

theorem golden_eligible :
    Eligible Golden.B provisioned.tables Golden.context first.id [first, second] where
  inContext e he := by
    simp only [List.mem_cons, List.not_mem_nil, or_false] at he
    rcases he with rfl | rfl <;> rfl
  authorized e he := by
    rw [Ledger.isAuthorized_tables provisioned_wellFormed.toWellKeyed, decide_eq_true_eq]
    simp only [List.mem_cons, List.not_mem_nil, or_false] at he
    rcases he with rfl | rfl <;> exact List.mem_singleton_self _
  rooted e he hroot := by
    simp only [List.mem_cons, List.not_mem_nil, or_false] at he
    rcases he with rfl | rfl
    · exact ⟨rfl, rfl, first_parents⟩
    · rw [second_parents, second_kind] at hroot
      exact absurd hroot (by simp)
  oneWire e he f hf hid := by
    simp only [List.mem_cons, List.not_mem_nil, or_false] at he hf
    rcases he with rfl | rfl <;> rcases hf with rfl | rfl
    · rfl
    · exact absurd hid.symm first_ne_second
    · exact absurd hid first_ne_second
    · rfl
  storedWire e _ wire hwire := by
    rw [Ledger.eventWire_tables provisioned_wellFormed.toWellKeyed,
      Ledger.find_eq_none.mpr fun f hf ↦ absurd hf List.not_mem_nil] at hwire
    cases hwire

theorem admission_confluent_provisioned :
    ∃ out, admitEach Golden.B ([first, second].map StoredEvent.event) provisioned.tables =
      .ok out := by
  refine ((admission_confluent Golden.B provisioned.tables provisioned_reachable Golden.context
    first.id 0 (Ledger.contextRow_tables provisioned_wellFormed.toWellKeyed _) [first, second]
    golden_eligible).1 [] _ .start (fun e he ↦ absurd he List.not_mem_nil) [first, second]
    (fun e he ↦ he) fun before e after hsplit parent hparent ↦ ?_).1
  rcases before with _ | ⟨front, before⟩
  · obtain ⟨rfl, -⟩ := List.cons.inj hsplit
    exact absurd hparent List.not_mem_nil
  · obtain ⟨rfl, hrest⟩ := List.cons.inj hsplit
    rcases before with _ | ⟨middle, before⟩
    · obtain ⟨rfl, -⟩ := List.cons.inj hrest
      exact Or.inl hparent
    · simp at hrest

end Golden

end ContextMesh.Store
