import ContextMesh.Ledger.Batch

/-!
The import of bytes that were imported before. Whatever has happened in between, every event of the
bundle is stored with the bytes it has, so nothing is recorded; and as long as the remote refs of
the peer are left alone, no ref is set.
-/

set_option autoImplicit false
set_option relaxedAutoImplicit false

namespace ContextMesh.Store

open Checked Ordered Contract Relation

variable {B : Boundary}

/-! ### Calls that leave the remote refs of a peer alone -/

/-- The two stores have the same remote refs of the peer. -/
def SameRemotes (peer : PeerName) (t t' : Tables) : Prop :=
  ∀ row : RemoteRefRow, row.peer = .text peer.asStr → (row ∈ t'.remoteRefs ↔ row ∈ t.remoteRefs)

theorem SameRemotes.refl (peer : PeerName) (t : Tables) : SameRemotes peer t t :=
  fun _ _ ↦ Iff.rfl

theorem SameRemotes.trans {peer : PeerName} {a b c : Tables} (hab : SameRemotes peer a b)
    (hbc : SameRemotes peer b c) : SameRemotes peer a c :=
  fun row hrow ↦ (hbc row hrow).trans (hab row hrow)

/-- The change writes no remote ref of the peer. -/
def Change.Spares (peer : PeerName) : Change → Prop
  | .track other _ _ _ | .forget other _ => other ≠ peer
  | _ => True

/-- The call writes no remote ref of the peer. -/
def Operation.Spares (peer : PeerName) : Operation → Prop
  | .setRemoteRef other _ _ _ | .importBundle other _ _ | .replaceRemoteRefSnapshot other _ _ =>
    other ≠ peer
  | _ => True

theorem Step.sameRemotes {L L' : Ledger B} {change : Change} {peer : PeerName}
    (hstep : Step L change L') (hspares : change.Spares peer) :
    SameRemotes peer L.tables L'.tables := by
  intro row hrow
  simp only [Ledger.tables, List.mem_map]
  cases hstep with
  | provision _ _ _ | authorize _ _ | record _ _ | branch _ _ | advance _ _ _ | move _ _ =>
    exact Iff.rfl
  | @track other context name head holds =>
    have hother {ref : RemoteRef} (heq : ref.row = row) : ref.peer ≠ other := by
      rintro rfl
      rw [← heq] at hrow
      exact hspares (peerName_asStr_inj.mp (SqlValue.text.inj hrow))
    constructor
    · rintro ⟨ref, href, heq⟩
      rcases Keyed.mem_put.mp href with rfl | ⟨href, -⟩
      · exact absurd rfl (hother heq)
      · exact ⟨ref, href, heq⟩
    · rintro ⟨ref, href, heq⟩
      exact ⟨ref, Keyed.mem_put.mpr (Or.inr ⟨href, fun hkey ↦
        hother heq (Prod.mk.inj hkey).1⟩), heq⟩
  | @forget other context =>
    constructor
    · rintro ⟨ref, href, heq⟩
      exact ⟨ref, List.mem_of_mem_filter href, heq⟩
    · rintro ⟨ref, href, heq⟩
      refine ⟨ref, List.mem_filter.mpr ⟨href, decide_eq_true ?_⟩, heq⟩
      rintro ⟨rfl, -⟩
      rw [← heq] at hrow
      exact hspares (peerName_asStr_inj.mp (SqlValue.text.inj hrow))

theorem Change.IsRecord.spares {change : Change} (h : change.IsRecord) (peer : PeerName) :
    change.Spares peer := by
  cases change with
  | record context event => trivial
  | provision _ | authorize _ _ | branch _ _ _ | advance _ _ _ _ | move _ _ _ _ | track _ _ _ _
  | forget _ _ => cases h

theorem Change.IsAppend.spares {change : Change} (h : change.IsAppend) (peer : PeerName) :
    change.Spares peer := by
  cases change with
  | record _ _ | branch _ _ _ | advance _ _ _ _ => trivial
  | provision _ | authorize _ _ | move _ _ _ _ | track _ _ _ _ | forget _ _ => cases h

theorem Steps.sameRemotes {L L' : Ledger B} {kind : Change → Prop} {peer : PeerName}
    (hsteps : Steps kind L L') (hspares : ∀ change, kind change → change.Spares peer) :
    SameRemotes peer L.tables L'.tables := by
  induction hsteps with
  | refl => exact .refl _ _
  | tail _ hlast ih =>
    obtain ⟨change, hkind, hstep⟩ := hlast
    exact ih.trans (hstep.sameRemotes (hspares change hkind))

/-- Sparing calls keep the remote refs of the peer, whatever the database does. -/
theorem Operation.sameRemotes {L : Ledger B} (h : L.WellFormed) {operation : Operation}
    {peer : PeerName} (hspares : operation.Spares peer) (fault : Option Fault) :
    SameRemotes peer L.tables (operation.execute B fault L.tables).1 := by
  have hsteps {t : Tables} {kind : Change → Prop}
      (hsteps : ∃ L' : Ledger B, t = L'.tables ∧ Steps kind L L')
      (hkind : ∀ change, kind change → change.Spares peer) : SameRemotes peer L.tables t := by
    obtain ⟨L', rfl, hsteps⟩ := hsteps
    exact hsteps.sameRemotes hkind
  have hadmits {context : ContextId} {id : EventId} {mutation : RefMutation} :
      ∀ change : Change,
      (change = .record context id ∨ ∃ context name expected newHead,
        mutation = .compareAndSwap context name expected newHead ∧
          (change = .branch context name id ∨
            ∃ previous, change = .move context name previous id)) → change.Spares peer := by
    rintro change (rfl | ⟨_, _, _, _, -, rfl | ⟨_, rfl⟩⟩) <;> exact trivial
  rcases transact_cases fault (operation.body B) L.tables with ⟨hsame, -⟩ | ⟨result, hok, -⟩
  · rw [Operation.execute, hsame]
    exact .refl _ _
  · cases operation with
    | provisionContext provision =>
      exact hsteps (Ledger.provisionContext_steps h hok) fun _ hchange ↦ hchange ▸ trivial
    | joinContext provision =>
      exact hsteps (Ledger.joinContext_steps h hok) fun _ hchange ↦ hchange ▸ trivial
    | createContext identity branch entropy =>
      refine hsteps (Ledger.createContext_steps h hok) ?_
      rintro change (rfl | rfl | rfl) <;> exact trivial
    | authorizeAuthor context author =>
      exact hsteps (Ledger.authorizeAuthor_steps h hok) fun _ hchange ↦ hchange ▸ trivial
    | admitEvent event mutation => exact hsteps (Ledger.admit_steps h hok) hadmits
    | admitWire wire mutation =>
      obtain ⟨event, -, hok⟩ := bind_eq_ok.mp hok
      exact hsteps (Ledger.admit_steps h hok) hadmits
    | append identity context branch expected kind payload =>
      obtain ⟨-, L', ht, happend, -⟩ := Ledger.append_steps h hok
      exact hsteps ⟨L', ht, happend⟩ fun _ hchange ↦ hchange.spares peer
    | createBranch context name fromHead =>
      exact hsteps (Ledger.createBranch_steps h hok) fun _ hchange ↦ hchange ▸ trivial
    | merge identity context branch expected parents payload =>
      obtain ⟨-, L', ht, hmerge, -⟩ := Ledger.merge_steps h hok
      exact hsteps ⟨L', ht, hmerge⟩ fun _ hchange ↦ hchange.spares peer
    | setRemoteRef other context name head =>
      exact hsteps (Ledger.setRemoteRef_steps h hok) fun _ hchange ↦ hchange ▸ hspares
    | importBundle other wire limits =>
      refine hsteps (Ledger.importBundle_steps h hok) ?_
      rintro change (hrecord | ⟨context, name, head, rfl⟩)
      · exact hrecord.spares peer
      · exact hspares
    | replaceRemoteRefSnapshot other context refs =>
      refine hsteps (Ledger.replaceRemoteRefSnapshot_steps h hok) ?_
      rintro change (rfl | ⟨name, head, rfl⟩) <;> exact hspares

/-! ### Events that are stored already -/

namespace Ledger

variable {L : Ledger B} {es : List (StoredEvent B)}

/-- A stored event is admitted again. -/
theorem WellFormed.admits_of_mem (h : L.WellFormed) {e : StoredEvent B} (he : e ∈ L.events) :
    L.Admits e where
  registered := by
    obtain ⟨r, hr, hcontext, hactive, hroot⟩ := h.rooted e he
    refine ⟨r, hr, hcontext, ?_⟩
    rw [if_pos hactive]
    by_cases hgenesis : e.parents = [] ∨ e.kind = "context.genesis"
    · obtain ⟨g, hg, -, hexpected⟩ := h.genesis r hr hactive
      have hid : e.id = g.id := (hroot hgenesis).trans hexpected.1.symm
      exact Or.inl (h.event_eq_of_id he hg hid ▸ hexpected)
    · exact Or.inr hgenesis
  authorized := h.authorized e he
  parents parent hparent := by
    obtain ⟨before, after, hsplit⟩ := List.append_of_mem he
    obtain ⟨f, hf, hid, hcontext⟩ := h.parentsFirst before e after hsplit parent hparent
    exact ⟨f, hsplit ▸ List.mem_append_left _ hf, hid, hcontext⟩
  sameWire f hf hid := by
    rw [h.event_eq_of_id hf he hid]

theorem WellFormed.find_ne_none (h : L.WellFormed) {e : StoredEvent B} (he : e ∈ L.events) :
    L.find e.id ≠ none := by
  rw [h.find_eq_some.mpr ⟨he, rfl⟩]
  exact Option.some_ne_none e

/-- Stored events are admitted in any order, and nothing is recorded. -/
theorem WellFormed.admitAll_stored (h : L.WellFormed) (hstored : ∀ e ∈ es, e ∈ L.events) :
    L.AdmitsAll es ∧ L.admitAll es = L ∧ L.newCount es = 0 := by
  induction es with
  | nil => exact ⟨trivial, rfl, rfl⟩
  | cons e rest ih =>
    obtain ⟨he, hrest⟩ := List.forall_mem_cons.mp hstored
    have hsame : L.admitted e = L := if_neg (h.find_ne_none he)
    obtain ⟨hadmits, hkept, hnone⟩ := ih hrest
    refine ⟨⟨h.admits_of_mem he, ?_⟩, ?_, ?_⟩
    · rwa [hsame]
    · show (L.admitted e).admitAll rest = L
      rwa [hsame]
    · rw [newCount, if_neg (h.find_ne_none he), hsame, hnone]

/-- Refs that are set already are not set again. -/
theorem trackAll_current {peer : PeerName} {context : ContextId} {refs : List AdvertisedRef}
    (hcurrent : ∀ item ∈ refs, L.remoteHead peer context item.name = some item.head) :
    L.trackAll peer context refs = L ∧ L.changedCount peer context refs = 0 := by
  induction refs with
  | nil => exact ⟨rfl, rfl⟩
  | cons item rest ih =>
    obtain ⟨hitem, hrest⟩ := List.forall_mem_cons.mp hcurrent
    have hsame : L.tracked peer context item = L := if_pos hitem
    obtain ⟨hkept, hnone⟩ := ih hrest
    constructor
    · show (L.tracked peer context item).trackAll peer context rest = L
      rwa [hsame]
    · rw [changedCount, if_pos hitem, hsame, hnone]

/-- Ledgers with the same remote refs of a peer have the same heads for it. -/
theorem remoteHead_of_sameRemotes {L L' : Ledger B} (h : L.WellFormed) (h' : L'.WellFormed)
    {peer : PeerName} (hsame : SameRemotes peer L.tables L'.tables) {context : ContextId}
    {name : LocalRefName} {head : EventId}
    (hhead : L.remoteHead peer context name = some head) :
    L'.remoteHead peer context name = some head := by
  have hrow (M : Ledger B) : RemoteRef.row ⟨peer, context, name, head⟩ ∈ M.tables.remoteRefs ↔
      (⟨peer, context, name, head⟩ : RemoteRef) ∈ M.remoteRefs :=
    List.mem_map_of_injective RemoteRef.row_injective
  rw [h'.remoteHead_eq_some, ← hrow, hsame _ rfl, hrow, ← h.remoteHead_eq_some]
  exact hhead

end Ledger

/-- Bytes that were imported are imported again, as often as one likes and whatever has happened in
between, as long as the remote refs of the peer are what the import left: nothing is recorded, no
ref is set, and the store stays as it is. -/
theorem importBundle_again {t after later : Tables} (hreachable : Reachable B t) (peer : PeerName)
    (wire : Bytes) (limits : BundleLimits) {fault : Option Fault} {report : ImportReport}
    (himported : (Operation.importBundle peer wire limits).execute B fault t =
      (after, .ok report)) (hrun : Run B after later) (hsame : SameRemotes peer after later) :
    ∃ bundle, BundleV1.fromWire B wire = .ok bundle ∧
      (Operation.importBundle peer wire limits).execute B none later =
        (later, .ok (⟨0, bundle.events.length, 0⟩ : ImportReport)) := by
  obtain ⟨L, h, rfl⟩ := Ledger.exists_of_reachable hreachable
  obtain ⟨hvalid, hbytes, bundle, hparses, hevents, hrefs, hrendered, hok⟩ :=
    importBundle_eq_ok.mp (transact_eq_ok himported)
  have haccepted : Accepts B wire limits bundle :=
    ⟨hvalid, hbytes, hparses, hevents, hrefs, hrendered⟩
  obtain ⟨es, hes, hcontext⟩ := haccepted.exists_stored
  obtain ⟨hregistered, hall, hheld, rfl, -⟩ :=
    (Ledger.importBundleValue_eq_ok h hes hcontext).mp hok
  have hadmitted := h.admitAll hall
  have hafter : ((L.admitAll es).trackAll peer bundle.context bundle.refs).WellFormed :=
    (Ledger.Steps.trackAll hadmitted peer hheld).wellFormed hadmitted
  obtain ⟨M, rfl, hsteps⟩ := Ledger.run_steps hafter hrun
  have hM := hsteps.wellFormed hafter
  have hextends : L.Extends M := (Ledger.Steps.admitAll h hall).extends.trans
    ((Ledger.Steps.trackAll hadmitted peer hheld).extends.trans hsteps.extends)
  -- What the import stored is stored still, and its refs are where it set them.
  have hstored : ∀ e ∈ es, e ∈ M.events := fun e he ↦ hsteps.events_subset e <| by
    rw [(Ledger.trackAll_frame peer bundle.context bundle.refs).2.2.1]
    exact (Ledger.mem_events_admitAll h hall).mpr (Or.inr he)
  have hcurrent : ∀ item ∈ bundle.refs,
      M.remoteHead peer bundle.context item.name = some item.head := fun item hitem ↦
    Ledger.remoteHead_of_sameRemotes hafter hM hsame
      ((hadmitted.remoteHead_trackAll peer hheld bundle.refs_canonical).1 item hitem)
  obtain ⟨hadmits, hkept, hnone⟩ := hM.admitAll_stored hstored
  obtain ⟨hrefsKept, hrefsNone⟩ := Ledger.trackAll_current hcurrent
  refine ⟨bundle, hparses, (transact_ok ?_).1⟩
  refine (haccepted.importBundle_eq peer M.tables).trans
    ((Ledger.importBundleValue_eq_ok hM hes hcontext).mpr ⟨?_, hadmits, ?_, ?_, ?_⟩)
  · intro hunknown
    obtain ⟨r, hr⟩ := Option.ne_none_iff_exists'.mp hregistered
    obtain ⟨s, hs, -⟩ := hextends.expects h hM ⟨r, hr, rfl⟩
    rw [hunknown] at hs
    cases hs
  · rw [hkept]
    intro item hitem
    have hhead := hM.toWellKeyed.remoteHead_eq_some.mp (hcurrent item hitem)
    exact hM.remoteTargets _ hhead
  · rw [hkept, hrefsKept]
  · rw [hkept, hnone, hrefsNone, hes, List.length_map]
    rfl

section Golden

open Reference Golden

/-- A bundle is imported, a branch is created, and the bundle is imported again. -/
theorem importBundle_again_provisioned : ∃ wire after later report,
    (Operation.importBundle peer wire .default).execute Golden.B none provisioned.tables =
        (after, .ok report) ∧
      later = ((Operation.createBranch Golden.context side second.id).execute Golden.B none
        after).1 ∧
      (Operation.importBundle peer wire .default).execute Golden.B none later =
        (later, .ok (⟨0, 2, 0⟩ : ImportReport)) := by
  obtain ⟨wire, hwire⟩ := goldenBundle_wire
  have haccepted := BundleV1.accepts goldenBundle_unmarked goldenBundle_settled hwire
  have hcontext : ∀ e ∈ [first, second], e.context = goldenBundle.context := by
    simp only [List.forall_mem_cons, List.not_mem_nil, false_imp_iff, implies_true, and_true]
    exact ⟨rfl, rfl⟩
  have hadmitted := provisioned_wellFormed.admitAll goldenBundle_admits
  have hheld : ∀ item ∈ goldenBundle.refs,
      (provisioned.admitAll [first, second]).Holds Golden.context item.head := by
    intro item hitem
    rw [List.mem_singleton.mp hitem]
    exact ⟨second, (Ledger.mem_events_admitAll provisioned_wellFormed goldenBundle_admits).mpr
      (Or.inr (List.mem_cons_of_mem _ List.mem_cons_self)), rfl, rfl⟩
  have hevents : goldenBundle.events = [first, second].map StoredEvent.event := rfl
  have hbody : (Operation.importBundle peer wire .default).body Golden.B provisioned.tables =
      .ok (_, _) := (haccepted.importBundle_eq peer provisioned.tables).trans
    ((Ledger.importBundleValue_eq_ok provisioned_wellFormed hevents hcontext).mpr
      ⟨by decide, goldenBundle_admits, hheld, rfl, rfl⟩)
  have himported := (transact_ok hbody).1
  have hafter := (Ledger.Steps.trackAll hadmitted peer hheld).wellFormed hadmitted
  obtain ⟨bundle, hparses, hagain⟩ := importBundle_again provisioned_reachable peer wire .default
    himported (.step (.refl _) (.createBranch Golden.context side second.id) none)
    (@Operation.sameRemotes _ _ hafter (.createBranch Golden.context side second.id) peer trivial
      none)
  rw [haccepted.parses, Except.ok.injEq] at hparses
  rw [← hparses] at hagain
  exact ⟨wire, _, _, _, himported, rfl, hagain⟩

end Golden

end ContextMesh.Store
