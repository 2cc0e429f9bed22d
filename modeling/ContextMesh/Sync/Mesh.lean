import ContextMesh.Foundation.Gossip
import ContextMesh.Ledger.Transfer
import ContextMesh.Sync.Meeting

/-!
Any number of stores that exchange bundles over an unreliable network, while operations of every
kind run on each of them. The network loses, repeats, reorders and misdirects bundles, and the
databases fail. The stores refine replicas that gossip: the bundles are parts of what their
exporters hold, so no store shows an event that nobody wrote, and no two stores show different
histories of a head.
-/

set_option autoImplicit false
set_option relaxedAutoImplicit false

namespace ContextMesh.Sync

open Checked Ordered Contract Store Function Relation

/-! ### Meshes -/

/-- The stores, the bundles that were exported, and the events that operations added. -/
structure Mesh (ι : Type) where
  stores : ι → Tables
  flight : List Bytes
  written : List EventRow

variable {ι : Type} [DecidableEq ι]

def Mesh.put (w : Mesh ι) (i : ι) (t : Tables) : Mesh ι := { w with stores := update w.stores i t }

@[simp] theorem put_self (w : Mesh ι) (i : ι) (t : Tables) : (w.put i t).stores i = t := by
  show update w.stores i t i = t
  rw [update_self]

theorem put_other (w : Mesh ι) {i j : ι} (h : j ≠ i) (t : Tables) :
    (w.put i t).stores j = w.stores j := by
  show update w.stores i t j = w.stores j
  rw [update_of_ne h]

/-- A call leaves the tables alone, or leaves those of its transaction. -/
theorem execute_cases {B : Boundary} (operation : Operation) (fault : Option Fault) (t : Tables) :
    (operation.execute B fault t).1 = t ∨
      ∃ result, operation.body B t = .ok ((operation.execute B fault t).1, result) := by
  rcases transact_cases fault (operation.body B) t with ⟨hsame, -⟩ | ⟨result, hok, -⟩
  · exact Or.inl hsame
  · exact Or.inr ⟨result, hok⟩

/-- A step of one store or of the network. Operations do not sign two wires for one event, and the
identifier hash takes no event that is sent for what its wire reads as. -/
inductive Mesh.Step (B : Boundary) : Mesh ι → Mesh ι → Prop
  | write {w : Mesh ι} (i : ι) (operation : Operation) (fault : Option Fault)
      (agree : ∀ j ≠ i, Agree (w.stores j) (operation.execute B fault (w.stores i)).1) :
      Mesh.Step B w
        { w.put i (operation.execute B fault (w.stores i)).1 with
          written := w.written ++ (operation.execute B fault (w.stores i)).1.events.filter
            (· ∉ (w.stores i).events) }
  | send {w : Mesh ι} (i : ι) {context : ContextId} {requested known : List EventId}
      {refs : List LocalRef} {limits : BundleLimits} {bundle : BundleV1 B} {wire : Bytes}
      (exported : exportBundle B (w.stores i) context requested known refs limits = .ok bundle)
      (rendered : bundle.toWire = .ok wire)
      (distinguished : ∀ event ∈ bundle.events, event.Distinguished B) :
      Mesh.Step B w { w with flight := wire :: w.flight }
  | deliver {w : Mesh ι} (j : ι) (peer : PeerName) {wire : Bytes} (sent : wire ∈ w.flight)
      (limits : BundleLimits) (fault : Option Fault) :
      Mesh.Step B w
        (w.put j ((Operation.importBundle peer wire limits).execute B fault (w.stores j)).1)
  | lose {w : Mesh ι} {flight : List Bytes} (left : flight ⊆ w.flight) :
      Mesh.Step B w { w with flight := flight }

/-! ### What the stores hold -/

section Contents

variable (B : Boundary)

def storedIn (t : Tables) : Set (StoredEvent B) := {e | e.row ∈ t.events}

/-- The events of a bundle. -/
def packet (wire : Bytes) : Set (StoredEvent B) :=
  {e | ∃ bundle : BundleV1 B, BundleV1.fromWire B wire = .ok bundle ∧ e.event ∈ bundle.events}

def Mesh.contents (w : Mesh ι) : Gossip.State ι (StoredEvent B) where
  held i := storedIn B (w.stores i)
  flight := {items | ∃ wire ∈ w.flight, items = packet B wire}
  written := {e | e.row ∈ w.written}

variable {B}

/-- Events of one identity have one wire. -/
def OneWire (e f : StoredEvent B) : Prop := e.id = f.id → e.wire = f.wire

theorem mem_storedIn_tables {L : Ledger B} {e : StoredEvent B} :
    e ∈ storedIn B L.tables ↔ e ∈ L.events := Ledger.mem_tables_events

/-- Two reachable stores agree when all they hold is compatible. -/
theorem agree_iff {t t' : Tables} (ht : Reachable B t) (ht' : Reachable B t') :
    Agree t t' ↔ ∀ e ∈ storedIn B t, ∀ f ∈ storedIn B t', OneWire e f := by
  obtain ⟨L, h, rfl⟩ := Ledger.exists_of_reachable ht
  obtain ⟨M, hM, rfl⟩ := Ledger.exists_of_reachable ht'
  rw [agree_tables h hM]
  simp only [mem_storedIn_tables, OneWire]

theorem Agree.refl (t : Tables) : Agree t t := by
  intro id wire wire' hwire hwire'
  rw [hwire, Except.ok.injEq, Option.some.injEq] at hwire'
  exact hwire'

theorem Agree.symm {t t' : Tables} (h : Agree t t') : Agree t' t :=
  fun id wire wire' hwire hwire' ↦ (h id wire' wire hwire' hwire).symm

/-- What an exported bundle brings is a part of its store. -/
theorem packet_exported {t : Tables} (ht : Reachable B t) {context : ContextId}
    {requested known : List EventId} {refs : List LocalRef} {limits : BundleLimits}
    {bundle : BundleV1 B} {wire : Bytes}
    (hexported : exportBundle B t context requested known refs limits = .ok bundle)
    (hrendered : bundle.toWire = .ok wire)
    (hdistinguished : ∀ event ∈ bundle.events, event.Distinguished B) :
    packet B wire ⊆ storedIn B t := by
  obtain ⟨L, h, rfl⟩ := Ledger.exists_of_reachable ht
  obtain ⟨-, -, es, hes, hdifference⟩ := Ledger.exportBundle_events h hexported
  rintro e ⟨parsed, hparsed, he⟩
  -- a bundle that is read back at all is read back as it is
  have hparses := BundleV1.fromWire_of_settled
    (BundleV1.unmarked_of_distinguished hrendered hparsed hdistinguished)
    (Ledger.exportBundle_settled h hexported) hrendered
  rw [hparses, Except.ok.injEq] at hparsed
  rw [← hparsed, hes] at he
  obtain ⟨f, hf, hevent⟩ := List.mem_map.mp he
  rw [← StoredEvent.ext_event hevent]
  exact mem_storedIn_tables.mpr (hdifference.stored f hf).1

/-- An import adds the events of its bundle. -/
theorem storedIn_imported {t after : Tables} (ht : Reachable B t) {peer : PeerName} {wire : Bytes}
    {limits : BundleLimits} {report : ImportReport}
    (hok : importBundle B peer wire limits t = .ok (after, report)) :
    storedIn B after = storedIn B t ∪ packet B wire := by
  obtain ⟨L, h, rfl⟩ := Ledger.exists_of_reachable ht
  obtain ⟨hvalid, hbytes, bundle, hparses, hevents, hrefs, hrendered, hok⟩ :=
    importBundle_eq_ok.mp hok
  have haccepted : Accepts B wire limits bundle :=
    ⟨hvalid, hbytes, hparses, hevents, hrefs, hrendered⟩
  obtain ⟨es, hes, hcontext⟩ := haccepted.exists_stored
  obtain ⟨-, hall, -, rfl, -⟩ := (Ledger.importBundleValue_eq_ok h hes hcontext).mp hok
  ext e
  have hpacket : e ∈ packet B wire ↔ e ∈ es := by
    constructor
    · rintro ⟨parsed, hparsed, he⟩
      rw [hparses, Except.ok.injEq] at hparsed
      rw [← hparsed, hes] at he
      obtain ⟨f, hf, hevent⟩ := List.mem_map.mp he
      exact StoredEvent.ext_event hevent ▸ hf
    · exact fun he ↦ ⟨bundle, hparses, hes ▸ List.mem_map_of_mem he⟩
  rw [Set.mem_union, hpacket, mem_storedIn_tables, mem_storedIn_tables,
    (Ledger.trackAll_frame peer bundle.context bundle.refs).2.2.1,
    Ledger.mem_events_admitAll h hall]

end Contents

/-! ### The stores gossip -/

section Simulation

variable {B : Boundary} {w w' : Mesh ι}

omit [DecidableEq ι] in
theorem compatible_iff (hreachable : ∀ i, Reachable B (w.stores i)) :
    (w.contents B).Compatible OneWire ↔ ∀ i j, Agree (w.stores i) (w.stores j) :=
  forall₂_congr fun i j ↦ (agree_iff (hreachable i) (hreachable j)).symm

omit [DecidableEq ι] in
theorem carried_of_idle (hidle : w.flight = []) : (w.contents B).Carried := by
  rintro items ⟨wire, hwire, -⟩
  rw [hidle] at hwire
  cases hwire

theorem Mesh.Step.reachable (h : Mesh.Step B w w') (hreachable : ∀ i, Reachable B (w.stores i))
    (i : ι) : Reachable B (w'.stores i) := by
  have hput {j : ι} (operation : Operation) (fault : Option Fault) :
      Reachable B ((w.put j (operation.execute B fault (w.stores j)).1).stores i) := by
    by_cases hsame : i = j
    · subst hsame
      rw [put_self]
      exact .step (hreachable i) operation fault
    · rw [put_other w hsame]
      exact hreachable i
  cases h with
  | write j operation fault agree => exact hput operation fault
  | send j exported rendered distinguished => exact hreachable i
  | deliver j peer sent limits fault => exact hput (.importBundle peer _ limits) fault
  | lose left => exact hreachable i

/-- Replacing a store by one that holds more adds to what its replica holds. -/
theorem contents_put (w : Mesh ι) (i : ι) {t : Tables} {items : Set (StoredEvent B)}
    (hitems : storedIn B t = storedIn B (w.stores i) ∪ items) :
    (w.put i t).contents B = (w.contents B).absorb i items := by
  ext j e
  · rw [Gossip.mem_absorb]
    show e ∈ storedIn B ((w.put i t).stores j) ↔ e ∈ storedIn B (w.stores j) ∨ j = i ∧ e ∈ items
    by_cases hsame : j = i
    · subst hsame
      rw [put_self, hitems]
      simp
    · rw [put_other w hsame]
      simp [hsame]
  · rfl
  · rfl

/-- Each step of the stores is a step of the replicas, or none. -/
theorem Mesh.Step.simulates (h : Mesh.Step B w w') (hreachable : ∀ i, Reachable B (w.stores i))
    (hcompatible : (w.contents B).Compatible OneWire) :
    ReflTransGen (Gossip.Step OneWire) (w.contents B) (w'.contents B) := by
  have hreachable' := h.reachable hreachable
  cases h with
  | write i operation fault agree =>
    set after := (operation.execute B fault (w.stores i)).1 with hafter
    have hgrown : storedIn B (w.stores i) ⊆ storedIn B after := by
      obtain ⟨L, hwell, hL⟩ := Ledger.exists_of_reachable (hreachable i)
      obtain ⟨L', hL', -, hextends⟩ := Ledger.execute_extends hwell operation fault
      rw [hafter, hL, hL']
      exact fun e he ↦ mem_storedIn_tables.mpr (hextends.events e (mem_storedIn_tables.mp he))
    have hcontents := contents_put w i (Set.union_sdiff_cancel hgrown).symm
    set added := storedIn B after \ storedIn B (w.stores i) with hadded
    have hwritten : ({ w.put i after with
        written := w.written ++ after.events.filter (· ∉ (w.stores i).events) } :
          Mesh ι).contents B =
        { (w.contents B).absorb i added with written := (w.contents B).written ∪ added } := by
      ext j e
      · exact Set.ext_iff.mp (congrFun (congrArg Gossip.State.held hcontents) j) e
      · exact Iff.rfl
      · simp [hadded, Mesh.contents, storedIn, Mesh.put]
    rw [hwritten]
    refine .single (.write i _ ?_)
    have hput : ∀ j, Reachable B ((w.put i after).stores j) := hreachable'
    rw [← hcontents, compatible_iff hput]
    rw [compatible_iff hreachable] at hcompatible
    intro j k
    by_cases hj : j = i
    · by_cases hk : k = i
      · rw [hj, hk, put_self]
        exact .refl after
      · rw [hj, put_self, put_other w hk]
        exact (agree k hk).symm
    · by_cases hk : k = i
      · rw [hk, put_self, put_other w hj]
        exact agree j hj
      · rw [put_other w hj, put_other w hk]
        exact hcompatible j k
  | @send i _ _ _ _ _ bundle wire exported rendered distinguished =>
    have hpart := packet_exported (hreachable i) exported rendered distinguished
    have hsent : ({ w with flight := wire :: w.flight } : Mesh ι).contents B =
        { w.contents B with flight := insert (packet B wire) (w.contents B).flight } := by
      ext j e
      · exact Iff.rfl
      · simp [Mesh.contents]
      · exact Iff.rfl
    rw [hsent]
    exact .single (.send i hpart)
  | @deliver j peer wire sent limits fault =>
    rcases execute_cases (B := B) (.importBundle peer wire limits) fault (w.stores j) with
      hsame | ⟨report, hok⟩
    · have hquiet := contents_put (B := B) w j (t := w.stores j) (Set.union_empty _).symm
      have hnothing : (w.contents B).absorb j ∅ = w.contents B := by
        ext k e
        · rw [Gossip.mem_absorb]
          simp
        · rfl
        · rfl
      rw [hsame, hquiet, hnothing]
    · rw [contents_put w j (storedIn_imported (hreachable j) hok)]
      exact .single (.deliver j ⟨wire, sent, rfl⟩)
  | @lose flight left =>
    have hleft : (({ w with flight := flight } : Mesh ι).contents B).flight ⊆
        (w.contents B).flight := by
      rintro items ⟨wire, hwire, rfl⟩
      exact ⟨wire, left hwire, rfl⟩
    exact .single (.lose hleft)

/-- Every run of the stores is a run of the replicas. -/
theorem run_simulates (hreachable : ∀ i, Reachable B (w.stores i))
    (hagree : ∀ i j, Agree (w.stores i) (w.stores j)) (hidle : w.flight = [])
    (hrun : ReflTransGen (Mesh.Step B) w w') :
    (∀ i, Reachable B (w'.stores i)) ∧
      ReflTransGen (Gossip.Step OneWire) (w.contents B) (w'.contents B) := by
  have hcarried := carried_of_idle (B := B) hidle
  have hcompatible := (compatible_iff hreachable).mpr hagree
  induction hrun with
  | refl => exact ⟨hreachable, .refl⟩
  | tail _ hstep ih =>
    obtain ⟨hreachable', hgossip⟩ := ih
    have hsafe := Gossip.run_safe hgossip hcarried hcompatible
    exact ⟨hstep.reachable hreachable', hgossip.trans (hstep.simulates hreachable' hsafe.1)⟩

end Simulation

/-! ### One history -/

section Histories

variable {B : Boundary}

/-- Reachable stores that agree have the same history of the heads that both hold. -/
theorem projectOn_of_agree {t t' : Tables} (ht : Reachable B t) (ht' : Reachable B t')
    (hagree : Agree t t') {context : ContextId} {heads : List EventId}
    (hheld : ∀ head ∈ heads, t.Holds B context head ∧ t'.Holds B context head)
    (limits : ProjectionLimits) :
    projectOn B t context heads limits = projectOn B t' context heads limits := by
  obtain ⟨L, h, rfl⟩ := Ledger.exists_of_reachable ht
  obtain ⟨M, hM, rfl⟩ := Ledger.exists_of_reachable ht'
  rw [agree_tables h hM] at hagree
  simp only [Ledger.holds_tables] at hheld
  refine projectOn_congr h.reads hM.reads fun id hid ↦ ?_
  obtain ⟨head, hhead, hancestor⟩ := h.reached_iff.mp hid
  obtain ⟨hfirst, hsecond⟩ := hheld head hhead
  obtain ⟨e, he, heid, -⟩ := h.holds_ancestor hfirst hancestor
  have hother := hM.ancestor_of_agree (fun f hf e he hid ↦ (hagree e he f hf hid.symm).symm)
    hsecond hancestor
  obtain ⟨f, hf, hfid, -⟩ := hM.holds_ancestor hsecond hother
  rw [h.find_eq_some.mpr ⟨he, heid⟩, hM.find_eq_some.mpr ⟨hf, hfid⟩,
    StoredEvent.ext_wire (hagree e he f hf (heid.trans hfid.symm))]

/-- The rows of a reachable store are those of the events it holds. -/
theorem mem_rows {t : Tables} (ht : Reachable B t) {row : EventRow} :
    row ∈ t.events ↔ ∃ e ∈ storedIn B t, row = e.row := by
  obtain ⟨L, h, rfl⟩ := Ledger.exists_of_reachable ht
  constructor
  · intro hrow
    obtain ⟨e, he, rfl⟩ := List.mem_map.mp hrow
    exact ⟨e, mem_storedIn_tables.mpr he, rfl⟩
  · rintro ⟨e, he, rfl⟩
    exact he

/-- Stores that exchange bundles stay well formed and agree, whatever the network and the databases
do. None of them loses an event, and none shows an event that no store had in the beginning and no
operation added. Two stores that hold the same heads show the same history of them, to the byte. -/
theorem mesh_safe {w w' : Mesh ι} (hreachable : ∀ i, Reachable B (w.stores i))
    (hagree : ∀ i j, Agree (w.stores i) (w.stores j)) (hidle : w.flight = [])
    (hfresh : w.written = []) (hrun : ReflTransGen (Mesh.Step B) w w') :
    (∀ i, Reachable B (w'.stores i) ∧ (w'.stores i).WellFormed B) ∧
    (∀ i j, Agree (w'.stores i) (w'.stores j)) ∧
    (∀ i, ∀ row ∈ (w.stores i).events, row ∈ (w'.stores i).events) ∧
    (∀ i, ∀ row ∈ (w'.stores i).events,
      (∃ j, row ∈ (w.stores j).events) ∨ row ∈ w'.written) ∧
    ∀ i j context heads limits,
      (∀ head ∈ heads, (w'.stores i).Holds B context head ∧ (w'.stores j).Holds B context head) →
      projectOn B (w'.stores i) context heads limits =
        projectOn B (w'.stores j) context heads limits := by
  obtain ⟨hreachable', hgossip⟩ := run_simulates hreachable hagree hidle hrun
  obtain ⟨hcompatible, hgrown, htraced⟩ := Gossip.run_safe hgossip (carried_of_idle hidle)
    ((compatible_iff hreachable).mpr hagree)
  have hagree' := (compatible_iff hreachable').mp hcompatible
  refine ⟨fun i ↦ ⟨hreachable' i, ?_⟩, hagree', ?_, ?_, ?_⟩
  · obtain ⟨L, h, hL⟩ := Ledger.exists_of_reachable (hreachable' i)
    exact hL ▸ h.tables
  · intro i row hrow
    obtain ⟨e, he, rfl⟩ := (mem_rows (hreachable i)).mp hrow
    exact hgrown i he
  · intro i row hrow
    obtain ⟨e, he, rfl⟩ := (mem_rows (hreachable' i)).mp hrow
    rcases htraced i he with (horigin | hold) | hwritten
    · obtain ⟨j, hj⟩ := Set.mem_iUnion.mp horigin
      exact Or.inl ⟨j, hj⟩
    · have hnone : e.row ∈ w.written := hold
      rw [hfresh] at hnone
      cases hnone
    · exact Or.inr hwritten
  · exact fun i j context heads limits hheld ↦
      projectOn_of_agree (hreachable' i) (hreachable' j) (hagree' i j) hheld limits

end Histories

section Golden

open Reference Golden

/-- A store with the request of the reference context, and one that has only joined the context. -/
def pair : Bool → Tables
  | true => advanced.tables
  | false => provisioned.tables

theorem pair_reachable (i : Bool) : Reachable Golden.B (pair i) := by
  cases i with
  | false => exact provisioned_reachable
  | true => exact advanced_reachable

theorem pair_agree (i j : Bool) : Agree (pair i) (pair j) := by
  have hnothing : Agree provisioned.tables advanced.tables :=
    (agree_tables provisioned_wellFormed advanced_wellFormed).mpr
      fun e he ↦ absurd he List.not_mem_nil
  cases i <;> cases j
  · exact .refl _
  · exact hnothing
  · exact hnothing.symm
  · exact .refl _

theorem advanced_distinguished {context : ContextId} {requested known : List EventId}
    {refs : List LocalRef} {limits : BundleLimits} {bundle : BundleV1 Golden.B}
    (h : exportBundle Golden.B advanced.tables context requested known refs limits = .ok bundle) :
    ∀ event ∈ bundle.events, event.Distinguished Golden.B := by
  obtain ⟨-, -, es, hes, hdifference⟩ := Ledger.exportBundle_events advanced_wellFormed h
  intro event hevent
  rw [hes] at hevent
  obtain ⟨e, he, rfl⟩ := List.mem_map.mp hevent
  exact (advanced_unmarked e (hdifference.stored e he).1).distinguished e.verify

/-- The request is sent, arrives twice, and stays on the network. -/
theorem mesh_safe_pair : ∃ wire w', ReflTransGen (Mesh.Step Golden.B) ⟨pair, [], []⟩ w' ∧
    w'.flight = [wire] ∧ Agree (w'.stores true) (w'.stores false) := by
  have hone : [second.id].length ≤ MAX_BUNDLE_EVENTS := (by decide : 1 ≤ MAX_BUNDLE_EVENTS)
  have hheld : advanced.Holds Golden.context second.id := ⟨second, second_stored, rfl, rfl⟩
  obtain ⟨bundle, hbundle⟩ := Ledger.exportBundle_succeeds advanced_wellFormed (by decide)
    advanced_passes ⟨List.cons_ne_nil _ _, hone⟩
    (fun head hhead ↦ List.mem_singleton.mp hhead ▸ hheld)
    (fun ref href ↦ absurd href List.not_mem_nil) (Nat.zero_le _) List.nodup_nil
  obtain ⟨-, -, -, -, -, -, wire, hwire, -⟩ := exportBundle_eq_ok hbundle
  have hsent : Mesh.Step Golden.B ⟨pair, [], []⟩ ⟨pair, [wire], []⟩ :=
    .send true hbundle hwire (advanced_distinguished hbundle)
  have hrun := ((ReflTransGen.single hsent).tail (.deliver false peer
    (List.mem_singleton_self wire) .default none)).tail (.deliver false peer
      (List.mem_singleton_self wire) .default (some .unacknowledged))
  obtain ⟨-, hagree, -⟩ := mesh_safe pair_reachable pair_agree rfl rfl hrun
  exact ⟨wire, _, hrun, rfl, hagree true false⟩

end Golden

end ContextMesh.Sync
