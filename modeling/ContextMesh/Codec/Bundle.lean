import ContextMesh.Codec.Reading
import ContextMesh.Ledger.Refs

/-!
The wire of a bundle, both ways. The wire of any checked bundle parses to the bundle of its settled
events, and a bundle that was parsed is settled already, so its own wire gives it back.
-/

set_option autoImplicit false
set_option relaxedAutoImplicit false

namespace ContextMesh.Store

open Checked Ordered Contract

variable {B : Boundary}

/-- A stored event is settled. -/
theorem StoredEvent.settle_event (e : StoredEvent B) : e.event.settle B = e.event :=
  SignedEventV1.settle_eq_self (SignedEventV1.verify_validate
    (SignedEventV1.toWire_eq_ok.mp e.authentic.renders).1) e.authentic.settled

theorem StoredEvent.verify (e : StoredEvent B) : e.event.verify B = .ok () :=
  (SignedEventV1.toWire_eq_ok.mp e.authentic.renders).1

/-- Unmarked events read as themselves. -/
theorem StoredEvent.eq_of_unmarked {es fs : List (StoredEvent B)}
    (h : List.Forall₂ (SignedEventV1.ReadsAs B) (es.map StoredEvent.event)
      (fs.map StoredEvent.event)) (hunmarked : ∀ e ∈ es, e.event.Unmarked B) : fs = es := by
  have hread := SignedEventV1.readings_eq h fun event hevent ↦ by
    obtain ⟨e, he, rfl⟩ := List.mem_map.mp hevent
    exact hunmarked e he
  have hsettled : es.map (SignedEventV1.settle B ∘ StoredEvent.event) =
      es.map StoredEvent.event := List.map_congr_left fun e _ ↦ e.settle_event
  rw [List.map_map, hsettled] at hread
  exact List.map_injective_iff.mpr (fun _ _ ↦ StoredEvent.ext_event) hread

/-- Events read as themselves, unless the identifier hash takes one of them for what its wire reads
as. -/
theorem StoredEvent.eq_of_distinguished {es fs : List (StoredEvent B)}
    (h : List.Forall₂ (SignedEventV1.ReadsAs B) (es.map StoredEvent.event)
      (fs.map StoredEvent.event)) (hdistinguished : ∀ e ∈ es, e.event.Distinguished B) :
    fs = es := by
  refine StoredEvent.eq_of_unmarked h fun e he ↦ ?_
  obtain ⟨other, hother, hread⟩ := exists_of_forall₂ h.flip e.event (List.mem_map_of_mem he)
  obtain ⟨f, -, rfl⟩ := List.mem_map.mp hother
  exact SignedEventV1.unmarked_of_verify (hdistinguished e he) hread f.verify f.authentic.settled

/-! ### Checked events -/

/-- What the checks of a bundle establish of its events. -/
theorem checkBundleEvents_eq_ok {context : ContextId} {all seen : List EventId}
    {events : List SignedEventV1} :
    checkBundleEvents B context all seen events = .ok () ↔
      (∀ event ∈ events, event.verify B = .ok () ∧ event.body.context = context) ∧
      ∀ before event after, events = before ++ event :: after → ∀ parent ∈ event.body.parents,
        parent ∈ all → parent ∈ before.map SignedEventV1.eventId ∨ parent ∈ seen := by
  induction events generalizing seen with
  | nil => simp [checkBundleEvents]
  | cons event rest ih =>
    rw [checkBundleEvents, unit_bind_eq_ok, mapError_eq_ok, unit_bind_eq_ok, ensure_eq_ok,
      unit_bind_eq_ok, ensure_eq_ok, ih]
    constructor
    · rintro ⟨hverify, hcontext, hparents, hrest, hfirst⟩
      refine ⟨List.forall_mem_cons.mpr ⟨⟨hverify, hcontext⟩, hrest⟩, ?_⟩
      intro before other after hsplit parent hparent hall
      rcases before with _ | ⟨head, before⟩
      · obtain ⟨rfl, rfl⟩ := List.cons.inj hsplit
        exact Or.inr (not_not.mp fun hseen ↦ hparents parent hparent ⟨hall, hseen⟩)
      · obtain ⟨rfl, htail⟩ := List.cons.inj hsplit
        rcases hfirst before other after htail parent hparent hall with hbefore | hseen
        · exact Or.inl (List.mem_cons_of_mem _ hbefore)
        · rcases List.mem_cons.mp hseen with rfl | hseen
          · exact Or.inl List.mem_cons_self
          · exact Or.inr hseen
    · rintro ⟨hevents, hfirst⟩
      obtain ⟨⟨hverify, hcontext⟩, hrest⟩ := List.forall_mem_cons.mp hevents
      refine ⟨hverify, hcontext, fun parent hparent ⟨hall, hseen⟩ ↦ ?_, hrest, ?_⟩
      · exact (hfirst [] event rest rfl parent hparent hall).elim List.not_mem_nil hseen
      · intro before other after hsplit parent hparent hall
        rcases hfirst (event :: before) other after (by rw [hsplit]; rfl) parent hparent hall with
          hbefore | hseen
        · rcases List.mem_cons.mp hbefore with rfl | hbefore
          · exact Or.inr List.mem_cons_self
          · exact Or.inl hbefore
        · exact Or.inr (List.mem_cons_of_mem _ hseen)

theorem checkParts_eq_ok {context : ContextId} {events : List SignedEventV1}
    {refs : List AdvertisedRef} : checkParts B context events refs = .ok () ↔
      (events.length ≤ MAX_BUNDLE_EVENTS ∧ refs.length ≤ MAX_BUNDLE_REFS) ∧
      (events.map SignedEventV1.eventId).Nodup ∧
      ((∀ event ∈ events, event.verify B = .ok () ∧ event.body.context = context) ∧
        ∀ before event after, events = before ++ event :: after → ∀ parent ∈ event.body.parents,
          parent ∈ events.map SignedEventV1.eventId →
            parent ∈ before.map SignedEventV1.eventId) ∧
      Canonical refKey refs := by
  rw [checkParts, unit_bind_eq_ok, ensure_eq_ok, unit_bind_eq_ok, ensure_eq_ok, unit_bind_eq_ok,
    checkBundleEvents_eq_ok, ensure_eq_ok]
  simp only [List.not_mem_nil, or_false]

theorem map_settle_eventId (events : List SignedEventV1) :
    (events.map (SignedEventV1.settle B)).map SignedEventV1.eventId =
      events.map SignedEventV1.eventId := by
  rw [List.map_map]
  rfl

/-- The settled events of a checked bundle pass the checks. -/
theorem checkParts_settle (hnumbers : SafeNumbers B) {context : ContextId}
    {events : List SignedEventV1} {refs : List AdvertisedRef}
    (h : checkParts B context events refs = .ok ()) :
    checkParts B context (events.map (SignedEventV1.settle B)) refs = .ok () := by
  obtain ⟨hlength, hnodup, ⟨hevents, hfirst⟩, hrefs⟩ := checkParts_eq_ok.mp h
  refine checkParts_eq_ok.mpr ⟨by rwa [List.length_map], by rwa [map_settle_eventId],
    ⟨fun event hevent ↦ ?_, fun before event after hsplit parent hparent hall ↦ ?_⟩, hrefs⟩
  · obtain ⟨original, horiginal, rfl⟩ := List.mem_map.mp hevent
    exact ⟨SignedEventV1.verify_settle hnumbers (hevents original horiginal).1,
      (hevents original horiginal).2⟩
  · obtain ⟨front, back, hfront, rfl, hback⟩ := List.map_eq_append_iff.mp hsplit
    obtain ⟨original, rest, rfl, rfl, -⟩ := List.map_eq_cons_iff.mp hback
    rw [map_settle_eventId] at hall ⊢
    exact hfirst front original rest hfront parent hparent hall

/-! ### Advertised refs -/

namespace AdvertisedRef

theorem toJson_increasing (item : AdvertisedRef) :
    Increasing [("head", Json.str (item.head.text B)), ("name", .str item.name.asStr),
      ("namespace", .str "local")] :=
  increasing_of_names ["head", "name", "namespace"] rfl (by decide)

theorem settled_toJson (item : AdvertisedRef) : Settled B (item.toJson B) := by
  refine settled_obj item.toJson_increasing fun m hm ↦ ?_
  simp only [List.mem_cons, List.not_mem_nil, or_false] at hm
  rcases hm with rfl | rfl | rfl <;> exact settled_str _

theorem toJson_depth (item : AdvertisedRef) : (item.toJson B).depth ≤ 1 :=
  depth_obj_le fun m hm ↦ by
    simp only [List.mem_cons, List.not_mem_nil, or_false] at hm
    rcases hm with rfl | rfl | rfl <;> exact Nat.le_refl 0

theorem length_toJson_le (item : AdvertisedRef) : canonicalLength B (item.toJson B) ≤ 160 := by
  have hhead : canonicalLength B (.str (item.head.text B)) = 50 := by
    rw [EventId.text, canonicalLength_fixedText _ (by decide)]
    decide
  have hname : canonicalLength B (.str item.name.asStr) ≤ 66 := by
    obtain ⟨hbytes, hplain⟩ := dottedName_plain item.name.valid
    rw [canonicalLength_plain hplain]
    exact Nat.add_le_add_right hbytes 2
  have hnames : canonicalLength B (.str "head") = 6 ∧ canonicalLength B (.str "name") = 6 ∧
      canonicalLength B (.str "namespace") = 11 ∧ canonicalLength B (.str "local") = 7 := by
    refine ⟨?_, ?_, ?_, ?_⟩ <;>
    · rw [canonicalLength_plain (by decide)]
      decide
  rw [toJson, canonicalLength_obj item.toJson_increasing]
  simp only [List.map_cons, List.map_nil, List.sum_cons, List.sum_nil, List.length_cons,
    List.length_nil, hhead, hnames]
  omega

end AdvertisedRef

theorem takeString_eq_ok {object : Members} {key text : String} :
    takeString object key = .ok text ↔ member object key = some (.str text) := by
  rw [takeString, bind_eq_ok]
  simp only [mapError_eq_ok, takeRequired_eq_ok, intoString_eq_ok]
  constructor
  · rintro ⟨value, hvalue, rfl⟩
    exact hvalue
  · intro hvalue
    exact ⟨_, hvalue, rfl⟩

theorem parseRef_toJson (item : AdvertisedRef) : parseRef B (item.toJson B) = .ok item := by
  have htake {name text : String} (h : (name, Json.str text) ∈ [("head",
      Json.str (item.head.text B)), ("name", .str item.name.asStr), ("namespace", .str "local")]) :
      takeString _ name = .ok text :=
    takeString_eq_ok.mpr (member_of_mem item.toJson_increasing h)
  rw [parseRef, AdvertisedRef.toJson, intoObject, mapError_ok, ok_bind, rejectUnknown,
    ensure_true (by simp), mapError_ok, ok_bind, @htake "namespace" "local" (by simp), ok_bind,
    ensure_true rfl, ok_bind, @htake "name" item.name.asStr (by simp), ok_bind,
    LocalRefName.parse_eq_ok.mpr rfl, mapError_ok, ok_bind,
    @htake "head" (item.head.text B) (by simp), ok_bind, EventId.parse_eq_ok.mpr rfl, mapError_ok,
    ok_bind]

namespace BundleV1

/-! ### The envelope -/

/-- The bundle as its serializer presents it. -/
def toJson (bundle : BundleV1 B) : Json :=
  .obj [("bundle_version", .num (.posInt BUNDLE_VERSION)),
    ("context", .str (bundle.context.text B)),
    ("events", .arr (bundle.events.map (SignedEventV1.passed B))),
    ("refs", .arr (bundle.refs.map (AdvertisedRef.toJson B)))]

theorem toJson_increasing (bundle : BundleV1 B) :
    Increasing [("bundle_version", Json.num (.posInt BUNDLE_VERSION)),
      ("context", .str (bundle.context.text B)),
      ("events", .arr (bundle.events.map (SignedEventV1.passed B))),
      ("refs", .arr (bundle.refs.map (AdvertisedRef.toJson B)))] :=
  increasing_of_names ["bundle_version", "context", "events", "refs"] rfl (by decide)

/-- Every event of the bundle has a plain reading. -/
def Readable (bundle : BundleV1 B) : Prop := ∀ event ∈ bundle.events, (event.reading B).isSome

instance (bundle : BundleV1 B) : Decidable bundle.Readable := by
  unfold Readable
  infer_instance

/-- No event of the bundle has a payload with raw text. -/
def Unmarked (bundle : BundleV1 B) : Prop := ∀ event ∈ bundle.events, event.Unmarked B

theorem event_verify (bundle : BundleV1 B) :
    ∀ event ∈ bundle.events, event.verify B = .ok () := fun event hevent ↦
  ((checkParts_eq_ok.mp bundle.parts).2.2.1.1 event hevent).1

theorem Unmarked.readable {bundle : BundleV1 B} (h : bundle.Unmarked) : bundle.Readable :=
  fun event hevent ↦ by
    rw [SignedEventV1.reading_of_unmarked (bundle.event_verify event hevent) (h event hevent)]
    rfl

/-- The wire of a bundle is its canonical text, if its events have readings, within the bound. -/
theorem toWire_eq {bundle : BundleV1 B} {wire : Bytes}
    (h : canonicalize B bundle.toJson = .ok wire) : bundle.toWire = (do
      ensure bundle.Readable .bundleMalformed
      ensure (wire.length ≤ MAX_BUNDLE_CANONICAL_BYTES) .bundleLimitExceeded
      .ok wire) := by
  have hread : (fun event : SignedEventV1 ↦ do
      let wire ← (event.toWire B).mapError fun _ ↦ StoreError.bundleMalformed
      required (fromSlice B wire) .bundleMalformed) =
      fun event ↦ required (event.reading B) .bundleMalformed := by
    funext event
    rw [SignedEventV1.reading]
    cases event.toWire B <;> rfl
  rw [toWire, hread, mapEach_required _ _ .null]
  by_cases hreadable : bundle.Readable
  · have hall : ∀ event ∈ bundle.events, (event.reading B).isSome := hreadable
    rw [ensure_true hall, ensure_true hreadable, ok_bind, ok_bind, ok_bind]
    change ((canonicalize B bundle.toJson).mapError _ >>= _) = _
    rw [h, mapError_ok, ok_bind]
  · have hnot : ¬ ∀ event ∈ bundle.events, (event.reading B).isSome := hreadable
    rw [ensure_false hnot, ensure_false hreadable]
    rfl

theorem toWire_eq_ok {bundle : BundleV1 B} {wire : Bytes} :
    bundle.toWire = .ok wire ↔ canonicalize B bundle.toJson = .ok wire ∧
      wire.length ≤ MAX_BUNDLE_CANONICAL_BYTES ∧ bundle.Readable := by
  obtain ⟨bytes, hbytes⟩ := canonicalize_total (B := B) bundle.toJson
  rw [toWire_eq hbytes, unit_bind_eq_ok, unit_bind_eq_ok, ensure_eq_ok, ensure_eq_ok, hbytes,
    Except.ok.injEq, Except.ok.injEq]
  constructor
  · rintro ⟨hreadable, hlength, rfl⟩
    exact ⟨rfl, hlength, hreadable⟩
  · rintro ⟨rfl, hlength, hreadable⟩
    exact ⟨hreadable, hlength, rfl⟩

/-- What an unmarked bundle makes of its events. -/
theorem Unmarked.passed {bundle : BundleV1 B} (h : bundle.Unmarked) {event : SignedEventV1}
    (hevent : event ∈ bundle.events) : event.passed B = (event.settle B).toJson B :=
  SignedEventV1.passed_of_unmarked (bundle.event_verify event hevent) (h event hevent)

/-- The document of the bundle reads as itself. -/
structure Stable (bundle : BundleV1 B) : Prop where
  settled : Settled B bundle.toJson
  depth : bundle.toJson.depth ≤ 68
  unmarked : bundle.toJson.Unmarked

/-- The envelope of a bundle nests two levels deeper than its events, and marks nothing. -/
theorem stable_of_passed {bundle : BundleV1 B} (h : ∀ event ∈ bundle.events,
    Settled B (event.passed B) ∧ (event.passed B).depth ≤ 66 ∧ (event.passed B).Unmarked) :
    bundle.Stable where
  settled := by
    refine settled_obj bundle.toJson_increasing fun m hm ↦ ?_
    simp only [List.mem_cons, List.not_mem_nil, or_false] at hm
    rcases hm with rfl | rfl | rfl | rfl
    · exact settled_posInt (by decide)
    · exact settled_str _
    · refine settled_arr fun v hv ↦ ?_
      obtain ⟨event, hevent, rfl⟩ := List.mem_map.mp hv
      exact (h event hevent).1
    · refine settled_arr fun v hv ↦ ?_
      obtain ⟨item, -, rfl⟩ := List.mem_map.mp hv
      exact item.settled_toJson
  depth := by
    refine depth_obj_le (n := 67) fun m hm ↦ ?_
    simp only [List.mem_cons, List.not_mem_nil, or_false] at hm
    rcases hm with rfl | rfl | rfl | rfl
    · exact Nat.zero_le _
    · exact Nat.zero_le _
    · refine depth_arr_le fun v hv ↦ ?_
      obtain ⟨event, hevent, rfl⟩ := List.mem_map.mp hv
      exact (h event hevent).2.1
    · refine depth_arr_le fun v hv ↦ ?_
      obtain ⟨item, -, rfl⟩ := List.mem_map.mp hv
      exact item.toJson_depth.trans (by decide)
  unmarked := by
    refine ⟨not_beginsRaw (by decide), unmarkedMembers_iff.mpr fun m hm ↦ ?_⟩
    simp only [List.mem_cons, List.not_mem_nil, or_false] at hm
    rcases hm with rfl | rfl | rfl | rfl
    · trivial
    · trivial
    · refine unmarkedItems_iff.mpr fun v hv ↦ ?_
      obtain ⟨event, hevent, rfl⟩ := List.mem_map.mp hv
      exact (h event hevent).2.2
    · refine unmarkedItems_iff.mpr fun v hv ↦ ?_
      obtain ⟨item, -, rfl⟩ := List.mem_map.mp hv
      exact ⟨not_beginsRaw (by decide), trivial, trivial, trivial, trivial⟩

theorem Unmarked.stable {bundle : BundleV1 B} (h : bundle.Unmarked) : bundle.Stable :=
  stable_of_passed fun event hevent ↦ by
    have hvalid := SignedEventV1.verify_validate (bundle.event_verify event hevent)
    rw [h.passed hevent]
    refine ⟨SignedEventV1.settled_settle hvalid, ?_, SignedEventV1.unmarked_toJson.mpr (h _ hevent)⟩
    rw [SignedEventV1.toJson_settle (EventBodyV1.validate_eq_ok.mp hvalid).1]
    exact (Json.depth_collect_le _ _).trans (SignedEventV1.toJson_depth_le hvalid)

/-- The wire of a stable bundle reads as its document. -/
theorem Stable.reads {bundle : BundleV1 B} (h : bundle.Stable) {wire : Bytes}
    (hwire : bundle.toWire = .ok wire) : fromSlice B wire = some bundle.toJson := by
  have hself : bundle.toJson.collect B.reread = bundle.toJson := h.settled
  rw [fromSlice_canonicalize (toWire_eq_ok.mp hwire).1 (h.depth.trans (by decide))
    (hself.symm ▸ h.unmarked), hself]

/-- What a bundle with a wire is made of are readings. -/
theorem Readable.sorted_bare {bundle : BundleV1 B} (h : bundle.Readable) :
    bundle.toJson.Sorted ∧ bundle.toJson.Bare := by
  have hevents : ∀ v ∈ bundle.events.map (SignedEventV1.passed B), v.Sorted ∧ v.Bare :=
    fun v hv ↦ by
      obtain ⟨event, hevent, rfl⟩ := List.mem_map.mp hv
      obtain ⟨w, hw⟩ := Option.isSome_iff_exists.mp (h event hevent)
      obtain ⟨-, hsorted, hbare, -⟩ := SignedEventV1.reading_facts hw
      rw [SignedEventV1.passed, hw, Option.getD_some]
      exact ⟨hsorted, hbare⟩
  have hrefs : ∀ v ∈ bundle.refs.map (AdvertisedRef.toJson B), v.Sorted ∧ v.Bare :=
    fun v hv ↦ by
      obtain ⟨item, -, rfl⟩ := List.mem_map.mp hv
      exact ⟨⟨item.toJson_increasing, trivial, trivial, trivial, trivial⟩, by simp, trivial,
        trivial, trivial, trivial⟩
  refine ⟨⟨bundle.toJson_increasing, trivial, trivial, ?_, ?_, trivial⟩, by simp, trivial, trivial,
    ?_, ?_, trivial⟩
  · exact sortedItems_iff.mpr fun v hv ↦ (hevents v hv).1
  · exact sortedItems_iff.mpr fun v hv ↦ (hrefs v hv).1
  · exact bareItems_iff.mpr fun v hv ↦ (hevents v hv).2
  · exact bareItems_iff.mpr fun v hv ↦ (hrefs v hv).2

/-- The wire of a bundle reads as its document or not at all. -/
theorem reading_eq {bundle : BundleV1 B} {wire : Bytes} (h : bundle.toWire = .ok wire) {w : Json}
    (hread : fromSlice B wire = some w) : w = bundle.toJson.collect B.reread := by
  obtain ⟨hcanonical, -, hreadable⟩ := toWire_eq_ok.mp h
  obtain ⟨hsorted, hbare⟩ := hreadable.sorted_bare
  have hunmarked := unmarked_of_fromSlice hcanonical hread (Json.bare_collect _ _ hsorted hbare)
  have hplain := plain_of_fromSlice hcanonical hread
  rw [Json.plain_of_unmarked _ _ hunmarked, Json.collect_id_collect, Option.some.injEq] at hplain
  exact hplain.symm

/-- The canonical length of a bundle, in terms of its events and refs. -/
theorem length_toJson (bundle : BundleV1 B) : canonicalLength B bundle.toJson =
    canonicalLength B (.num (.posInt BUNDLE_VERSION)) +
      canonicalLength B (.arr (bundle.events.map (SignedEventV1.passed B))) +
      canonicalLength B (.arr (bundle.refs.map (AdvertisedRef.toJson B))) + 98 := by
  have hcontext : canonicalLength B (.str (bundle.context.text B)) = 50 := by
    rw [ContextId.text, canonicalLength_fixedText _ (by decide)]
    decide
  have hnames : canonicalLength B (.str "bundle_version") = 16 ∧
      canonicalLength B (.str "context") = 9 ∧ canonicalLength B (.str "events") = 8 ∧
        canonicalLength B (.str "refs") = 6 := by
    refine ⟨?_, ?_, ?_, ?_⟩ <;>
    · rw [canonicalLength_plain (by decide)]
      decide
  rw [toJson, canonicalLength_obj bundle.toJson_increasing]
  simp only [List.map_cons, List.map_nil, List.sum_cons, List.sum_nil, List.length_cons,
    List.length_nil, hcontext, hnames]
  omega

/-- The canonical length of a bundle is bounded by its counts, when its events pass. -/
theorem length_toJson_le {bundle : BundleV1 B} (hpasses : ∀ event ∈ bundle.events, event.Passes B) :
    canonicalLength B bundle.toJson ≤
      bundle.events.length * (MAX_RAW_WIRE_BYTES + 1) + bundle.refs.length * 161 + 200 := by
  have hevents : canonicalLength B (.arr (bundle.events.map (SignedEventV1.passed B))) ≤ _ :=
    canonicalLength_arr_le MAX_RAW_WIRE_BYTES fun v hv ↦ by
      obtain ⟨event, hevent, rfl⟩ := List.mem_map.mp hv
      obtain ⟨w, hw, hlength⟩ := hpasses event hevent
      rwa [SignedEventV1.passed, hw, Option.getD_some]
  have hrefs : canonicalLength B (.arr (bundle.refs.map (AdvertisedRef.toJson B))) ≤ _ :=
    canonicalLength_arr_le 160 fun v hv ↦ by
      obtain ⟨item, -, rfl⟩ := List.mem_map.mp hv
      exact item.length_toJson_le
  have hversion : canonicalLength B (.num (.posInt BUNDLE_VERSION)) ≤ 16 :=
    B.toVec_posInt_length (by decide)
  rw [List.length_map] at hevents hrefs
  rw [length_toJson]
  omega

/-- A bundle of at most seven events that pass has a wire, however large they are. -/
theorem toWire_of_short {bundle : BundleV1 B} (hpasses : ∀ event ∈ bundle.events, event.Passes B)
    (h : bundle.events.length ≤ 7) : ∃ wire, bundle.toWire = .ok wire := by
  obtain ⟨wire, hwire⟩ := canonicalize_total (B := B) bundle.toJson
  have hlength := length_toJson_le hpasses
  have hrefs := (checkParts_eq_ok.mp bundle.parts).1.2
  have hmax : MAX_RAW_WIRE_BYTES = 2097152 ∧ MAX_BUNDLE_REFS = 256 ∧
    MAX_BUNDLE_CANONICAL_BYTES = 16777216 := ⟨rfl, rfl, rfl⟩
  refine ⟨wire, toWire_eq_ok.mpr ⟨hwire, ?_, fun event hevent ↦ ?_⟩⟩
  · rw [canonicalize_length hwire, hmax.2.2]
    rw [hmax.1] at hlength
    rw [hmax.2.1] at hrefs
    omega
  · obtain ⟨w, hw, -⟩ := hpasses event hevent
    rw [hw]
    rfl

theorem Unmarked.passes {bundle : BundleV1 B} (h : bundle.Unmarked) :
    ∀ event ∈ bundle.events, event.Passes B :=
  fun event hevent ↦ (h event hevent).passes (bundle.event_verify event hevent)

/-! ### Decoding -/

/-- The wire of a bundle of settled, unmarked events parses to the bundle. -/
theorem fromWire_of_settled {bundle : BundleV1 B} (hunmarked : bundle.Unmarked)
    (hsettled : ∀ event ∈ bundle.events, event.settle B = event) {wire : Bytes}
    (h : bundle.toWire = .ok wire) : fromWire B wire = .ok bundle := by
  obtain ⟨hcanonical, hlength, -⟩ := toWire_eq_ok.mp h
  obtain ⟨⟨hevents, hrefs⟩, -⟩ := checkParts_eq_ok.mp bundle.parts
  have htake {name : String} {v : Json} (hv : (name, v) ∈ [("bundle_version",
      Json.num (.posInt BUNDLE_VERSION)), ("context", .str (bundle.context.text B)),
      ("events", .arr (bundle.events.map (SignedEventV1.passed B))),
      ("refs", .arr (bundle.refs.map (AdvertisedRef.toJson B)))]) : takeRequired _ name = .ok v :=
    takeRequired_eq_ok.mpr (member_of_mem bundle.toJson_increasing hv)
  have hparseEvents : mapEach (fun value ↦ do
      let wire ← (canonicalize B value).mapError fun _ ↦ StoreError.bundleMalformed
      (SignedEventV1.fromWire B wire).mapError fun _ ↦ StoreError.bundleMalformed)
      (bundle.events.map (SignedEventV1.passed B)) = .ok bundle.events := by
    refine mapEach_eq_ok.mpr (List.forall₂_map_left_iff.mpr (List.forall₂_same.mpr ?_))
    intro event hevent
    have hverify := bundle.event_verify event hevent
    obtain ⟨bytes, hbytes⟩ := canonicalize_total (B := B) (event.toJson B)
    have hself := hsettled event hevent
    have hjson : Settled B (event.toJson B) := by
      rw [← hself]
      exact SignedEventV1.settled_settle (SignedEventV1.verify_validate hverify)
    rw [hunmarked.passed hevent, hself, hbytes, mapError_ok, ok_bind,
      SignedEventV1.fromWire_of_settled
      (SignedEventV1.toWire_eq_ok.mpr ⟨hverify, hbytes⟩) hjson, mapError_ok]
  have hparseRefs : mapEach (parseRef B) (bundle.refs.map (AdvertisedRef.toJson B)) =
      .ok bundle.refs := by
    refine mapEach_eq_ok.mpr (List.forall₂_map_left_iff.mpr (List.forall₂_same.mpr ?_))
    exact fun item _ ↦ parseRef_toJson item
  have hversion : asU64 (.num (.posInt BUNDLE_VERSION)) = some BUNDLE_VERSION := rfl
  have hbuilt : fromParts B bundle.context bundle.events bundle.refs = .ok bundle :=
    fromParts_eq_ok.mpr ⟨rfl, rfl, rfl⟩
  rw [fromWire, ensure_true hlength, ok_bind,
    strictJson_canonicalize hcanonical (hunmarked.stable.depth.trans (by decide)), mapError_ok,
    ok_bind, hunmarked.stable.settled, toJson, intoObject, mapError_ok, ok_bind, rejectUnknown,
    ensure_true (by simp), mapError_ok, ok_bind,
    @htake "bundle_version" (.num (.posInt BUNDLE_VERSION)) (by simp), mapError_ok, ok_bind,
    ensure_true hversion, ok_bind,
    takeString_eq_ok.mpr (takeRequired_eq_ok.mp (@htake "context" (.str _) (by simp; rfl))),
    ok_bind, ContextId.parse_eq_ok.mpr rfl, mapError_ok, ok_bind,
    @htake "events" (.arr _) (by simp; rfl), mapError_ok, ok_bind,
    @htake "refs" (.arr _) (by simp; rfl), mapError_ok, ok_bind]
  dsimp only
  rw [ensure_true (by rwa [List.length_map, List.length_map, and_iff_right hevents]), ok_bind,
    hparseEvents, ok_bind, hparseRefs, ok_bind, hbuilt, ok_bind, h, ok_bind, ensure_true hlength,
    ok_bind]

/-- A bundle with its events settled. -/
def settle (hnumbers : SafeNumbers B) (bundle : BundleV1 B) : BundleV1 B :=
  ⟨bundle.context, bundle.events.map (SignedEventV1.settle B), bundle.refs,
    checkParts_settle hnumbers bundle.parts⟩

theorem settle_events (hnumbers : SafeNumbers B) (bundle : BundleV1 B) :
    ∀ event ∈ (bundle.settle hnumbers).events, event.settle B = event := by
  intro event hevent
  obtain ⟨original, horiginal, rfl⟩ := List.mem_map.mp hevent
  have hvalid := SignedEventV1.verify_validate (bundle.event_verify original horiginal)
  exact SignedEventV1.settle_eq_self (EventBodyV1.validate_settle hnumbers hvalid)
    (SignedEventV1.settled_settle hvalid)

theorem settle_passed (hnumbers : SafeNumbers B) (bundle : BundleV1 B) :
    (bundle.settle hnumbers).events.map (SignedEventV1.passed B) =
      bundle.events.map (SignedEventV1.passed B) := by
  change (bundle.events.map (SignedEventV1.settle B)).map _ = _
  rw [List.map_map]
  refine List.map_congr_left fun event hevent ↦ ?_
  exact congrArg (fun reading : Option Json ↦ reading.getD .null)
    (SignedEventV1.reading_settle hnumbers (bundle.event_verify event hevent))

theorem settle_readable (hnumbers : SafeNumbers B) (bundle : BundleV1 B) :
    (bundle.settle hnumbers).Readable ↔ bundle.Readable := by
  have hsame : ∀ event ∈ bundle.events, (event.settle B).reading B = event.reading B :=
    fun event hevent ↦ SignedEventV1.reading_settle hnumbers (bundle.event_verify event hevent)
  change (∀ event ∈ bundle.events.map (SignedEventV1.settle B), _) ↔ _
  rw [List.forall_mem_map]
  exact forall₂_congr fun event hevent ↦ by rw [hsame event hevent]

theorem settle_unmarked (hnumbers : SafeNumbers B) {bundle : BundleV1 B} :
    (bundle.settle hnumbers).Unmarked ↔ bundle.Unmarked := by
  change (∀ event ∈ bundle.events.map (SignedEventV1.settle B), _) ↔ _
  rw [List.forall_mem_map]
  exact forall₂_congr fun event hevent ↦ SignedEventV1.unmarked_settle
    (SignedEventV1.verify_validate (bundle.event_verify event hevent))

theorem toJson_settle (hnumbers : SafeNumbers B) (bundle : BundleV1 B) :
    (bundle.settle hnumbers).toJson = bundle.toJson := by
  rw [toJson, toJson, settle_passed]
  rfl

/-- Settling the events of a bundle does not change its wire. -/
theorem toWire_settle (hnumbers : SafeNumbers B) {bundle : BundleV1 B} {wire : Bytes}
    (h : bundle.toWire = .ok wire) : (bundle.settle hnumbers).toWire = .ok wire := by
  rw [toWire_eq_ok, toJson_settle, settle_readable, ← toWire_eq_ok, h]

/-- The wire of an unmarked bundle parses to the bundle of its settled events. -/
theorem fromWire_settle (hnumbers : SafeNumbers B) {bundle : BundleV1 B}
    (hunmarked : bundle.Unmarked) {wire : Bytes} (h : bundle.toWire = .ok wire) :
    fromWire B wire = .ok (bundle.settle hnumbers) :=
  fromWire_of_settled ((settle_unmarked hnumbers).mpr hunmarked) (settle_events hnumbers bundle)
    (toWire_settle hnumbers h)

/-- What the acceptance of bytes establishes besides the checks of the parts. -/
theorem fromWire_eq_ok {input : Bytes} {bundle : BundleV1 B} (h : fromWire B input = .ok bundle) :
    input.length ≤ MAX_BUNDLE_CANONICAL_BYTES ∧ (∀ event ∈ bundle.events, event.settle B = event) ∧
      ∃ wire, bundle.toWire = .ok wire := by
  obtain ⟨hlength, -, hwire⟩ := fromWire_parts h
  refine ⟨hlength, fun event hevent ↦ ?_, hwire⟩
  obtain ⟨wire, hauthentic⟩ := fromWire_authentic h event hevent
  exact SignedEventV1.settle_eq_self
    (SignedEventV1.verify_validate (bundle.event_verify event hevent)) hauthentic.settled

/-- A bundle that is accepted from the text of a value with no object of the raw token alone has no
such payload. -/
theorem bare_of_fromWire {w : Json} (hsorted : w.Sorted) (hbare : w.Bare) {wire : Bytes}
    (hwire : canonicalize B w = .ok wire) {bundle : BundleV1 B} (h : fromWire B wire = .ok bundle) :
    ∀ event ∈ bundle.events, event.body.payload.Bare := by
  obtain ⟨-, ⟨object, values, hobject, hvalues, hevents⟩, -⟩ := fromWire_parts h
  have hobjectBare : (Json.obj object).Bare :=
    strictJson_inverse hwire hobject ▸ Json.bare_collect B.reread w hsorted hbare
  have hvaluesBare := bareItems_iff.mp (bareMembers_iff.mp hobjectBare.2 _ (mem_of_member hvalues))
  have hvaluesSorted := sortedItems_iff.mp ((strictJson_sorted hobject).member hvalues)
  intro event hevent
  obtain ⟨value, hvalue, hparse⟩ := exists_of_forall₂ (mapEach_eq_ok.mp hevents) event hevent
  rw [← SignedEventV1.bare_toJson, (parseBundleEvent_eq_ok hparse).1]
  exact Json.bare_collect _ _ (hvaluesSorted value hvalue) (hvaluesBare value hvalue)

/-- The events of the wire of a bundle are what its own events read as. -/
theorem fromWire_reads {bundle parsed : BundleV1 B} {wire : Bytes}
    (h : bundle.toWire = .ok wire) (hparse : fromWire B wire = .ok parsed) :
    List.Forall₂ (SignedEventV1.ReadsAs B) bundle.events parsed.events := by
  obtain ⟨hcanonical, -, hreadable⟩ := toWire_eq_ok.mp h
  obtain ⟨-, ⟨object, values, hobject, hvalues, hevents⟩, -⟩ := fromWire_parts hparse
  have hsame := strictJson_inverse hcanonical hobject
  rw [toJson, Json.collect_obj _ bundle.toJson_increasing, Json.obj.injEq] at hsame
  have hmember : ("events", Json.arr (bundle.events.map fun event ↦
      (event.passed B).collect B.reread)) ∈ object := by
    rw [hsame]
    refine List.mem_map.mpr ⟨("events", .arr (bundle.events.map (SignedEventV1.passed B))),
      by simp, ?_⟩
    rw [Json.collect_arr, List.map_map]
    rfl
  have hinc : Increasing object := by
    rw [hsame]
    exact increasing_of_names ["bundle_version", "context", "events", "refs"] rfl (by decide)
  rw [member_of_mem hinc hmember, Option.some.injEq, Json.arr.injEq] at hvalues
  rw [← hvalues, mapEach_eq_ok, List.forall₂_map_left_iff] at hevents
  have hboth := (List.forall₂_and_left _ _).mpr ⟨hreadable, hevents⟩
  refine hboth.imp fun event again hevent ↦ ?_
  obtain ⟨hreading, hagain⟩ := hevent
  obtain ⟨w, hw⟩ := Option.isSome_iff_exists.mp hreading
  rw [SignedEventV1.passed, hw, Option.getD_some, parseBundleEvent_collect] at hagain
  exact ⟨w, hw, (parseBundleEvent_eq_ok hagain).1.symm⟩

/-- A bundle whose wire gives every event back on its own wire is unmarked. -/
theorem unmarked_of_fromWire {bundle parsed : BundleV1 B} {wire : Bytes}
    (h : bundle.toWire = .ok wire) (hparse : fromWire B wire = .ok parsed)
    (hsame : List.Forall₂ (fun event again ↦ ∃ bytes, event.toWire B = .ok bytes ∧
      again.toWire B = .ok bytes) bundle.events parsed.events) : bundle.Unmarked := by
  have hboth := (fromWire_reads h hparse).mp (fun _ _ hread hwires ↦ And.intro hread hwires) hsame
  intro event hevent
  obtain ⟨again, hagain, hread, bytes, hbytes, hbytes'⟩ := exists_of_forall₂ hboth.flip event hevent
  obtain ⟨wire', hauthentic⟩ := fromWire_authentic hparse again hagain
  exact hread.unmarked_of_wire hauthentic.settled hbytes hbytes'

/-- A bundle whose wire is accepted is unmarked, unless the identifier hash takes one of its events
for what its wire reads as. -/
theorem unmarked_of_distinguished {bundle parsed : BundleV1 B} {wire : Bytes}
    (h : bundle.toWire = .ok wire) (hparse : fromWire B wire = .ok parsed)
    (hdistinguished : ∀ event ∈ bundle.events, event.Distinguished B) : bundle.Unmarked := by
  intro event hevent
  obtain ⟨again, hagain, hread⟩ := exists_of_forall₂ (fromWire_reads h hparse).flip event hevent
  obtain ⟨wire', hauthentic⟩ := fromWire_authentic hparse again hagain
  exact SignedEventV1.unmarked_of_verify (hdistinguished event hevent) hread
    (parsed.event_verify again hagain) hauthentic.settled

end BundleV1

/-- The wire of the bundle gives it back: the same context and refs, and events of the same
identities and wires in the same order. -/
def BundleV1.RoundTrips (bundle : BundleV1 B) (wire : Bytes) : Prop :=
  ∃ parsed, BundleV1.fromWire B wire = .ok parsed ∧ parsed.context = bundle.context ∧
    parsed.refs = bundle.refs ∧
    List.Forall₂ (fun event again ↦ again.eventId = event.eventId ∧
      ∃ bytes, event.toWire B = .ok bytes ∧ again.toWire B = .ok bytes)
      bundle.events parsed.events ∧ parsed.toWire = .ok wire

theorem BundleV1.roundTrips_iff (hnumbers : SafeNumbers B) {bundle : BundleV1 B} {wire : Bytes}
    (h : bundle.toWire = .ok wire) : bundle.RoundTrips wire ↔ bundle.Unmarked := by
  constructor
  · rintro ⟨parsed, hparse, -, -, hevents, -⟩
    exact unmarked_of_fromWire h hparse (hevents.imp fun _ _ hevent ↦ hevent.2)
  · intro hunmarked
    refine ⟨bundle.settle hnumbers, fromWire_settle hnumbers hunmarked h, rfl, rfl, ?_,
      toWire_settle hnumbers h⟩
    change List.Forall₂ _ bundle.events (bundle.events.map (SignedEventV1.settle B))
    refine List.forall₂_map_right_iff.mpr (List.forall₂_same.mpr fun event hevent ↦ ⟨rfl, ?_⟩)
    obtain ⟨bytes, hbytes⟩ := canonicalize_total (B := B) (event.toJson B)
    have hrender := SignedEventV1.toWire_eq_ok.mpr ⟨bundle.event_verify event hevent, hbytes⟩
    exact ⟨bytes, hrender, SignedEventV1.toWire_settle hnumbers hrender⟩

/-- Of a bundle that was parsed, the wire gives the very bundle back when it gives its events. -/
theorem BundleV1.fromWire_iff {input wire : Bytes} {bundle : BundleV1 B}
    (hinput : fromWire B input = .ok bundle) (h : bundle.toWire = .ok wire) :
    fromWire B wire = .ok bundle ↔ bundle.Unmarked := by
  constructor
  · intro hparse
    refine unmarked_of_fromWire h hparse (List.forall₂_same.mpr fun event hevent ↦ ?_)
    obtain ⟨bytes, hauthentic⟩ := fromWire_authentic hinput event hevent
    exact ⟨bytes, hauthentic.renders, hauthentic.renders⟩
  · intro hunmarked
    exact fromWire_of_settled hunmarked (fromWire_eq_ok hinput).2.1 h

/-- A bundle that has a wire is read back from it, with the same context and refs and events of the
same identities and wires, exactly when no payload has an object that begins with the raw token; and
accepted bytes are those of a well-formed bundle, whose own wire gives it back under the same
condition. -/
theorem bundle_roundTrips_iff (B : Boundary) (hnumbers : SafeNumbers B) :
    (∀ context events refs bundle wire, BundleV1.fromParts B context events refs = .ok bundle →
      bundle.toWire = .ok wire →
        (bundle.RoundTrips wire ↔ ∀ event ∈ events, event.Unmarked B)) ∧
    ∀ input bundle, BundleV1.fromWire B input = .ok bundle →
      (∀ event ∈ bundle.events, event.verify B = .ok () ∧
        event.body.context = bundle.context) ∧
      (bundle.events.map SignedEventV1.eventId).Nodup ∧
      (∀ before event after, bundle.events = before ++ event :: after →
        ∀ parent ∈ event.body.parents, parent ∈ bundle.events.map SignedEventV1.eventId →
          parent ∈ before.map SignedEventV1.eventId) ∧
      Canonical refKey bundle.refs ∧
      bundle.events.length ≤ MAX_BUNDLE_EVENTS ∧ bundle.refs.length ≤ MAX_BUNDLE_REFS ∧
      input.length ≤ MAX_BUNDLE_CANONICAL_BYTES ∧
      ∃ wire, bundle.toWire = .ok wire ∧ wire.length ≤ MAX_BUNDLE_CANONICAL_BYTES ∧
        (BundleV1.fromWire B wire = .ok bundle ↔ ∀ event ∈ bundle.events, event.Unmarked B) := by
  constructor
  · intro context events refs bundle wire hparts hwire
    obtain ⟨rfl, rfl, rfl⟩ := BundleV1.fromParts_eq_ok.mp hparts
    exact BundleV1.roundTrips_iff hnumbers hwire
  · intro input bundle h
    obtain ⟨⟨hevents, hrefs⟩, hnodup, ⟨hverified, hfirst⟩, hcanonical⟩ :=
      checkParts_eq_ok.mp bundle.parts
    obtain ⟨hlength, -, wire, hwire⟩ := BundleV1.fromWire_eq_ok h
    exact ⟨hverified, hnodup, hfirst, hcanonical, hevents, hrefs, hlength, wire, hwire,
      (BundleV1.toWire_eq_ok.mp hwire).2.1, BundleV1.fromWire_iff h hwire⟩

section Golden

open Reference

/-- The genesis and the request of the fixture, with a branch at the request. -/
def goldenBundle : BundleV1 Golden.B where
  context := Golden.context
  events := [Golden.first.event, Golden.second.event]
  refs := [⟨.local, Golden.main, Golden.second.id⟩]
  parts := by
    refine checkParts_eq_ok.mpr ⟨by decide, ?_, ⟨fun event hevent ↦ ?_, ?_⟩,
      canonical_singleton _ _⟩
    · exact List.nodup_cons.mpr ⟨fun hmem ↦ Golden.first_ne_second (List.mem_singleton.mp hmem),
        List.nodup_singleton _⟩
    · simp only [List.mem_cons, List.not_mem_nil, or_false] at hevent
      rcases hevent with rfl | rfl
      · exact ⟨(SignedEventV1.toWire_eq_ok.mp Golden.first.authentic.renders).1, rfl⟩
      · exact ⟨(SignedEventV1.toWire_eq_ok.mp Golden.second.authentic.renders).1, rfl⟩
    · intro before event after hsplit parent hparent _
      rcases before with _ | ⟨front, _ | ⟨middle, before⟩⟩
      · obtain ⟨rfl, -⟩ := List.cons.inj hsplit
        exact absurd hparent List.not_mem_nil
      · obtain ⟨rfl, hrest⟩ := List.cons.inj hsplit
        obtain ⟨rfl, -⟩ := List.cons.inj hrest
        exact hparent
      · simp at hsplit

theorem goldenBundle_unmarked : goldenBundle.Unmarked := by
  intro event hevent
  simp only [goldenBundle, List.mem_cons, List.not_mem_nil, or_false] at hevent
  rcases hevent with rfl | rfl
  · exact golden_unmarked (Or.inl rfl)
  · exact golden_unmarked (Or.inr rfl)

theorem goldenBundle_wire : ∃ wire, goldenBundle.toWire = .ok wire :=
  BundleV1.toWire_of_short goldenBundle_unmarked.passes (by decide)

theorem bundle_roundTrips_golden : ∃ wire parsed, goldenBundle.toWire = .ok wire ∧
    BundleV1.fromWire Golden.B wire = .ok parsed ∧ parsed.toWire = .ok wire := by
  obtain ⟨wire, hwire⟩ := goldenBundle_wire
  obtain ⟨parsed, hparsed, -, -, -, hagain⟩ :=
    ((bundle_roundTrips_iff Golden.B (World.safeNumbers _)).1 _ _ _ goldenBundle wire
      (BundleV1.fromParts_eq_ok.mpr ⟨rfl, rfl, rfl⟩) hwire).mpr goldenBundle_unmarked
  exact ⟨wire, parsed, hwire, hparsed, hagain⟩

end Golden

section Marked

open Reference

/-- The marked request alone. -/
def markedBundle : BundleV1 Marked.B where
  context := Golden.context
  events := [Marked.marking.event]
  refs := []
  parts := by
    refine checkParts_eq_ok.mpr ⟨by decide, List.nodup_singleton _, ⟨fun event hevent ↦ ?_, ?_⟩,
      canonical_nil _⟩
    · rw [List.mem_singleton.mp hevent]
      exact ⟨(SignedEventV1.toWire_eq_ok.mp Marked.marked.authentic.renders).1, rfl⟩
    · intro before event after hsplit parent hparent hall
      have hevent : event ∈ [Marked.marking.event] := hsplit ▸ List.mem_append_right _
        List.mem_cons_self
      rw [List.mem_singleton.mp hevent] at hparent
      exact absurd ((List.mem_singleton.mp hparent).symm.trans (List.mem_singleton.mp hall))
        Marked.first_ne_marked

/-- The marked request is passed on as a settled, unmarked event, which is another one. -/
theorem markedBundle_stable : markedBundle.Stable := by
  refine BundleV1.stable_of_passed fun event hevent ↦ ?_
  rw [List.mem_singleton.mp hevent, SignedEventV1.passed, marking_reading, Option.getD_some]
  have hsettled : Settled Marked.B unwrapped.body.payload := settled_posInt (by decide)
  exact ⟨SignedEventV1.settled_toJson rfl hsettled, by decide,
    SignedEventV1.unmarked_toJson.mpr trivial⟩

theorem markedBundle_wire : ∃ wire, markedBundle.toWire = .ok wire :=
  BundleV1.toWire_of_short (fun _ hevent ↦ List.mem_singleton.mp hevent ▸ marking_passes)
    (by decide)

theorem markedBundle_rejected {wire : Bytes} (hwire : markedBundle.toWire = .ok wire)
    {parsed : BundleV1 Marked.B} : BundleV1.fromWire Marked.B wire ≠ .ok parsed := by
  intro hparsed
  have hunmarked := BundleV1.unmarked_of_distinguished hwire hparsed fun event hevent ↦ by
    rw [List.mem_singleton.mp hevent]
    exact marking_distinguished
  exact marking_marked (hunmarked _ (List.mem_singleton_self _))

/-- The marked request is bundled, and the bytes of the bundle are refused. -/
theorem markedBundle_refused :
    BundleV1.fromParts Marked.B Golden.context [Marked.marking.event] [] = .ok markedBundle ∧
    ∃ wire, markedBundle.toWire = .ok wire ∧
      ∀ parsed, BundleV1.fromWire Marked.B wire ≠ .ok parsed := by
  obtain ⟨wire, hwire⟩ := markedBundle_wire
  exact ⟨BundleV1.fromParts_eq_ok.mpr ⟨rfl, rfl, rfl⟩, wire, hwire, fun _ ↦
    markedBundle_rejected hwire⟩

end Marked

end ContextMesh.Store
