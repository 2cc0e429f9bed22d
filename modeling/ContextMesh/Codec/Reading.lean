import ContextMesh.Codec.Event
import ContextMesh.Reference.Marked

/-!
What the plain reading makes of the wire of an event, which is how a bundle passes an event on. An
event whose payload has no object that begins with the raw token reads as itself; any other reads as
an event with another payload, or not at all.
-/

set_option autoImplicit false
set_option relaxedAutoImplicit false

namespace ContextMesh.Contract

open Checked

variable {B : Boundary}

/-- Two bodies have different canonical bytes and one identifier. -/
def EventBodyV1.Collides (B : Boundary) (first second : EventBodyV1) : Prop :=
  ∃ bytes bytes', first.canonicalBytes B = .ok bytes ∧ second.canonicalBytes B = .ok bytes' ∧
    bytes ≠ bytes' ∧ B.deriveKey EVENT_ID_DOMAIN bytes = B.deriveKey EVENT_ID_DOMAIN bytes'

namespace SignedEventV1

/-- The event around another payload. -/
def withPayload (event : SignedEventV1) (payload : Json) : SignedEventV1 :=
  { event with body := { event.body with payload } }

variable (B) in
/-- What the plain reading makes of the wire of the event. -/
def reading (event : SignedEventV1) : Option Json := (event.toWire B).toOption.bind (fromSlice B)

variable (B) in
/-- The event as a bundle passes it on, if it has a reading. -/
def passed (event : SignedEventV1) : Json := (event.reading B).getD .null

variable (B) in
/-- No object of the payload begins with the raw token. -/
def Unmarked (event : SignedEventV1) : Prop := (event.body.payload.collect B.reread).Unmarked

variable (B) in
/-- The event has a reading that is no longer than an event may be. -/
def Passes (event : SignedEventV1) : Prop :=
  ∃ w, event.reading B = some w ∧ canonicalLength B w ≤ MAX_RAW_WIRE_BYTES

variable (B) in
/-- The wire of the one event reads plainly as the other. -/
def ReadsAs (event other : SignedEventV1) : Prop :=
  ∃ w, event.reading B = some w ∧ w.collect B.reread = other.toJson B

variable (B) in
/-- The identifier hash tells the event from what its wire reads as. -/
def Distinguished (event : SignedEventV1) : Prop :=
  ∀ other, event.ReadsAs B other → ¬ other.body.Collides B event.body

end SignedEventV1

/-! ### The document of an event -/

theorem EventBodyV1.plain_toJson (read : String → Option Json) (body : EventBodyV1) :
    (body.toJson B).plain read =
      (body.payload.plain read).map fun payload ↦ ({ body with payload }).toJson B := by
  have hparents : ∀ ids : List EventId, plainItems read (ids.map fun id ↦ .str (id.text B)) =
      some (ids.map fun id ↦ .str (id.text B)) := by
    intro ids
    induction ids with
    | nil => rfl
    | cons id rest ih =>
      rw [List.map_cons, plainItems, ih]
      rfl
  rw [toJson, Json.plain, if_neg (not_beginsRaw (by decide))]
  simp only [plainMembers, Json.plain, hparents, Option.bind_some, Option.map_some]
  cases body.payload.plain read <;> rfl

theorem EventBodyV1.bare_toJson {body : EventBodyV1} :
    (body.toJson B).Bare ↔ body.payload.Bare := by
  have hparents : BareItems (body.parents.map fun id ↦ .str (id.text B)) :=
    bareItems_iff.mpr fun v hv ↦ by
      obtain ⟨id, -, rfl⟩ := List.mem_map.mp hv
      trivial
  simp only [toJson, Json.Bare, BareMembers, List.map_cons, List.map_nil, hparents, true_and,
    and_true, ne_eq, List.cons.injEq, reduceCtorEq, and_false, not_false_eq_true]

theorem EventBodyV1.unmarked_toJson {body : EventBodyV1} :
    (body.toJson B).Unmarked ↔ body.payload.Unmarked := by
  have hparents : UnmarkedItems (body.parents.map fun id ↦ .str (id.text B)) :=
    unmarkedItems_iff.mpr fun v hv ↦ by
      obtain ⟨id, -, rfl⟩ := List.mem_map.mp hv
      trivial
  simp only [toJson, Json.Unmarked, UnmarkedMembers, hparents, true_and, and_true, BeginsRaw,
    List.head?_cons, Option.map_some, Option.some.injEq]
  exact and_iff_right (by decide)

namespace SignedEventV1

/-- Only the payload of an event can read as something else. -/
theorem plain_toJson (read : String → Option Json) (event : SignedEventV1) :
    (event.toJson B).plain read =
      (event.body.payload.plain read).map fun payload ↦ (event.withPayload payload).toJson B := by
  rw [toJson, Json.plain, if_neg (not_beginsRaw (by decide))]
  simp only [plainMembers, Json.plain, EventBodyV1.plain_toJson, Option.bind_some]
  cases event.body.payload.plain read <;> rfl

theorem bare_toJson {event : SignedEventV1} :
    (event.toJson B).Bare ↔ event.body.payload.Bare := by
  simp only [toJson, Json.Bare, BareMembers, List.map_cons, List.map_nil, true_and, and_true,
    ne_eq, List.cons.injEq, reduceCtorEq, and_false, not_false_eq_true, EventBodyV1.bare_toJson]

theorem unmarked_toJson {event : SignedEventV1} :
    (event.toJson B).Unmarked ↔ event.body.payload.Unmarked := by
  simp only [toJson, Json.Unmarked, UnmarkedMembers, and_true, BeginsRaw, List.head?_cons,
    Option.map_some, Option.some.injEq, EventBodyV1.unmarked_toJson]
  exact and_iff_right (by decide)

/-! ### Readings -/

theorem reading_of_wire {event : SignedEventV1} {wire : Bytes} (h : event.toWire B = .ok wire) :
    event.reading B = fromSlice B wire := by
  rw [reading, h]
  rfl

/-- An event reads as its settled form around what its payload reads as. -/
theorem reading_eq {event : SignedEventV1} {wire : Bytes} (h : event.toWire B = .ok wire) :
    event.reading B = ((event.settle B).body.payload.plain (readRaw B wire)).map
      fun payload ↦ ((event.settle B).withPayload payload).toJson B := by
  obtain ⟨hverify, hcanonical⟩ := toWire_eq_ok.mp h
  have hvalid := verify_validate hverify
  rw [reading_of_wire h, fromSlice_of_canonicalize hcanonical (toJson_depth hvalid),
    ← toJson_settle (EventBodyV1.validate_eq_ok.mp hvalid).1, plain_toJson]

theorem reading_facts {event : SignedEventV1} {w : Json} (h : event.reading B = some w) :
    event.verify B = .ok () ∧ w.Sorted ∧ w.Bare ∧ ∃ bytes payload,
      (event.settle B).body.payload.plain (readRaw B bytes) = some payload ∧
        w = ((event.settle B).withPayload payload).toJson B := by
  obtain ⟨wire, hwire, hread⟩ := Option.bind_eq_some_iff.mp h
  have hwire' : event.toWire B = .ok wire := by
    cases hcases : event.toWire B with
    | ok bytes =>
      rw [hcases] at hwire
      exact congrArg Except.ok (Option.some.inj hwire)
    | error error =>
      rw [hcases] at hwire
      cases hwire
  rw [reading_eq hwire'] at h
  obtain ⟨payload, hpayload, rfl⟩ := Option.map_eq_some_iff.mp h
  obtain ⟨hsorted, hbare⟩ := fromSlice_reading hread
  exact ⟨(toWire_eq_ok.mp hwire').1, hsorted, hbare, wire, payload, hpayload, rfl⟩

/-- An unmarked event reads as itself, settled. -/
theorem reading_of_unmarked {event : SignedEventV1} (hverify : event.verify B = .ok ())
    (h : event.Unmarked B) : event.reading B = some ((event.settle B).toJson B) := by
  obtain ⟨wire, hwire⟩ := canonicalize_total (B := B) (event.toJson B)
  have hpayload : (event.settle B).body.payload.plain (readRaw B wire) =
      some (event.settle B).body.payload := by
    have hplain := Json.plain_of_unmarked (readRaw B wire) _ h
    rwa [Json.collect_id_collect] at hplain
  rw [reading_eq (toWire_eq_ok.mpr ⟨hverify, hwire⟩), hpayload]
  rfl

theorem passed_of_unmarked {event : SignedEventV1} (hverify : event.verify B = .ok ())
    (h : event.Unmarked B) : event.passed B = (event.settle B).toJson B := by
  rw [passed, reading_of_unmarked hverify h, Option.getD_some]

theorem Unmarked.passes {event : SignedEventV1} (hverify : event.verify B = .ok ())
    (h : event.Unmarked B) : event.Passes B := by
  refine ⟨_, reading_of_unmarked hverify h, ?_⟩
  obtain ⟨wire, hwire⟩ := canonicalize_total (B := B) (event.toJson B)
  rw [toJson_settle (EventBodyV1.validate_eq_ok.mp (verify_validate hverify)).1, canonicalLength,
    B.toVec_collect, ← canonicalLength, ← canonicalize_length hwire]
  exact toWire_length (toWire_eq_ok.mpr ⟨hverify, hwire⟩)

/-- A verified event and the same event settled have one wire, so they have one reading. -/
theorem reading_settle (hnumbers : SafeNumbers B) {event : SignedEventV1}
    (hverify : event.verify B = .ok ()) : (event.settle B).reading B = event.reading B := by
  obtain ⟨bytes, hbytes⟩ := canonicalize_total (B := B) (event.toJson B)
  have hwire := toWire_eq_ok.mpr ⟨hverify, hbytes⟩
  rw [reading_of_wire (toWire_settle hnumbers hwire), reading_of_wire hwire]

/-- Settling the numbers of an event marks nothing. -/
theorem unmarked_settle {event : SignedEventV1} (hvalid : event.body.validate B = .ok ()) :
    (event.settle B).Unmarked B ↔ event.Unmarked B := by
  have hdepth := validateJsonValue_depth _ _ (EventBodyV1.validate_eq_ok.mp hvalid).2.2.2.2.1
  have hsettled : Settled B (event.body.payload.collect B.reread) :=
    settled_collect ((Nat.le_of_succ_le_succ hdepth).trans (by decide))
  rw [Unmarked, Unmarked]
  change ((event.body.payload.collect B.reread).collect B.reread).Unmarked ↔ _
  rw [hsettled]

/-- Events of one wire have one settled form. -/
theorem settle_eq_of_wire {event other : SignedEventV1} {wire : Bytes}
    (hevent : event.toWire B = .ok wire) (hother : other.toWire B = .ok wire) :
    other.settle B = event.settle B := by
  obtain ⟨hverify, hcanonical⟩ := toWire_eq_ok.mp hevent
  obtain ⟨hverify', hcanonical'⟩ := toWire_eq_ok.mp hother
  have hvalid := verify_validate hverify
  have hvalid' := verify_validate hverify'
  have hsame := canonicalize_determines hcanonical hcanonical' (toJson_depth hvalid)
  rw [← toJson_settle (EventBodyV1.validate_eq_ok.mp hvalid).1,
    ← toJson_settle (EventBodyV1.validate_eq_ok.mp hvalid').1] at hsame
  exact (toJson_injective hsame).symm

/-- A settled event that has a reading is unmarked, when its payload has no object with the raw
token alone. -/
theorem unmarked_of_bare {event : SignedEventV1} (hsettled : event.settle B = event)
    (hreads : (event.reading B).isSome) (hbare : event.body.payload.Bare) : event.Unmarked B := by
  obtain ⟨w, hw⟩ := Option.isSome_iff_exists.mp hreads
  obtain ⟨-, -, -, bytes, payload, hpayload, -⟩ := reading_facts hw
  have hself : (event.settle B).body.payload.Bare := by rwa [hsettled]
  exact Json.unmarked_of_plain _ _ hself hpayload

/-! ### Events that read as events -/

/-- The identifier of an event is read as it is. -/
theorem ReadsAs.eventId {event other : SignedEventV1} (h : event.ReadsAs B other) :
    other.eventId = event.eventId := by
  obtain ⟨w, hw, hsame⟩ := h
  obtain ⟨hverify, -, -, bytes, payload, -, rfl⟩ := reading_facts hw
  have hversion : event.body.version = EVENT_VERSION :=
    (EventBodyV1.validate_eq_ok.mp (verify_validate hverify)).1
  have hjson : (((event.settle B).withPayload payload).settle B).toJson B = _ :=
    toJson_settle hversion
  rw [← toJson_injective (hjson.trans hsame)]
  rfl

/-- An unmarked event reads as itself settled, and as nothing else. -/
theorem ReadsAs.eq_settle {event other : SignedEventV1} (h : event.ReadsAs B other)
    (hunmarked : event.Unmarked B) : other = event.settle B := by
  obtain ⟨w, hw, hsame⟩ := h
  have hverify := (reading_facts hw).1
  rw [reading_of_unmarked hverify hunmarked, Option.some.injEq] at hw
  have hsettled : Settled B ((event.settle B).toJson B) := settled_settle (verify_validate hverify)
  exact toJson_injective (B := B) (by rw [← hsame, ← hw, hsettled])

theorem readings_eq {events others : List SignedEventV1}
    (h : List.Forall₂ (ReadsAs B) events others) (hunmarked : ∀ event ∈ events, event.Unmarked B) :
    others = events.map (settle B) := by
  induction h with
  | nil => rfl
  | cons hread _ ih =>
    obtain ⟨hfirst, hrest⟩ := List.forall_mem_cons.mp hunmarked
    rw [List.map_cons, hread.eq_settle hfirst, ih hrest]

/-- An event that reads as one with its own payload is unmarked: what is read holds no object with
the raw token alone. -/
theorem ReadsAs.unmarked {event other : SignedEventV1} (h : event.ReadsAs B other)
    (hpayload : other.body.payload = (event.settle B).body.payload) : event.Unmarked B := by
  obtain ⟨w, hw, hsame⟩ := h
  obtain ⟨-, hsorted, hbare, bytes, payload, hread, -⟩ := reading_facts hw
  have hother := bare_toJson.mp (hsame ▸ Json.bare_collect B.reread w hsorted hbare)
  rw [hpayload] at hother
  exact Json.unmarked_of_plain _ _ hother hread

/-- An event whose wire reads as an event with that wire is unmarked. -/
theorem ReadsAs.unmarked_of_wire {event other : SignedEventV1} (h : event.ReadsAs B other)
    (hsettled : Settled B (other.toJson B)) {wire : Bytes} (hevent : event.toWire B = .ok wire)
    (hother : other.toWire B = .ok wire) : event.Unmarked B := by
  have hself := settle_eq_self (verify_validate (toWire_eq_ok.mp hother).1) hsettled
  have hsame := settle_eq_of_wire hevent hother
  rw [hself] at hsame
  exact h.unmarked (congrArg (fun e : SignedEventV1 ↦ e.body.payload) hsame)

/-- Only an unmarked event reads as one that verifies, unless two bodies collide. -/
theorem unmarked_of_verify {event other : SignedEventV1} (hdistinguished : event.Distinguished B)
    (hread : event.ReadsAs B other) (hverify : other.verify B = .ok ())
    (hsettled : Settled B (other.toJson B)) : event.Unmarked B := by
  obtain ⟨w, hw, -⟩ := id hread
  obtain ⟨hvalid, ⟨bytes, hbytes, hid⟩, -⟩ := verify_eq_ok.mp (reading_facts hw).1
  obtain ⟨hvalid', ⟨bytes', hbytes', hid'⟩, -⟩ := verify_eq_ok.mp hverify
  have hkeys : B.deriveKey EVENT_ID_DOMAIN bytes' = B.deriveKey EVENT_ID_DOMAIN bytes := by
    rw [hread.eventId, hid] at hid'
    exact (EventId.mk.inj hid').symm
  obtain rfl : bytes' = bytes := by
    by_contra hne
    exact hdistinguished other hread ⟨bytes', bytes, hbytes', hbytes, hne, hkeys⟩
  rw [EventBodyV1.canonicalBytes_of_valid hvalid] at hbytes
  rw [EventBodyV1.canonicalBytes_of_valid hvalid'] at hbytes'
  have hbodies : (other.body.settle B).toJson B = (event.body.settle B).toJson B := by
    have hdepth := toJson_depth (B := B) hvalid'
    rw [toJson, Json.depth, depthMembers] at hdepth
    rw [EventBodyV1.toJson_settle (EventBodyV1.validate_eq_ok.mp hvalid').1,
      EventBodyV1.toJson_settle (EventBodyV1.validate_eq_ok.mp hvalid).1]
    exact canonicalize_determines hbytes' hbytes (by omega)
  simp only [EventBodyV1.toJson, Json.obj.injEq, List.cons.injEq, Prod.mk.injEq, true_and,
    and_true] at hbodies
  have hother : other.settle B = other := settle_eq_self hvalid' hsettled
  exact hread.unmarked ((congrArg (fun e : SignedEventV1 ↦ e.body.payload) hother).symm.trans
    hbodies.2.2.2.2.1)

/-- An unmarked event is distinguished. -/
theorem Unmarked.distinguished {event : SignedEventV1} (hverify : event.verify B = .ok ())
    (h : event.Unmarked B) : event.Distinguished B := by
  rintro other hread ⟨bytes, bytes', hbytes, hbytes', hne, -⟩
  have hvalid := verify_validate hverify
  have hother : event.settle B = other := (hread.eq_settle h).symm
  obtain ⟨hvalid', hbytes⟩ := unit_bind_eq_ok.mp hbytes
  rw [EventBodyV1.canonicalBytes_of_valid hvalid] at hbytes'
  rw [← hother] at hbytes
  exact hne (Except.ok.inj (hbytes.symm.trans ((EventBodyV1.canonicalize_settle
    (EventBodyV1.validate_eq_ok.mp hvalid).1).trans hbytes')))

end SignedEventV1

section Golden

open Reference

theorem golden_unmarked {s : Signed} (h : s = Golden.genesis ∨ s = Golden.request) :
    s.event.Unmarked Golden.B := by
  have hpayload : s.body.payload.Unmarked := by
    rcases h with rfl | rfl
    · exact ⟨by decide, trivial⟩
    · exact ⟨not_beginsRaw (by decide), trivial, trivial⟩
  have hsettled := Golden.settled_payload s h Golden.B
  rwa [SignedEventV1.Unmarked, Signed.event, hsettled]

end Golden

section Marked

open Reference

/-- The request with what its raw text reads as for its payload. -/
def unwrapped : SignedEventV1 := Marked.marking.event.withPayload (.num (.posInt 1))

theorem marking_settle : Marked.marking.event.settle Marked.B = Marked.marking.event :=
  SignedEventV1.settle_eq_self (Marked.validate (Or.inr rfl))
    (SignedEventV1.settled_toJson rfl (Marked.settled_payload (Or.inr rfl) Marked.B))

theorem marking_marked : ¬ Marked.marking.event.Unmarked Marked.B := by
  have hsettled := Marked.settled_payload (s := Marked.marking) (Or.inr rfl) Marked.B
  rw [SignedEventV1.Unmarked, Signed.event, hsettled]
  exact fun h ↦ h.1 rfl

theorem marking_distinguished : Marked.marking.event.Distinguished Marked.B := by
  rintro other - ⟨bytes, bytes', -, hbytes', hne, hkeys⟩
  have hlisted : Marked.marking ∈ Marked.world.signed :=
    List.mem_cons_of_mem _ (List.mem_singleton_self _)
  exact World.not_collides Marked.sound hlisted (by decide) (Marked.validate (Or.inr rfl)) hbytes'
    hne hkeys

/-- The marked request has a reading, and it is another event. -/
theorem marking_reading :
    Marked.marking.event.reading Marked.B = some (unwrapped.toJson Marked.B) := by
  have hrender := Marked.marked.authentic.renders
  have hone : asBytes "1" = toVec (.num (.posInt 1)) := asBytes_eq "1"
  have hshorter : (asBytes "1").length < Marked.marked.wire.length := by
    have hlength : (asBytes "1").length = 1 := by decide
    rw [hlength, canonicalize_length (SignedEventV1.toWire_eq_ok.mp hrender).2,
      SignedEventV1.toJson, canonicalLength_obj (SignedEventV1.toJson_increasing _)]
    omega
  have hread : readRaw Marked.B Marked.marked.wire "1" = some (.num (.posInt 1)) := by
    have hcanonical : canonicalize Marked.B (.num (.posInt 1)) = .ok (asBytes "1") :=
      congrArg Except.ok hone.symm
    rw [readRaw, if_pos hshorter, fromSlice_of_canonicalize hcanonical (by decide)]
    rfl
  have hpayload : Marked.marking.event.body.payload.plain (readRaw Marked.B Marked.marked.wire) =
      some (.num (.posInt 1)) := by
    have hraw : BeginsRaw [(RAW_TOKEN, Json.str "1")] := rfl
    change (Json.obj [(RAW_TOKEN, .str "1")]).plain _ = _
    rw [Json.plain, if_pos hraw, rawText, Option.bind_some, hread]
  refine (SignedEventV1.reading_eq hrender).trans ?_
  change ((Marked.marking.event.settle Marked.B).body.payload.plain _).map _ = _
  rw [marking_settle, hpayload]
  rfl

theorem marking_passes : Marked.marking.event.Passes Marked.B := by
  have hbody := @EventBodyV1.canonicalLength_toJson Marked.B unwrapped.body rfl rfl
  have hpayload : canonicalLength Marked.B (.num (.posInt 1)) ≤ 16 :=
    Marked.B.toVec_posInt_length (by decide)
  have hkind : unwrapped.body.kind.utf8ByteSize = 13 := by decide
  have hparents : unwrapped.body.parents.length = 1 := rfl
  have hmax : MAX_RAW_WIRE_BYTES = 2097152 := rfl
  change canonicalLength Marked.B unwrapped.body.payload ≤ 16 at hpayload
  refine ⟨_, marking_reading, ?_⟩
  rw [SignedEventV1.length_toJson]
  omega

end Marked

end ContextMesh.Contract
