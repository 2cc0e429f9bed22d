import ContextMesh.Delivery.Validity

/-!
Summaries of a history at three levels. A summary of a branch covers the ancestry of its head, and
that of a project the ancestries of all its local refs. Its identifier commits to its payload, and
verification looks every covered event up.
-/

set_option autoImplicit false
set_option relaxedAutoImplicit false

namespace ContextMesh.Delivery

open Checked Ordered Contract Relation Store Ledger ContextMesh.Delta

/-- BLAKE3 derive-key context of summary identifiers. -/
def SUMMARY_ID_DOMAIN : String := "org.aaif.contextmesh.summary-id.v1"

/-- Maximum bytes of one derived summary note. -/
def MAX_SUMMARY_NOTE_BYTES : ℕ := 1024

/-- A BLAKE3-derived summary identifier. -/
structure SummaryId where
  bytes : Fixed 32
  deriving DecidableEq

/-- What the identifier of a summary commits to. -/
inductive SummaryPayload
  | event (context : ContextId) (event : EventId) (kind note : String)
  | ref (context : ContextId) (refName : String) (head : EventId) (events : List EventId)
    (note : String)
  | project (context : ContextId) (events : List EventId) (note : String)

/-- A content-addressed summary. -/
structure Summary where
  summaryId : SummaryId
  payload : SummaryPayload

/-- The outcome of verifying a summary. -/
structure SummaryVerification where
  valid : Bool
  checked : ℕ
  deriving DecidableEq

inductive SummaryError
  | store (error : StoreError)
  | delta (error : DeltaError)
  | tampered (recorded recomputed : SummaryId)
  | drifted (event : EventId)
  | wrongContext (event : EventId)
  | unknownRef (context : ContextId) (name : String)
  | empty
  | internal

variable (B : Boundary)

namespace SummaryPayload

def context : SummaryPayload → ContextId
  | event context _ _ _ | ref context _ _ _ _ | project context _ _ => context

/-- The events that the summary covers. -/
def covered : SummaryPayload → List EventId
  | event _ id _ _ => [id]
  | ref _ _ _ events _ | project _ events _ => events

/-- Identifiers as their serializer presents them. -/
def listJson (events : List EventId) : Json := .arr (events.map fun id ↦ .str (id.text B))

/-- The payload as its serializer presents it, tagged with its level. -/
def members : SummaryPayload → Members
  | event context id kind note =>
    [("context", .str (context.text B)),
      ("event", .str (id.text B)),
      ("kind", .str kind),
      ("level", .str "event"),
      ("note", .str note)]
  | ref context refName head events note =>
    [("context", .str (context.text B)),
      ("events", listJson B events),
      ("head", .str (head.text B)),
      ("level", .str "ref"),
      ("note", .str note),
      ("ref_name", .str refName)]
  | project context events note =>
    [("context", .str (context.text B)),
      ("events", listJson B events),
      ("level", .str "project"),
      ("note", .str note)]

def toJson (payload : SummaryPayload) : Json := .obj (payload.members B)

end SummaryPayload

/-- The characters of a text that fit into a number of bytes. -/
def boundedPrefix : ℕ → List Char → List Char
  | _, [] => []
  | room, c :: rest =>
    if c.utf8Size ≤ room then c :: boundedPrefix (room - c.utf8Size) rest else []

/-- The note of a stored event, or its kind, cut at a character boundary. -/
def derivedNote (event : SignedEventV1) : String :=
  let note := match event.body.payload with
    | .obj object =>
      match member object "note" with
      | some (.str note) => note
      | _ => event.body.kind
    | _ => event.body.kind
  if note.utf8ByteSize > MAX_SUMMARY_NOTE_BYTES then
    String.ofList (boundedPrefix MAX_SUMMARY_NOTE_BYTES note.toList)
  else note

namespace Summary

/-- The content address of a payload. -/
def derive (payload : SummaryPayload) : Except SummaryError SummaryId := do
  let canonical ← (canonicalize B (payload.toJson B)).mapError fun _ ↦ .internal
  .ok ⟨B.deriveKey SUMMARY_ID_DOMAIN canonical⟩

def fromPayload (payload : SummaryPayload) : Except SummaryError Summary := do
  let summaryId ← derive B payload
  .ok ⟨summaryId, payload⟩

/-- An event-level summary of one stored event. -/
def event (t : Tables) (context : ContextId) (event : EventId) :
    Except SummaryError Summary := do
  let found ← (Store.event B t event).mapError .store
  let stored ← required found (.drifted event)
  ensure (stored.body.context = context) (.wrongContext event)
  fromPayload B (.event context event stored.body.kind (derivedNote stored))

/-- A ref-level summary of the ancestry of a local ref. -/
def refSummary (t : Tables) (context : ContextId) (name : LocalRefName) (limits : ClosureLimits) :
    Except SummaryError Summary := do
  let found ← (localRefOn B t context name).mapError .store
  let head ← required found (.unknownRef context name.asStr)
  let recipient ← (RecipientState.atHead B t context head limits).mapError .delta
  let events := recipient.closure
  ensure (events ≠ []) .empty
  fromPayload B (.ref context name.asStr head events
    s!"ref {name.asStr} at {head.text B} covering {events.length} events")

/-- Adds the ancestry of one local ref to what is covered. -/
def gatherRef (t : Tables) (context : ContextId) (limits : ClosureLimits)
    (covered : List EventId) (reference : LocalRef) : Except SummaryError (List EventId) := do
  let recipient ← (RecipientState.atHead B t context reference.head limits).mapError .delta
  .ok (covered ++ recipient.closure)

/-- A project-level summary of the ancestries of all local refs. -/
def project (t : Tables) (context : ContextId) (limits : ClosureLimits) :
    Except SummaryError Summary := do
  let refs ← (listLocalRefs B t context).mapError .store
  let gathered ← foldEach (gatherRef B t context limits) [] refs
  let covered := normalize (EventId.text B) gathered
  ensure (covered ≠ []) .empty
  fromPayload B (.project context covered
    s!"project {context.text B} covering {covered.length} events")

/-- Looks one covered event up; the count is carried. -/
def checkCovered (t : Tables) (context : ContextId) (checked : ℕ) (id : EventId) :
    Except SummaryError ℕ := do
  let found ← (Store.event B t id).mapError .store
  let stored ← required found (.drifted id)
  ensure (stored.body.context = context) (.wrongContext id)
  .ok (checked + 1)

/-- Verifies a summary: its identifier is that of its payload, and every covered event is stored in
its context. -/
def verifyAgainstDag (summary : Summary) (t : Tables) :
    Except SummaryError SummaryVerification := do
  let expected ← derive B summary.payload
  ensure (expected = summary.summaryId) (.tampered summary.summaryId expected)
  let checked ← foldEach (checkCovered B t summary.payload.context) 0 summary.payload.covered
  .ok ⟨true, checked⟩

end Summary

/-! ### The content address -/

variable {B} {t : Tables} {context : ContextId} {limits : ClosureLimits}

theorem SummaryPayload.members_increasing (payload : SummaryPayload) :
    Increasing (payload.members B) := by
  cases payload with
  | event context id kind note =>
    exact increasing_of_names ["context", "event", "kind", "level", "note"] rfl (by decide)
  | ref context refName head events note =>
    exact increasing_of_names ["context", "events", "head", "level", "note", "ref_name"] rfl
      (by decide)
  | project context events note =>
    exact increasing_of_names ["context", "events", "level", "note"] rfl (by decide)

/-- Every value of a payload is a text or a list of texts. -/
theorem SummaryPayload.mem_members {payload : SummaryPayload} {m : String × Json}
    (hm : m ∈ payload.members B) :
    (∃ text, m.2 = .str text) ∨ ∃ events, m.2 = listJson B events := by
  cases payload with
  | event context id kind note =>
    simp only [members, List.mem_cons, List.not_mem_nil, or_false] at hm
    rcases hm with rfl | rfl | rfl | rfl | rfl <;> exact Or.inl ⟨_, rfl⟩
  | ref context refName head events note =>
    simp only [members, List.mem_cons, List.not_mem_nil, or_false] at hm
    rcases hm with rfl | rfl | rfl | rfl | rfl | rfl
    · exact Or.inl ⟨_, rfl⟩
    · exact Or.inr ⟨events, rfl⟩
    · exact Or.inl ⟨_, rfl⟩
    · exact Or.inl ⟨_, rfl⟩
    · exact Or.inl ⟨_, rfl⟩
    · exact Or.inl ⟨_, rfl⟩
  | project context events note =>
    simp only [members, List.mem_cons, List.not_mem_nil, or_false] at hm
    rcases hm with rfl | rfl | rfl | rfl
    · exact Or.inl ⟨_, rfl⟩
    · exact Or.inr ⟨events, rfl⟩
    · exact Or.inl ⟨_, rfl⟩
    · exact Or.inl ⟨_, rfl⟩

theorem SummaryPayload.settled_toJson (payload : SummaryPayload) :
    Settled B (payload.toJson B) := by
  refine settled_obj payload.members_increasing fun m hm ↦ ?_
  rcases mem_members hm with ⟨text, hvalue⟩ | ⟨events, hvalue⟩
  · rw [hvalue]
    exact settled_str text
  · rw [hvalue, listJson]
    refine settled_arr fun v hv ↦ ?_
    obtain ⟨id, -, rfl⟩ := List.mem_map.mp hv
    exact settled_str _

theorem SummaryPayload.depth_toJson_le (payload : SummaryPayload) :
    (payload.toJson B).depth ≤ 2 := by
  refine depth_obj_le (n := 1) fun m hm ↦ ?_
  rcases mem_members hm with ⟨text, hvalue⟩ | ⟨events, hvalue⟩
  · rw [hvalue]
    exact Nat.zero_le 1
  · rw [hvalue, listJson]
    refine depth_arr_le fun v hv ↦ ?_
    obtain ⟨id, -, rfl⟩ := List.mem_map.mp hv
    exact Nat.le_refl 0

theorem listJson_injective : Function.Injective (SummaryPayload.listJson B) := by
  intro first second h
  have hitems := Json.arr.inj h
  refine List.map_injective_iff.mpr (fun a b hab ↦ ?_) hitems
  exact EventId.text_injective (Json.str.inj hab)

/-- The serialized form of a payload determines every field of it. -/
theorem SummaryPayload.toJson_injective : Function.Injective (SummaryPayload.toJson B) := by
  intro first second h
  have hmembers : first.members B = second.members B := Json.obj.inj h
  -- Payloads of different levels differ in their tags; those of one level differ in a member.
  cases first with
  | event context id kind note =>
    cases second with
    | event context' id' kind' note' =>
      simp only [members, List.cons.injEq, Prod.mk.injEq, Json.str.injEq, true_and,
        and_true, ContextId.text_injective.eq_iff, EventId.text_injective.eq_iff] at hmembers
      obtain ⟨rfl, rfl, rfl, rfl⟩ := hmembers
      rfl
    | ref _ _ _ _ _ => simp [members] at hmembers
    | project _ _ _ => simp [members] at hmembers
  | ref context refName head events note =>
    cases second with
    | event _ _ _ _ => simp [members] at hmembers
    | ref context' refName' head' events' note' =>
      simp only [members, List.cons.injEq, Prod.mk.injEq, Json.str.injEq, true_and,
        and_true, ContextId.text_injective.eq_iff, EventId.text_injective.eq_iff,
        listJson_injective.eq_iff] at hmembers
      obtain ⟨rfl, rfl, rfl, rfl, rfl⟩ := hmembers
      rfl
    | project _ _ _ => simp [members] at hmembers
  | project context events note =>
    cases second with
    | event _ _ _ _ => simp [members] at hmembers
    | ref _ _ _ _ _ => simp [members] at hmembers
    | project context' events' note' =>
      simp only [members, List.cons.injEq, Prod.mk.injEq, Json.str.injEq, true_and,
        and_true, ContextId.text_injective.eq_iff, listJson_injective.eq_iff] at hmembers
      obtain ⟨rfl, rfl, rfl⟩ := hmembers
      rfl

variable (B) in
/-- Two payloads with different canonical bytes of the same hash. -/
def Collides (first second : SummaryPayload) : Prop :=
  ∃ a b, canonicalize B (first.toJson B) = .ok a ∧ canonicalize B (second.toJson B) = .ok b ∧
    a ≠ b ∧ B.deriveKey SUMMARY_ID_DOMAIN a = B.deriveKey SUMMARY_ID_DOMAIN b

theorem canonicalize_payload_injective {first second : SummaryPayload} {bytes : Bytes}
    (hfirst : canonicalize B (first.toJson B) = .ok bytes)
    (hsecond : canonicalize B (second.toJson B) = .ok bytes) : first = second := by
  have hread (payload : SummaryPayload)
      (hbytes : canonicalize B (payload.toJson B) = .ok bytes) :
      strictJson B bytes = .ok (payload.toJson B) := by
    rw [strictJson_canonicalize hbytes (payload.depth_toJson_le.trans (by decide)),
      payload.settled_toJson]
  exact SummaryPayload.toJson_injective
    (Except.ok.inj ((hread first hfirst).symm.trans (hread second hsecond)))

namespace Summary

theorem derive_eq_ok {payload : SummaryPayload} {id : SummaryId} :
    derive B payload = .ok id ↔ ∃ canonical, canonicalize B (payload.toJson B) = .ok canonical ∧
      id = ⟨B.deriveKey SUMMARY_ID_DOMAIN canonical⟩ := by
  rw [derive, bind_eq_ok]
  refine exists_congr fun canonical ↦ ?_
  rw [mapError_eq_ok, Except.ok.injEq, eq_comm (a := id)]

theorem derive_total (payload : SummaryPayload) : ∃ id, derive B payload = .ok id := by
  obtain ⟨canonical, hcanonical⟩ := canonicalize_total (B := B) (payload.toJson B)
  exact ⟨_, derive_eq_ok.mpr ⟨canonical, hcanonical, rfl⟩⟩

theorem fromPayload_eq_ok {payload : SummaryPayload} {summary : Summary} :
    fromPayload B payload = .ok summary ↔
      derive B payload = .ok summary.summaryId ∧ summary.payload = payload := by
  rw [fromPayload, bind_eq_ok]
  constructor
  · rintro ⟨id, hid, heq⟩
    rw [Except.ok.injEq] at heq
    exact ⟨heq ▸ hid, heq ▸ rfl⟩
  · rintro ⟨hid, rfl⟩
    exact ⟨_, hid, rfl⟩

/-- A record that keeps the identifier of another payload is refused in every store, unless the two
payloads collide. -/
theorem verifyAgainstDag_altered {summary altered : Summary}
    (hderived : derive B summary.payload = .ok summary.summaryId)
    (hsame : altered.summaryId = summary.summaryId) (hother : altered.payload ≠ summary.payload)
    (t : Tables) :
    (∃ recomputed, altered.verifyAgainstDag B t =
      .error (.tampered altered.summaryId recomputed)) ∨
        Collides B altered.payload summary.payload := by
  obtain ⟨a, ha, hid⟩ := derive_eq_ok.mp hderived
  obtain ⟨recomputed, hrecomputed⟩ := derive_total (B := B) altered.payload
  obtain ⟨b, hb, hbytes⟩ := derive_eq_ok.mp hrecomputed
  by_cases heq : recomputed = altered.summaryId
  · refine Or.inr ⟨b, a, hb, ha, fun hab ↦ hother ?_, ?_⟩
    · exact canonicalize_payload_injective hb (hab ▸ ha)
    · rw [hbytes, hsame, hid] at heq
      exact SummaryId.mk.inj heq
  · refine Or.inl ⟨recomputed, ?_⟩
    rw [verifyAgainstDag, hrecomputed, ok_bind, ensure, if_neg heq]
    rfl

/-! ### Coverage -/

variable {L : Ledger B}

/-- A covered event is checked exactly when it is stored in the context. -/
theorem checkCovered_eq_ok (h : L.WellFormed) {checked counted : ℕ} {id : EventId} :
    checkCovered B L.tables context checked id = .ok counted ↔
      L.Holds context id ∧ counted = checked + 1 := by
  rw [checkCovered, event_tables h.toWellKeyed, mapError_ok, ok_bind, h.toWellKeyed.holds_iff]
  cases L.find id with
  | none => simp
  | some e =>
    rw [Option.map_some, Option.map_some, required_some, ok_bind, unit_bind_eq_ok, ensure_eq_ok,
      Except.ok.injEq, Option.some.injEq, eq_comm (a := counted)]

/-- A record is accepted exactly when its identifier is that of its payload and every event it
covers is stored in its context. -/
theorem verifyAgainstDag_eq_ok (h : L.WellFormed) {summary : Summary}
    {verification : SummaryVerification} :
    summary.verifyAgainstDag B L.tables = .ok verification ↔
      derive B summary.payload = .ok summary.summaryId ∧
        (∀ id ∈ summary.payload.covered, L.Holds summary.payload.context id) ∧
          verification = ⟨true, summary.payload.covered.length⟩ := by
  have hloop : ∀ (ids : List EventId) (start counted : ℕ),
      foldEach (checkCovered B L.tables summary.payload.context) start ids = .ok counted ↔
        (∀ id ∈ ids, L.Holds summary.payload.context id) ∧ counted = start + ids.length := by
    intro ids
    induction ids with
    | nil => simp [foldEach, eq_comm]
    | cons id rest ih =>
      intro start counted
      rw [foldEach, bind_eq_ok, List.forall_mem_cons, List.length_cons]
      constructor
      · rintro ⟨middle, hmiddle, hrest⟩
        obtain ⟨hid, rfl⟩ := (checkCovered_eq_ok h).mp hmiddle
        obtain ⟨hall, rfl⟩ := (ih _ _).mp hrest
        exact ⟨⟨hid, hall⟩, by omega⟩
      · rintro ⟨⟨hid, hall⟩, rfl⟩
        exact ⟨start + 1, (checkCovered_eq_ok h).mpr ⟨hid, rfl⟩,
          (ih _ _).mpr ⟨hall, by omega⟩⟩
  obtain ⟨expected, hexpected⟩ := derive_total (B := B) summary.payload
  rw [verifyAgainstDag, hexpected, ok_bind, unit_bind_eq_ok, ensure_eq_ok, Except.ok.injEq,
    bind_eq_ok]
  refine and_congr_right fun _ ↦ ?_
  constructor
  · rintro ⟨checked, hchecked, heq⟩
    obtain ⟨hall, rfl⟩ := (hloop _ _ _).mp hchecked
    rw [Except.ok.injEq, Nat.zero_add] at heq
    exact ⟨hall, heq.symm⟩
  · rintro ⟨hall, rfl⟩
    exact ⟨_, (hloop _ _ _).mpr ⟨hall, (Nat.zero_add _).symm⟩, rfl⟩

/-- A ref summary covers the ancestry of the head of its ref. -/
theorem refSummary_eq_ok (h : L.WellFormed) {name : LocalRefName} {summary : Summary}
    (hok : refSummary B L.tables context name limits = .ok summary) :
    derive B summary.payload = .ok summary.summaryId ∧
      ∃ head events note, L.localHead context name = some head ∧
        summary.payload = .ref context name.asStr head events note ∧
        Canonical (EventId.text B) events ∧ ∀ id, id ∈ events ↔ L.Ancestor head id := by
  obtain ⟨found, hfound, hok⟩ := bind_eq_ok.mp hok
  obtain ⟨head, hhead, hok⟩ := bind_eq_ok.mp hok
  obtain ⟨recipient, hrecipient, hok⟩ := bind_eq_ok.mp hok
  obtain ⟨-, hok⟩ := unit_bind_eq_ok.mp hok
  obtain ⟨hderived, hpayload⟩ := fromPayload_eq_ok.mp hok
  rw [mapError_eq_ok, localRefOn_tables h, Except.ok.injEq] at hfound
  rw [required_eq_ok] at hhead
  obtain ⟨-, -, hcanonical, hmem, -⟩ := atHead_eq_ok h (mapError_eq_ok.mp hrecipient)
  exact ⟨hpayload ▸ hderived, head, recipient.closure, _, hfound.trans hhead, hpayload,
    hcanonical, hmem⟩

/-- What is gathered over some refs: the ancestries of their heads. -/
theorem mem_gathered (h : L.WellFormed) {refs : List LocalRef} {start gathered : List EventId}
    (hok : foldEach (gatherRef B L.tables context limits) start refs = .ok gathered)
    (id : EventId) : id ∈ gathered ↔ id ∈ start ∨ ∃ ref ∈ refs, L.Ancestor ref.head id := by
  induction refs generalizing start with
  | nil =>
    rw [foldEach, Except.ok.injEq] at hok
    simp [hok]
  | cons ref rest ih =>
    obtain ⟨middle, hmiddle, hrest⟩ := bind_eq_ok.mp hok
    obtain ⟨recipient, hrecipient, hmiddle⟩ := bind_eq_ok.mp hmiddle
    obtain ⟨-, -, -, hmem, -⟩ := atHead_eq_ok h (mapError_eq_ok.mp hrecipient)
    rw [Except.ok.injEq] at hmiddle
    rw [ih hrest, ← hmiddle, List.mem_append, hmem, List.exists_mem_cons_iff, or_assoc]

/-- A project summary covers the ancestries of the heads of all refs. -/
theorem project_eq_ok (h : L.WellFormed) {summary : Summary}
    (hok : project B L.tables context limits = .ok summary) :
    derive B summary.payload = .ok summary.summaryId ∧
      ∃ events note, summary.payload = .project context events note ∧
        Canonical (EventId.text B) events ∧
        ∀ id, id ∈ events ↔ ∃ ref ∈ L.localRefsOf context, L.Ancestor ref.head id := by
  obtain ⟨refs, hrefs, hok⟩ := bind_eq_ok.mp hok
  obtain ⟨gathered, hgathered, hok⟩ := bind_eq_ok.mp hok
  obtain ⟨-, hok⟩ := unit_bind_eq_ok.mp hok
  obtain ⟨hderived, hpayload⟩ := fromPayload_eq_ok.mp hok
  rw [mapError_eq_ok, listLocalRefs_tables h, Except.ok.injEq] at hrefs
  subst hrefs
  refine ⟨hpayload ▸ hderived, _, _, hpayload, normalize_canonical EventId.text_injective _,
    fun id ↦ ?_⟩
  rw [mem_normalize, mem_gathered h hgathered]
  simp

/-- An event summary covers its event, which is stored in the context. -/
theorem event_eq_ok (h : L.WellFormed) {id : EventId} {summary : Summary}
    (hok : Summary.event B L.tables context id = .ok summary) :
    derive B summary.payload = .ok summary.summaryId ∧ L.Holds context id ∧
      ∃ kind note, summary.payload = .event context id kind note := by
  obtain ⟨found, hfound, hok⟩ := bind_eq_ok.mp hok
  obtain ⟨stored, hstored, hok⟩ := bind_eq_ok.mp hok
  obtain ⟨hcontext, hok⟩ := unit_bind_eq_ok.mp hok
  obtain ⟨hderived, hpayload⟩ := fromPayload_eq_ok.mp hok
  rw [mapError_eq_ok, event_tables h.toWellKeyed, Except.ok.injEq] at hfound
  rw [required_eq_ok] at hstored
  rw [ensure_eq_ok] at hcontext
  obtain ⟨e, hfind, rfl⟩ := Option.map_eq_some_iff.mp (hfound.trans hstored)
  obtain ⟨he, hid⟩ := h.find_eq_some.mp hfind
  exact ⟨hpayload ▸ hderived, ⟨e, he, hid, hcontext⟩, _, _, hpayload⟩

/-- The known history of a branch exists when the ancestry of its head is within the limits. -/
theorem atHead_of_branch (h : L.WellFormed)
    (hlimits : ClosureLimits.new limits.maxEvents limits.maxExportedBytes = .ok limits)
    {ref : LocalRef} (href : ref ∈ L.localRefsOf context)
    (hwithin : WithinLimits B L.tables limits (L.Ancestor ref.head)) :
    ∃ recipient, RecipientState.atHead B L.tables context ref.head limits = .ok recipient ∧
      ref.head ∈ recipient.closure := by
  obtain ⟨hmem, hcontext⟩ := mem_localRefsOf.mp href
  have hbelow : L.Below [ref.head] = L.Ancestor ref.head := by
    funext id
    simp [Below]
  obtain ⟨recipient, hrecipient⟩ := atHead_succeeds h hlimits
    (hcontext ▸ h.localTargets ref hmem) (hbelow ▸ hwithin)
  obtain ⟨-, -, -, hclosure, -⟩ := atHead_eq_ok h hrecipient
  exact ⟨recipient, hrecipient, (hclosure ref.head).mpr .refl⟩

/-- A branch whose ancestry is within the limits is summarized. -/
theorem refSummary_succeeds (h : L.WellFormed)
    (hlimits : ClosureLimits.new limits.maxEvents limits.maxExportedBytes = .ok limits)
    {name : LocalRefName} {head : EventId} (hhead : L.localHead context name = some head)
    (hwithin : WithinLimits B L.tables limits (L.Ancestor head)) :
    ∃ summary, refSummary B L.tables context name limits = .ok summary := by
  have href : (⟨context, name, head⟩ : LocalRef) ∈ L.localRefsOf context :=
    mem_localRefsOf.mpr ⟨h.toWellKeyed.localHead_eq_some.mp hhead, rfl⟩
  obtain ⟨recipient, hrecipient, hmem⟩ := atHead_of_branch h hlimits href hwithin
  obtain ⟨id, hid⟩ := derive_total (B := B) (.ref context name.asStr head recipient.closure
    s!"ref {name.asStr} at {head.text B} covering {recipient.closure.length} events")
  rw [refSummary, localRefOn_tables h, mapError_ok, ok_bind, hhead, required_some, ok_bind,
    hrecipient, mapError_ok, ok_bind]
  dsimp only
  rw [ensure_true (List.ne_nil_of_mem hmem), ok_bind]
  exact ⟨⟨id, _⟩, fromPayload_eq_ok.mpr ⟨hid, rfl⟩⟩

/-- A context with a branch is summarized when the ancestry of each branch is within the limits. -/
theorem project_succeeds (h : L.WellFormed)
    (hlimits : ClosureLimits.new limits.maxEvents limits.maxExportedBytes = .ok limits)
    {name : LocalRefName} {head : EventId} (hhead : L.localHead context name = some head)
    (hwithin : ∀ name head, L.localHead context name = some head →
      WithinLimits B L.tables limits (L.Ancestor head)) :
    ∃ summary, project B L.tables context limits = .ok summary := by
  obtain ⟨gathered, hgathered⟩ : ∃ gathered, foldEach (gatherRef B L.tables context limits) []
      (L.localRefsOf context) = .ok gathered := by
    refine foldEach_total (fun covered ref href ↦ ?_) []
    obtain ⟨hmem, rfl⟩ := mem_localRefsOf.mp href
    obtain ⟨recipient, hrecipient, -⟩ := atHead_of_branch h hlimits href
      (hwithin ref.name ref.head (h.toWellKeyed.localHead_eq_some.mpr hmem))
    exact ⟨_, bind_eq_ok.mpr ⟨recipient, mapError_eq_ok.mpr hrecipient, rfl⟩⟩
  have hcovered : head ∈ normalize (EventId.text B) gathered := by
    rw [mem_normalize, mem_gathered h hgathered]
    exact Or.inr ⟨⟨context, name, head⟩,
      mem_localRefsOf.mpr ⟨h.toWellKeyed.localHead_eq_some.mp hhead, rfl⟩, .refl⟩
  obtain ⟨id, hid⟩ := derive_total (B := B) (.project context
    (normalize (EventId.text B) gathered)
    s!"project {context.text B} covering {(normalize (EventId.text B) gathered).length} events")
  rw [project, listLocalRefs_tables h, mapError_ok, ok_bind, hgathered, ok_bind]
  dsimp only
  rw [ensure_true (List.ne_nil_of_mem hcovered), ok_bind]
  exact ⟨⟨id, _⟩, fromPayload_eq_ok.mpr ⟨hid, rfl⟩⟩

end Summary

variable (B) in
/-- The summary was built from the store, at one of the three levels. -/
def Summary.Built (t : Tables) (context : ContextId) (limits : ClosureLimits)
    (summary : Summary) : Prop :=
  (∃ id, Summary.event B t context id = .ok summary) ∨
    (∃ name, Summary.refSummary B t context name limits = .ok summary) ∨
      Summary.project B t context limits = .ok summary

/-- A summary that was built carries the identifier of its payload, and every event it covers is
stored in its context. -/
theorem Summary.Built.stands {L : Ledger B} (h : L.WellFormed) {summary : Summary}
    (hbuilt : Summary.Built B L.tables context limits summary) :
    Summary.derive B summary.payload = .ok summary.summaryId ∧
      ∀ id ∈ summary.payload.covered, L.Holds summary.payload.context id := by
  rcases hbuilt with ⟨id, hok⟩ | ⟨name, hok⟩ | hok
  · obtain ⟨hderived, hheld, kind, note, hpayload⟩ := Summary.event_eq_ok h hok
    rw [hpayload] at hderived ⊢
    exact ⟨hderived, fun other hother ↦ List.mem_singleton.mp hother ▸ hheld⟩
  · obtain ⟨hderived, head, events, note, hhead, hpayload, -, hmem⟩ :=
      Summary.refSummary_eq_ok h hok
    rw [hpayload] at hderived ⊢
    have hheld := h.localTargets _ (h.toWellKeyed.localHead_eq_some.mp hhead)
    exact ⟨hderived, fun id hid ↦ h.holds_ancestor hheld ((hmem id).mp hid)⟩
  · obtain ⟨hderived, events, note, hpayload, -, hmem⟩ := Summary.project_eq_ok h hok
    rw [hpayload] at hderived ⊢
    refine ⟨hderived, fun id hid ↦ ?_⟩
    obtain ⟨ref, href, hancestor⟩ := (hmem id).mp hid
    obtain ⟨hstored, hcontext⟩ := mem_localRefsOf.mp href
    exact h.holds_ancestor (hcontext ▸ h.localTargets ref hstored) hancestor

/-- Summaries cover exactly the ancestry. Within the limits, a branch has a summary, which covers
the ancestry of its head, and a context with a branch has one, which covers the ancestries of all
heads; each lists its events in canonical order, so without repeats. Every summary that was built
is accepted in every later store with all of its events checked, and a record with another payload
under its identifier is refused in every store, unless BLAKE3 collides on the two payloads. -/
theorem summaries_cover (B : Boundary) {t : Tables} (hreachable : Reachable B t)
    (context : ContextId) (limits : ClosureLimits) :
    (ClosureLimits.new limits.maxEvents limits.maxExportedBytes = .ok limits →
      (∀ name head, localRefId t context name = .ok (some head) →
        WithinLimits B t limits (ReflTransGen (t.Parent B) head) →
          ∃ summary, Summary.refSummary B t context name limits = .ok summary) ∧
      ((∃ name head, localRefId t context name = .ok (some head)) →
        (∀ name head, localRefId t context name = .ok (some head) →
          WithinLimits B t limits (ReflTransGen (t.Parent B) head)) →
            ∃ summary, Summary.project B t context limits = .ok summary)) ∧
    (∀ name summary, Summary.refSummary B t context name limits = .ok summary →
      ∃ head events note, localRefId t context name = .ok (some head) ∧
        summary.payload = .ref context name.asStr head events note ∧
        Canonical (EventId.text B) events ∧
        ∀ id, id ∈ events ↔ ReflTransGen (t.Parent B) head id) ∧
    (∀ summary, Summary.project B t context limits = .ok summary →
      ∃ events note, summary.payload = .project context events note ∧
        Canonical (EventId.text B) events ∧
        ∀ id, id ∈ events ↔ ∃ name head, localRefId t context name = .ok (some head) ∧
          ReflTransGen (t.Parent B) head id) ∧
    (∀ summary, Summary.Built B t context limits summary →
      (∀ later, Run B t later → summary.verifyAgainstDag B later =
        .ok ⟨true, summary.payload.covered.length⟩) ∧
      ∀ altered : Summary, altered.summaryId = summary.summaryId →
        altered.payload ≠ summary.payload → ∀ anywhere,
          (∃ recomputed, altered.verifyAgainstDag B anywhere =
            .error (.tampered altered.summaryId recomputed)) ∨
              Collides B altered.payload summary.payload) := by
  obtain ⟨L, h, rfl⟩ := exists_of_reachable hreachable
  have hhead (name : LocalRefName) (head : EventId) :
      localRefId L.tables context name = .ok (some head) ↔
        L.localHead context name = some head := by
    rw [localRefId_tables h.toWellKeyed, Except.ok.injEq]
  have hbranch (id : EventId) : (∃ ref ∈ L.localRefsOf context, L.Ancestor ref.head id) ↔
      ∃ name head, L.localHead context name = some head ∧ L.Ancestor head id := by
    constructor
    · rintro ⟨ref, href, hancestor⟩
      obtain ⟨hmem, rfl⟩ := mem_localRefsOf.mp href
      exact ⟨ref.name, ref.head, h.toWellKeyed.localHead_eq_some.mpr hmem, hancestor⟩
    · rintro ⟨name, head, hname, hancestor⟩
      exact ⟨_, mem_localRefsOf.mpr ⟨h.toWellKeyed.localHead_eq_some.mp hname, rfl⟩, hancestor⟩
  simp only [parent_tables, hhead]
  refine ⟨fun hlimits ↦ ⟨fun name head hname hwithin ↦ ?_, ?_⟩, fun name summary hok ↦ ?_,
    fun summary hok ↦ ?_, fun summary hbuilt ↦ ?_⟩
  · exact Summary.refSummary_succeeds h hlimits hname hwithin
  · rintro ⟨name, head, hname⟩ hwithin
    exact Summary.project_succeeds h hlimits hname hwithin
  · exact (Summary.refSummary_eq_ok h hok).2
  · obtain ⟨-, events, note, hpayload, hcanonical, hmem⟩ := Summary.project_eq_ok h hok
    exact ⟨events, note, hpayload, hcanonical, fun id ↦ (hmem id).trans (hbranch id)⟩
  · obtain ⟨hderived, hheld⟩ := hbuilt.stands h
    refine ⟨fun later hrun ↦ ?_, fun altered hsame hother anywhere ↦
      Summary.verifyAgainstDag_altered hderived hsame hother anywhere⟩
    obtain ⟨M, rfl, hsteps⟩ := run_steps h hrun
    exact (Summary.verifyAgainstDag_eq_ok (hsteps.wellFormed h)).mpr
      ⟨hderived, fun id hid ↦ (hheld id hid).mono hsteps.events_subset, rfl⟩

/-- When an accepted ref summary speaks about the store. Its head is never looked up, so a record
that verification accepts is about stored events, its head among the covered ones, exactly when the
head is one of the events it lists. -/
theorem verified_ref_summary_iff (B : Boundary) {t : Tables} (hreachable : Reachable B t)
    (summaryId : SummaryId) (context : ContextId) (refName : String) (head : EventId)
    (events : List EventId) (note : String) :
    ((∃ verification, Summary.verifyAgainstDag B
        ⟨summaryId, .ref context refName head events note⟩ t = .ok verification) →
      (∀ id ∈ head :: events, t.Holds B context id) ∧ head ∈ events) ↔
    (head ∈ events ∨ Summary.derive B (.ref context refName head events note) ≠ .ok summaryId ∨
      ∃ id ∈ events, ¬ t.Holds B context id) := by
  obtain ⟨L, h, rfl⟩ := exists_of_reachable hreachable
  have haccepted : (∃ verification, Summary.verifyAgainstDag B
      ⟨summaryId, .ref context refName head events note⟩ L.tables = .ok verification) ↔
        Summary.derive B (.ref context refName head events note) = .ok summaryId ∧
          ∀ id ∈ events, L.tables.Holds B context id := by
    simp only [Summary.verifyAgainstDag_eq_ok h, holds_tables]
    exact ⟨fun ⟨_, hderived, hheld, _⟩ ↦ ⟨hderived, hheld⟩,
      fun ⟨hderived, hheld⟩ ↦ ⟨_, hderived, hheld, rfl⟩⟩
  rw [haccepted]
  constructor
  · intro hspeaks
    by_contra hnone
    push Not at hnone
    exact hnone.1 (hspeaks hnone.2).2
  · rintro (hlisted | hforged | ⟨id, hid, habsent⟩) ⟨hderived, hheld⟩
    · exact ⟨List.forall_mem_cons.mpr ⟨hheld head hlisted, hheld⟩, hlisted⟩
    · exact absurd hderived hforged
    · exact absurd (hheld id hid) habsent

section Golden

open Reference Golden

/-- A branch and its context are summarized, and the summaries are accepted. -/
theorem summaries_cover_advanced : ∃ reference whole,
    Summary.refSummary Golden.B advanced.tables Golden.context main .default = .ok reference ∧
      Summary.project Golden.B advanced.tables Golden.context .default = .ok whole ∧
      second.id ∈ whole.payload.covered ∧
      reference.verifyAgainstDag Golden.B advanced.tables =
        .ok ⟨true, reference.payload.covered.length⟩ := by
  obtain ⟨hsucceeds, href, hproject, hbuilt⟩ :=
    summaries_cover Golden.B advanced_reachable Golden.context .default
  have hwithin (inside : EventId → Prop) :
      WithinLimits Golden.B advanced.tables .default inside :=
    withinLimits_of_few (by decide) inside
  have hmain : localRefId advanced.tables Golden.context main = .ok (some second.id) :=
    (localRefId_tables advanced_wellFormed.toWellKeyed _ _).trans rfl
  obtain ⟨hrefs, hprojects⟩ := hsucceeds rfl
  obtain ⟨reference, hreference⟩ := hrefs main second.id hmain (hwithin _)
  obtain ⟨whole, hwhole⟩ := hprojects ⟨main, second.id, hmain⟩ fun _ _ _ ↦ hwithin _
  obtain ⟨events, note, hpayload, -, hmem⟩ := hproject whole hwhole
  refine ⟨reference, whole, hreference, hwhole, ?_,
    (hbuilt reference (Or.inr (Or.inl ⟨main, hreference⟩))).1 _ (.refl _)⟩
  rw [hpayload]
  exact (hmem second.id).mpr ⟨main, second.id, hmain, .refl⟩

/-- A record of two events with its head among them is accepted, and about the store. -/
theorem verified_ref_summary_iff_advanced : ∃ summaryId,
    Summary.verifyAgainstDag Golden.B
        ⟨summaryId, .ref Golden.context "main" second.id [second.id, first.id] ""⟩
          advanced.tables = .ok ⟨true, 2⟩ ∧
      (∀ id ∈ [second.id, second.id, first.id], advanced.tables.Holds Golden.B Golden.context id) ∧
        second.id ∈ [second.id, first.id] := by
  obtain ⟨summaryId, hderived⟩ := Summary.derive_total (B := Golden.B)
    (.ref Golden.context "main" second.id [second.id, first.id] "")
  have haccepted : Summary.verifyAgainstDag Golden.B
      ⟨summaryId, .ref Golden.context "main" second.id [second.id, first.id] ""⟩
        advanced.tables = .ok ⟨true, 2⟩ := by
    refine (Summary.verifyAgainstDag_eq_ok advanced_wellFormed).mpr ⟨hderived, fun id hid ↦ ?_, rfl⟩
    rcases List.mem_pair.mp hid with rfl | rfl
    · exact ⟨second, List.mem_cons_of_mem _ (List.mem_singleton_self _), rfl, rfl⟩
    · exact ⟨first, List.mem_cons_self, rfl, rfl⟩
  exact ⟨summaryId, haccepted, (verified_ref_summary_iff Golden.B advanced_reachable summaryId
    Golden.context "main" second.id [second.id, first.id] "").mpr (Or.inl List.mem_cons_self)
      ⟨_, haccepted⟩⟩

/-- A record with a head that the store has never seen is accepted. -/
theorem verified_ref_summary_unseen : ∃ summary : Summary,
    summary.payload = .ref Golden.context "main" second.id [first.id] "" ∧
      summary.verifyAgainstDag Golden.B rooted.tables = .ok ⟨true, 1⟩ ∧
      second.id ∉ summary.payload.covered ∧
      ∀ context, ¬ rooted.tables.Holds Golden.B context second.id := by
  obtain ⟨summaryId, hderived⟩ := Summary.derive_total (B := Golden.B)
    (.ref Golden.context "main" second.id [first.id] "")
  refine ⟨⟨summaryId, _⟩, rfl, (Summary.verifyAgainstDag_eq_ok rooted_wellFormed).mpr
    ⟨hderived, fun id hid ↦ ?_, rfl⟩, fun hlisted ↦ ?_, fun context hheld ↦ ?_⟩
  · rw [List.mem_singleton.mp hid]
    exact ⟨first, List.mem_singleton_self _, rfl, rfl⟩
  · exact first_ne_second (List.mem_singleton.mp hlisted).symm
  · obtain ⟨e, he, hid, -⟩ := holds_tables.mp hheld
    rw [List.mem_singleton.mp he] at hid
    exact first_ne_second hid

end Golden

end ContextMesh.Delivery
