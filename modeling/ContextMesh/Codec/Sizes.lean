import ContextMesh.Codec.Sync
import ContextMesh.Sync.Server

/-!
How long the wires of the synchronization protocol are. A request of the client always fits the
bound on request bodies, and a page whose bundle has a wire always fits the bound on responses.
-/

set_option autoImplicit false
set_option relaxedAutoImplicit false

namespace ContextMesh.Sync

open Checked Ordered Contract Store

variable {B : Boundary}

theorem length_headsValue (heads : List EventId) :
    canonicalLength B (headsValue B heads) = heads.length * 50 + (heads.length - 1) + 2 := by
  have heach (head : EventId) : canonicalLength B (.str (head.text B)) = 50 := by
    rw [EventId.text, canonicalLength_fixedText _ (by decide)]
    decide
  have hsum : ((heads.map fun head ↦ Json.str (head.text B)).map (canonicalLength B)).sum =
      heads.length * 50 := by
    induction heads with
    | nil => rfl
    | cons head rest ih =>
      rw [List.map_cons, List.map_cons, List.sum_cons, ih, heach, List.length_cons]
      omega
  rw [headsValue, canonicalLength_arr, hsum, List.length_map]

/-- Every cursor has the same length. -/
theorem length_cursor {offset : ℕ} {fingerprint : Fixed 32} {text : String}
    (h : encodeCursor B offset fingerprint = .ok text) : canonicalLength B (.str text) = 64 := by
  obtain ⟨-, rfl⟩ := encodeCursor_eq_ok.mp h
  have hlength : (toBeBytes 8 offset ++ fingerprint.1).length = 40 := by
    rw [List.length_append, length_toBeBytes, fingerprint.2]
  have hlead : "cursor1_".toList.all plainChar := by decide
  exact canonicalLength_fixedText ⟨toBeBytes 8 offset ++ fingerprint.1, hlength⟩ hlead

/-- A cursor that was encoded, or none. -/
def Rendered (B : Boundary) (cursor : Option String) : Prop :=
  ∀ text ∈ cursor, ∃ offset fingerprint, encodeCursor B offset fingerprint = .ok text

theorem length_cursorJson {cursor : Option String} (h : Rendered B cursor) :
    canonicalLength B (cursorJson cursor) = if cursor.isNone then 4 else 64 := by
  cases cursor with
  | none => exact B.toVec_null_length
  | some text =>
    obtain ⟨offset, fingerprint, hencode⟩ := h text rfl
    exact length_cursor hencode

theorem length_cursorJson_le {cursor : Option String} (h : Rendered B cursor) :
    canonicalLength B (cursorJson cursor) ≤ 64 := by
  rw [length_cursorJson h]
  split <;> decide

theorem length_version : canonicalLength B (.num (.posInt SYNC_PROTOCOL_VERSION)) ≤ 16 :=
  B.toVec_posInt_length (by decide)

theorem length_limitsValue {limits : PullLimits} (hevents : limits.maxEvents ≤ MAX_BUNDLE_EVENTS)
    (hbytes : limits.maxBundleBytes ≤ MAX_BUNDLE_CANONICAL_BYTES) :
    canonicalLength B (limitsValue limits) ≤ 67 := by
  have hnames : canonicalLength B (.str "max_bundle_bytes") = 18 ∧
      canonicalLength B (.str "max_events") = 12 := by
    constructor
    · rw [canonicalLength_plain (by decide)]
      decide
    · rw [canonicalLength_plain (by decide)]
      decide
  have hbundle : canonicalLength B (.num (.posInt limits.maxBundleBytes)) ≤ 16 :=
    B.toVec_posInt_length (hbytes.trans (by decide))
  have hpage : canonicalLength B (.num (.posInt limits.maxEvents)) ≤ 16 :=
    B.toVec_posInt_length (hevents.trans (by decide))
  rw [limitsValue, canonicalLength_obj (limitsValue_increasing limits)]
  simp only [List.map_cons, List.map_nil, List.sum_cons, List.sum_nil, List.length_cons,
    List.length_nil, hnames]
  omega

/-! ### Requests -/

namespace ExportRequest

/-- The length of a request, in terms of its members. -/
theorem length_toWire {request : ExportRequest} {wire : Bytes}
    (h : request.toWire B = .ok wire) : wire.length =
      canonicalLength B (cursorJson request.cursor) +
        canonicalLength B (headsValue B request.knownHeads) +
        canonicalLength B (limitsValue request.limits) +
        canonicalLength B (.num (.posInt SYNC_PROTOCOL_VERSION)) +
        canonicalLength B (headsValue B request.requestedHeads) + 136 := by
  have hcontext : canonicalLength B (.str (request.context.text B)) = 50 := by
    rw [ContextId.text, canonicalLength_fixedText _ (by decide)]
    decide
  have hnames : canonicalLength B (.str "context") = 9 ∧ canonicalLength B (.str "cursor") = 8 ∧
      canonicalLength B (.str "known_heads") = 13 ∧ canonicalLength B (.str "limits") = 8 ∧
        canonicalLength B (.str "protocol_version") = 18 ∧
          canonicalLength B (.str "requested_heads") = 17 := by
    refine ⟨?_, ?_, ?_, ?_, ?_, ?_⟩ <;>
    · rw [canonicalLength_plain (by decide)]
      decide
  rw [canonicalize_length (toWire_eq_ok.mp h), canonicalLength_obj request.members_increasing]
  simp only [members, List.map_cons, List.map_nil, List.sum_cons, List.sum_nil, List.length_cons,
    List.length_nil, hcontext, hnames]
  omega

/-- Every request that a client builds fits the bound on request bodies. -/
theorem length_toWire_le {request : ExportRequest} {wire : Bytes}
    (h : request.toWire B = .ok wire) (hcursor : Rendered B request.cursor)
    (hheads : request.requestedHeads.length ≤ MAX_BUNDLE_REFS ∧
      request.knownHeads.length ≤ MAX_BUNDLE_REFS)
    (hlimits : request.limits.maxEvents ≤ MAX_BUNDLE_EVENTS ∧
      request.limits.maxBundleBytes ≤ MAX_BUNDLE_CANONICAL_BYTES) :
    wire.length ≤ MAX_PULL_REQUEST_BODY_BYTES := by
  have hmax : MAX_BUNDLE_REFS = 256 ∧ MAX_PULL_REQUEST_BODY_BYTES = 65536 := ⟨rfl, rfl⟩
  have hpart := length_cursorJson_le hcursor
  have hbounds := length_limitsValue (B := B) hlimits.1 hlimits.2
  have hversion := length_version (B := B)
  rw [hmax.1] at hheads
  rw [length_toWire h, length_headsValue, length_headsValue, hmax.2]
  omega

end ExportRequest

/-! ### Ref snapshots -/

namespace RefSnapshot

/-- Every snapshot that a server builds fits the bound on responses. -/
theorem length_toWire_le {context : ContextId} {refs : List AdvertisedRef} {snapshot : RefSnapshot}
    (hnew : new B context refs = .ok snapshot) {wire : Bytes}
    (h : snapshot.toWire B = .ok wire) : wire.length ≤ MAX_SYNC_RESPONSE_BODY_BYTES := by
  have hmax : MAX_BUNDLE_REFS = 256 ∧ MAX_SYNC_RESPONSE_BODY_BYTES = 16842752 := ⟨rfl, rfl⟩
  obtain ⟨hvalid, hnew⟩ := unit_bind_eq_ok.mp hnew
  obtain ⟨bytes, -, hnew⟩ := bind_eq_ok.mp hnew
  obtain rfl := Except.ok.inj hnew
  have hcount : refs.length ≤ 256 := (ensure_eq_ok.mp hvalid).1
  have hcontext : canonicalLength B (.str (context.text B)) = 50 := by
    rw [ContextId.text, canonicalLength_fixedText _ (by decide)]
    decide
  have hfingerprint : canonicalLength B (.str (encodeHash B "refs1_" bytes)) = 51 :=
    (canonicalLength_fixedText bytes (by decide)).trans (by decide)
  have hrefs : canonicalLength B (.arr (refs.map (AdvertisedRef.toJson B))) ≤ _ :=
    canonicalLength_arr_le 160 fun item hitem ↦ by
      obtain ⟨ref, -, rfl⟩ := List.mem_map.mp hitem
      exact ref.length_toJson_le
  have hversion := length_version (B := B)
  have hnames : canonicalLength B (.str "context") = 9 ∧
      canonicalLength B (.str "protocol_version") = 18 ∧ canonicalLength B (.str "refs") = 6 ∧
        canonicalLength B (.str "snapshot_fingerprint") = 22 := by
    refine ⟨?_, ?_, ?_, ?_⟩ <;>
    · rw [canonicalLength_plain (by decide)]
      decide
  rw [List.length_map] at hrefs
  rw [canonicalize_length (toWire_eq_ok.mp h), canonicalLength_obj (members_increasing _), hmax.2]
  simp only [members, List.map_cons, List.map_nil, List.sum_cons, List.sum_nil, List.length_cons,
    List.length_nil, hcontext, hfingerprint, hnames]
  omega

end RefSnapshot

/-! ### Page responses -/

namespace ExportResponse

/-- The length of a response with a stable bundle, in terms of its bundle, its flag and its
cursor. -/
theorem length_toWire {response : ExportResponse B} (hstable : response.bundle.Stable)
    {wire : Bytes} (h : response.toWire = .ok wire) {requestedHeads : List EventId}
    (hfingerprint : Sync.requestedHeadFingerprint B response.context requestedHeads =
      .ok response.requestedHeadFingerprint) : wire.length =
      canonicalLength B response.bundle.toJson + canonicalLength B (.bool response.complete) +
        canonicalLength B (cursorJson response.nextCursor) +
        canonicalLength B (.num (.posInt SYNC_PROTOCOL_VERSION)) + 201 := by
  have hcontext : canonicalLength B (.str (response.context.text B)) = 50 := by
    rw [ContextId.text, canonicalLength_fixedText _ (by decide)]
    decide
  have hheads : canonicalLength B (.str response.requestedHeadFingerprint) = 52 := by
    obtain ⟨-, hfingerprint⟩ := unit_bind_eq_ok.mp hfingerprint
    obtain ⟨bytes, -, hfingerprint⟩ := bind_eq_ok.mp hfingerprint
    rw [Except.ok.injEq] at hfingerprint
    rw [← hfingerprint]
    exact (canonicalLength_fixedText bytes (by decide)).trans (by decide)
  have hnames : canonicalLength B (.str "bundle") = 8 ∧ canonicalLength B (.str "complete") = 10 ∧
      canonicalLength B (.str "context") = 9 ∧ canonicalLength B (.str "next_cursor") = 13 ∧
        canonicalLength B (.str "protocol_version") = 18 ∧
          canonicalLength B (.str "requested_head_fingerprint") = 28 := by
    refine ⟨?_, ?_, ?_, ?_, ?_, ?_⟩ <;>
    · rw [canonicalLength_plain (by decide)]
      decide
  rw [canonicalize_length ((toWire_eq_ok hstable).mp h).2, members,
    canonicalLength_obj (response.envelope_increasing _)]
  simp only [envelope, List.map_cons, List.map_nil, List.sum_cons, List.sum_nil, List.length_cons,
    List.length_nil, hcontext, hheads, hnames]
  omega

/-- Every page with a stable bundle that has a wire fits the bound on responses. -/
theorem length_toWire_le {response : ExportResponse B} (hstable : response.bundle.Stable)
    {wire : Bytes} (h : response.toWire = .ok wire) {requestedHeads : List EventId}
    (hfingerprint : Sync.requestedHeadFingerprint B response.context requestedHeads =
      .ok response.requestedHeadFingerprint) (hcursor : Rendered B response.nextCursor)
    (hflag : canonicalLength B (.bool response.complete) ≤ 5) :
    wire.length ≤ MAX_SYNC_RESPONSE_BODY_BYTES := by
  have hmax : MAX_BUNDLE_CANONICAL_BYTES = 16777216 ∧ MAX_SYNC_RESPONSE_BODY_BYTES = 16842752 :=
    ⟨rfl, rfl⟩
  obtain ⟨⟨bytes, hbytes⟩, -⟩ := (toWire_eq_ok hstable).mp h
  obtain ⟨hcanonical, hbundle, -⟩ := BundleV1.toWire_eq_ok.mp hbytes
  have hpart := length_cursorJson_le hcursor
  have hversion := length_version (B := B)
  rw [canonicalize_length hcanonical, hmax.1] at hbundle
  rw [length_toWire hstable h hfingerprint, hmax.2]
  omega

end ExportResponse

end ContextMesh.Sync
