import ContextMesh.Codec.Bundle
import ContextMesh.Sync.Protocol
import Mathlib.Tactic.Ring

/-!
The wires of the synchronization protocol, both ways. Encoding presents a value as an object with
fixed names in order; strict parsing gives that object back, and each member reads back as what it
was written from. What a decoder accepts it has rendered again and compared with its input, so a
value has one accepted encoding.
-/

set_option autoImplicit false
set_option relaxedAutoImplicit false

namespace ContextMesh.Sync

open Checked Ordered Contract Store

variable {B : Boundary}

/-! ### Canonical text -/

theorem strictProtocol_canonicalize {v : Json} {bytes : Bytes} (h : canonicalize B v = .ok bytes)
    (hsettled : Settled B v) (hdepth : v.depth ≤ MAX_NESTING) :
    strictProtocol B bytes = .ok v := by
  have hparse : strictJson B bytes = .ok v := by
    rw [strictJson_canonicalize h hdepth, hsettled]
  rw [strictProtocol, hparse, mapError_ok, ok_bind, h, mapError_ok, ok_bind, ensure_true rfl,
    ok_bind]

theorem objectExact_obj {members : Members} {keys : List String}
    (hlength : members.length = keys.length) (hknown : ∀ m ∈ members, m.1 ∈ keys) :
    objectExact (.obj members) keys = .ok members := by
  rw [objectExact, intoObject, mapError_ok, ok_bind, ensure_true ⟨hlength, hknown⟩, ok_bind]

section Members

variable {object : Members} {key : String}

theorem take_of_mem (h : Increasing object) {v : Json} (hmem : (key, v) ∈ object) :
    take object key = .ok v := by
  rw [take, takeRequired_eq_ok.mpr (member_of_mem h hmem), mapError_ok]

theorem string_of_mem (h : Increasing object) {value : String} (hmem : (key, .str value) ∈ object) :
    string object key = .ok value := by
  rw [string, take_of_mem h hmem, ok_bind, intoString, mapError_ok]

theorem text_of_mem {ε α : Type} {parse : String → Except ε α} (h : Increasing object)
    {value : String} {a : α} (hmem : (key, .str value) ∈ object) (hparse : parse value = .ok a) :
    text parse object key = .ok a := by
  rw [text, string_of_mem h hmem, ok_bind, hparse, mapError_ok]

theorem usizeValue_of_mem (h : Increasing object) {n : ℕ}
    (hmem : (key, .num (.posInt n)) ∈ object) : usizeValue object key = .ok n := by
  rw [usizeValue, take_of_mem h hmem, ok_bind, asU64, required_some]

theorem version_of_mem (h : Increasing object)
    (hmem : ("protocol_version", .num (.posInt SYNC_PROTOCOL_VERSION)) ∈ object) :
    version object = .ok () := by
  rw [version, take_of_mem h hmem, ok_bind, asU64, ensure_true rfl]

end Members

/-! ### Parts of the wires -/

theorem settled_version : Settled B (.num (.posInt SYNC_PROTOCOL_VERSION)) :=
  settled_posInt (by decide)

theorem settled_headsValue (heads : List EventId) : Settled B (headsValue B heads) := by
  refine settled_arr fun v hv ↦ ?_
  obtain ⟨head, -, rfl⟩ := List.mem_map.mp hv
  exact settled_str _

theorem headsValue_depth (heads : List EventId) : (headsValue B heads).depth ≤ 1 := by
  refine depth_arr_le fun v hv ↦ ?_
  obtain ⟨head, -, rfl⟩ := List.mem_map.mp hv
  exact Nat.le_refl 0

theorem ids_headsValue (heads : List EventId) : ids B (headsValue B heads) = .ok heads := by
  refine mapEach_eq_ok.mpr (List.forall₂_map_left_iff.mpr (List.forall₂_same.mpr ?_))
  intro head _
  rw [intoString, mapError_ok, ok_bind, EventId.parse_eq_ok.mpr rfl, mapError_ok]

theorem settled_cursorJson (cursor : Option String) : Settled B (cursorJson cursor) := by
  cases cursor with
  | none => exact settled_null
  | some value => exact settled_str value

theorem cursorJson_depth (cursor : Option String) : (cursorJson cursor).depth = 0 := by
  cases cursor <;> rfl

theorem cursorValue_cursorJson (cursor : Option String) :
    cursorValue (cursorJson cursor) = .ok cursor := by
  cases cursor <;> rfl

theorem PullLimits.new_eq_ok {maxEvents maxBundleBytes maxPages : ℕ} {limits : PullLimits} :
    PullLimits.new maxEvents maxBundleBytes maxPages = .ok limits ↔
      ((maxEvents ≠ 0 ∧ maxEvents ≤ MAX_BUNDLE_EVENTS) ∧
        (maxBundleBytes ≠ 0 ∧ maxBundleBytes ≤ MAX_BUNDLE_CANONICAL_BYTES) ∧
        maxPages ≠ 0 ∧ maxPages ≤ MAX_PULL_PAGES) ∧
      limits = ⟨maxEvents, maxBundleBytes, maxPages⟩ := by
  rw [PullLimits.new, unit_bind_eq_ok, ensure_eq_ok, Except.ok.injEq, eq_comm (b := limits)]
  simp only [not_or, not_lt, gt_iff_lt, ne_eq, and_assoc]

theorem limitsValue_increasing (limits : PullLimits) :
    Increasing [("max_bundle_bytes", Json.num (.posInt limits.maxBundleBytes)),
      ("max_events", .num (.posInt limits.maxEvents))] :=
  increasing_of_names ["max_bundle_bytes", "max_events"] rfl (by decide)

theorem settled_limitsValue {limits : PullLimits} (hevents : limits.maxEvents ≤ MAX_BUNDLE_EVENTS)
    (hbytes : limits.maxBundleBytes ≤ MAX_BUNDLE_CANONICAL_BYTES) :
    Settled B (limitsValue limits) := by
  refine settled_obj (limitsValue_increasing limits) fun m hm ↦ ?_
  simp only [List.mem_cons, List.not_mem_nil, or_false] at hm
  rcases hm with rfl | rfl
  · exact settled_posInt (hbytes.trans (by decide))
  · exact settled_posInt (hevents.trans (by decide))

theorem limitsValue_depth (limits : PullLimits) : (limitsValue limits).depth ≤ 1 := by
  refine depth_obj_le fun m hm ↦ ?_
  simp only [List.mem_cons, List.not_mem_nil, or_false] at hm
  rcases hm with rfl | rfl <;> exact Nat.le_refl 0

/-! ### Continuation cursors -/

theorem length_toBeBytes (size n : ℕ) : (toBeBytes size n).length = size := by
  induction size with
  | zero => rfl
  | succ size ih => rw [toBeBytes, List.length_cons, ih]

/-- Reading big-endian bytes after a number shifts it and adds the number they stand for. -/
theorem foldl_toBeBytes (size n start : ℕ) :
    (toBeBytes size n).foldl (fun m byte ↦ m * 256 + byte.toNat) start =
      start * 256 ^ size + n % 256 ^ size := by
  induction size generalizing start with
  | zero => simp [toBeBytes, Nat.mod_one]
  | succ size ih =>
    have hdigit : (UInt8.ofNat (n / 256 ^ size)).toNat = n / 256 ^ size % 256 := UInt8.toNat_ofNat'
    have hsplit : n % 256 ^ (size + 1) = n % 256 ^ size + 256 ^ size * (n / 256 ^ size % 256) := by
      rw [pow_succ, Nat.mod_mul]
    rw [toBeBytes, List.foldl_cons, ih, hdigit, hsplit]
    ring

theorem fromBeBytes_toBeBytes {size n : ℕ} (h : n < 256 ^ size) :
    fromBeBytes (toBeBytes size n) = n := by
  rw [fromBeBytes, foldl_toBeBytes, Nat.zero_mul, Nat.zero_add, Nat.mod_eq_of_lt h]

theorem encodeCursor_eq_ok {offset : ℕ} {fingerprint : Fixed 32} {text : String} :
    encodeCursor B offset fingerprint = .ok text ↔ offset < 2 ^ 64 ∧
      "cursor1_" ++ B.encode64 (toBeBytes 8 offset ++ fingerprint.1) = text := by
  rw [encodeCursor, unit_bind_eq_ok, ensure_eq_ok, Except.ok.injEq]

theorem decodeCursor_encodeCursor {offset : ℕ} {fingerprint : Fixed 32} {text : String}
    (h : encodeCursor B offset fingerprint = .ok text) :
    decodeCursor B text = .ok (offset, fingerprint) := by
  obtain ⟨hoffset, rfl⟩ := encodeCursor_eq_ok.mp h
  have hlength : (toBeBytes 8 offset ++ fingerprint.1).length = 40 := by
    rw [List.length_append, length_toBeBytes, fingerprint.2]
  have htake : fromBeBytes ((toBeBytes 8 offset ++ fingerprint.1).take 8) = offset := by
    rw [List.take_left' (length_toBeBytes 8 offset), fromBeBytes_toBeBytes hoffset]
  have hdrop : (toBeBytes 8 offset ++ fingerprint.1).drop 8 = fingerprint.1 :=
    List.drop_left' (length_toBeBytes 8 offset)
  rw [decodeCursor, stripPrefix_append, required_some, ok_bind, B.decode64_encode64, required_some,
    ok_bind, dif_pos hlength]
  simp only [htake, hdrop, Subtype.coe_eta, h, ok_bind, ensure_true]

/-- Only the rendering of a cursor decodes to it. -/
theorem encodeCursor_of_decodeCursor {text : String} {offset : ℕ} {fingerprint : Fixed 32}
    (h : decodeCursor B text = .ok (offset, fingerprint)) :
    encodeCursor B offset fingerprint = .ok text := by
  obtain ⟨encoded, -, h⟩ := bind_eq_ok.mp h
  obtain ⟨decoded, -, h⟩ := bind_eq_ok.mp h
  split_ifs at h with hlength
  obtain ⟨rendered, hrendered, h⟩ := bind_eq_ok.mp h
  obtain ⟨hsame, h⟩ := unit_bind_eq_ok.mp h
  rw [Except.ok.injEq, Prod.mk.injEq] at h
  rw [← h.1, ← h.2, hrendered, ensure_eq_ok.mp hsame]

/-! ### Requests -/

namespace ExportRequest

/-- The members of a request as its serializer presents them. -/
def members (B : Boundary) (request : ExportRequest) : Members :=
  [("context", .str (request.context.text B)), ("cursor", cursorJson request.cursor),
    ("known_heads", headsValue B request.knownHeads), ("limits", limitsValue request.limits),
    ("protocol_version", .num (.posInt SYNC_PROTOCOL_VERSION)),
    ("requested_heads", headsValue B request.requestedHeads)]

theorem members_increasing (request : ExportRequest) : Increasing (request.members B) :=
  increasing_of_names ["context", "cursor", "known_heads", "limits", "protocol_version",
    "requested_heads"] rfl (by decide)

theorem toWire_eq_ok {request : ExportRequest} {wire : Bytes} :
    request.toWire B = .ok wire ↔ canonicalize B (.obj (request.members B)) = .ok wire :=
  mapError_eq_ok

theorem toWire_total (request : ExportRequest) : ∃ wire, request.toWire B = .ok wire := by
  obtain ⟨wire, hwire⟩ := canonicalize_total (B := B) (.obj (request.members B))
  exact ⟨wire, toWire_eq_ok.mpr hwire⟩

theorem settled_members (request : ExportRequest)
    (hlimits : Settled B (limitsValue request.limits)) :
    Settled B (.obj (request.members B)) := by
  refine settled_obj request.members_increasing fun m hm ↦ ?_
  simp only [members, List.mem_cons, List.not_mem_nil, or_false] at hm
  rcases hm with rfl | rfl | rfl | rfl | rfl | rfl
  · exact settled_str _
  · exact settled_cursorJson _
  · exact settled_headsValue _
  · exact hlimits
  · exact settled_version
  · exact settled_headsValue _

theorem members_depth (request : ExportRequest) :
    (Json.obj (request.members B)).depth ≤ MAX_NESTING := by
  refine (depth_obj_le (n := 1) fun m hm ↦ ?_).trans (by decide)
  simp only [members, List.mem_cons, List.not_mem_nil, or_false] at hm
  rcases hm with rfl | rfl | rfl | rfl | rfl | rfl
  · exact Nat.zero_le 1
  · exact (cursorJson_depth _).trans_le (Nat.zero_le 1)
  · exact headsValue_depth _
  · exact limitsValue_depth _
  · exact Nat.zero_le 1
  · exact headsValue_depth _

/-- What `new` checks does not look at the cursor or the limits. -/
theorem new_eq_ok {context : ContextId} {requestedHeads knownHeads : List EventId}
    {cursor : Option String} {limits : PullLimits} {request : ExportRequest} :
    new B context requestedHeads knownHeads cursor limits = .ok request ↔
      (validateSortedHeads B requestedHeads false = .ok () ∧
        validateSortedHeads B knownHeads true = .ok () ∧
        requestedHeads.length ≤ MAX_BUNDLE_REFS ∧ knownHeads.length ≤ MAX_BUNDLE_REFS) ∧
      request = ⟨context, requestedHeads, knownHeads, cursor, limits⟩ := by
  rw [new, unit_bind_eq_ok, unit_bind_eq_ok, unit_bind_eq_ok, ensure_eq_ok, Except.ok.injEq,
    eq_comm (b := request)]
  simp only [and_assoc]

/-- The wire of a request gives it back with the page bound of the protocol. -/
theorem fromWire_toWire {context : ContextId} {requestedHeads knownHeads : List EventId}
    {cursor : Option String} {maxEvents maxBundleBytes maxPages : ℕ} {limits : PullLimits}
    {request : ExportRequest} {wire : Bytes}
    (hlimits : PullLimits.new maxEvents maxBundleBytes maxPages = .ok limits)
    (hnew : new B context requestedHeads knownHeads cursor limits = .ok request)
    (h : request.toWire B = .ok wire) :
    fromWire B wire = .ok { request with
      limits := { request.limits with maxPages := MAX_PULL_PAGES } } := by
  obtain ⟨⟨hevents, hbytes, -⟩, rfl⟩ := PullLimits.new_eq_ok.mp hlimits
  obtain ⟨hheads, rfl⟩ := new_eq_ok.mp hnew
  set request : ExportRequest :=
    ⟨context, requestedHeads, knownHeads, cursor, maxEvents, maxBundleBytes, maxPages⟩
  have hsettled := request.settled_members (B := B) (settled_limitsValue hevents.2 hbytes.2)
  have hinc := request.members_increasing (B := B)
  have hinner := limitsValue_increasing request.limits
  have hpage : PullLimits.new maxEvents maxBundleBytes MAX_PULL_PAGES =
      .ok ⟨maxEvents, maxBundleBytes, MAX_PULL_PAGES⟩ :=
    PullLimits.new_eq_ok.mpr ⟨⟨hevents, hbytes, by decide, le_rfl⟩, rfl⟩
  have hagain : new B context requestedHeads knownHeads cursor
      ⟨maxEvents, maxBundleBytes, MAX_PULL_PAGES⟩ = .ok { request with
        limits := { request.limits with maxPages := MAX_PULL_PAGES } } :=
    new_eq_ok.mpr ⟨hheads, rfl⟩
  have hwire : toWire B { request with
      limits := { request.limits with maxPages := MAX_PULL_PAGES } } = .ok wire := h
  rw [fromWire, strictProtocol_canonicalize (toWire_eq_ok.mp h) hsettled request.members_depth,
    ok_bind, objectExact_obj rfl (by simp [members]), ok_bind,
    version_of_mem hinc (by simp [members]), ok_bind,
    text_of_mem hinc (by simp [members]; rfl) (ContextId.parse_eq_ok.mpr rfl), ok_bind,
    take_of_mem hinc (by simp [members]; rfl), ok_bind, ids_headsValue, ok_bind,
    take_of_mem hinc (by simp [members]; rfl), ok_bind, ids_headsValue, ok_bind,
    take_of_mem hinc (by simp [members]; rfl), ok_bind, cursorValue_cursorJson, ok_bind,
    take_of_mem hinc (by simp [members]; rfl), ok_bind, limitsValue,
    objectExact_obj rfl (by simp), ok_bind, usizeValue_of_mem hinner (by simp; rfl), ok_bind,
    usizeValue_of_mem hinner (by simp; rfl), ok_bind, hpage, ok_bind, hagain, ok_bind, hwire,
    ok_bind, ensure_true rfl, ok_bind]

/-- Accepted bytes are those of the request they give, which passes the checks of `new`, as its
limits pass theirs. -/
theorem fromWire_eq_ok {input : Bytes} {request : ExportRequest}
    (h : fromWire B input = .ok request) : request.toWire B = .ok input ∧
      new B request.context request.requestedHeads request.knownHeads request.cursor
        request.limits = .ok request ∧
      PullLimits.new request.limits.maxEvents request.limits.maxBundleBytes MAX_PULL_PAGES =
        .ok request.limits := by
  obtain ⟨value, -, h⟩ := bind_eq_ok.mp h
  obtain ⟨object, -, h⟩ := bind_eq_ok.mp h
  obtain ⟨-, h⟩ := unit_bind_eq_ok.mp h
  obtain ⟨context, -, h⟩ := bind_eq_ok.mp h
  obtain ⟨requestedValue, -, h⟩ := bind_eq_ok.mp h
  obtain ⟨requestedHeads, -, h⟩ := bind_eq_ok.mp h
  obtain ⟨knownValue, -, h⟩ := bind_eq_ok.mp h
  obtain ⟨knownHeads, -, h⟩ := bind_eq_ok.mp h
  obtain ⟨cursorMember, -, h⟩ := bind_eq_ok.mp h
  obtain ⟨cursor, -, h⟩ := bind_eq_ok.mp h
  obtain ⟨limitsMember, -, h⟩ := bind_eq_ok.mp h
  obtain ⟨inner, -, h⟩ := bind_eq_ok.mp h
  obtain ⟨maxEvents, -, h⟩ := bind_eq_ok.mp h
  obtain ⟨maxBundleBytes, -, h⟩ := bind_eq_ok.mp h
  obtain ⟨limits, hlimits, h⟩ := bind_eq_ok.mp h
  obtain ⟨built, hbuilt, h⟩ := bind_eq_ok.mp h
  obtain ⟨wire, hwire, h⟩ := bind_eq_ok.mp h
  obtain ⟨hsame, h⟩ := unit_bind_eq_ok.mp h
  rw [Except.ok.injEq] at h
  subst h
  obtain ⟨hvalid, rfl⟩ := new_eq_ok.mp hbuilt
  obtain ⟨hbounds, rfl⟩ := PullLimits.new_eq_ok.mp hlimits
  exact ⟨by rw [hwire, ensure_eq_ok.mp hsame], new_eq_ok.mpr ⟨hvalid, rfl⟩,
    PullLimits.new_eq_ok.mpr ⟨hbounds, rfl⟩⟩

end ExportRequest

/-! ### Ref snapshots -/

theorem parseRefs_toJson {refs : List AdvertisedRef} (h : validateRefs refs = .ok ()) :
    parseRefs B (.arr (refs.map (AdvertisedRef.toJson B))) = .ok refs := by
  rw [parseRefs, mapEach_map (h := id) fun item _ ↦ ?_]
  · rw [ok_bind, List.map_id, h, ok_bind]
  · have hinc := item.toJson_increasing (B := B)
    rw [AdvertisedRef.toJson, objectExact_obj rfl (by simp), ok_bind,
      string_of_mem hinc (by simp; rfl), ok_bind, ensure_true rfl, ok_bind,
      text_of_mem hinc (by simp; rfl) (LocalRefName.parse_eq_ok.mpr rfl), ok_bind,
      text_of_mem hinc (by simp; rfl) (EventId.parse_eq_ok.mpr rfl), ok_bind]
    rfl

namespace RefSnapshot

/-- The members of a snapshot as its serializer presents them. -/
def members (B : Boundary) (snapshot : RefSnapshot) : Members :=
  [("context", .str (snapshot.context.text B)),
    ("protocol_version", .num (.posInt SYNC_PROTOCOL_VERSION)),
    ("refs", .arr (snapshot.refs.map (AdvertisedRef.toJson B))),
    ("snapshot_fingerprint", .str snapshot.fingerprint)]

theorem members_increasing (snapshot : RefSnapshot) : Increasing (snapshot.members B) :=
  increasing_of_names ["context", "protocol_version", "refs", "snapshot_fingerprint"] rfl
    (by decide)

theorem toWire_eq_ok {snapshot : RefSnapshot} {wire : Bytes} :
    snapshot.toWire B = .ok wire ↔ canonicalize B (.obj (snapshot.members B)) = .ok wire := by
  have hmembers : insertMember "snapshot_fingerprint" (.str snapshot.fingerprint)
      [("context", .str (snapshot.context.text B)),
        ("protocol_version", .num (.posInt SYNC_PROTOCOL_VERSION)),
        ("refs", .arr (snapshot.refs.map (AdvertisedRef.toJson B)))] = snapshot.members B := by
    have hbefore : ∀ name ∈ ["context", "protocol_version", "refs"],
        name < "snapshot_fingerprint" := by decide
    apply insertMember_last
    intro m hm
    exact hbefore m.1 (List.mem_map_of_mem (f := Prod.fst) hm)
  rw [toWire, refsFingerprintValue]
  dsimp only
  rw [hmembers, mapError_eq_ok]

theorem toWire_total (snapshot : RefSnapshot) : ∃ wire, snapshot.toWire B = .ok wire := by
  obtain ⟨wire, hwire⟩ := canonicalize_total (B := B) (.obj (snapshot.members B))
  exact ⟨wire, toWire_eq_ok.mpr hwire⟩

theorem settled_members (snapshot : RefSnapshot) : Settled B (.obj (snapshot.members B)) := by
  refine settled_obj snapshot.members_increasing fun m hm ↦ ?_
  simp only [members, List.mem_cons, List.not_mem_nil, or_false] at hm
  rcases hm with rfl | rfl | rfl | rfl
  · exact settled_str _
  · exact settled_version
  · refine settled_arr fun v hv ↦ ?_
    obtain ⟨item, -, rfl⟩ := List.mem_map.mp hv
    exact item.settled_toJson
  · exact settled_str _

theorem members_depth (snapshot : RefSnapshot) :
    (Json.obj (snapshot.members B)).depth ≤ MAX_NESTING := by
  refine (depth_obj_le (n := 2) fun m hm ↦ ?_).trans (by decide)
  simp only [members, List.mem_cons, List.not_mem_nil, or_false] at hm
  rcases hm with rfl | rfl | rfl | rfl
  · exact Nat.zero_le 2
  · exact Nat.zero_le 2
  · refine depth_arr_le fun v hv ↦ ?_
    obtain ⟨item, -, rfl⟩ := List.mem_map.mp hv
    exact item.toJson_depth
  · exact Nat.zero_le 2

theorem new_valid {context : ContextId} {refs : List AdvertisedRef} {snapshot : RefSnapshot}
    (h : new B context refs = .ok snapshot) :
    validateRefs refs = .ok () ∧ snapshot.context = context ∧ snapshot.refs = refs := by
  obtain ⟨hvalid, h⟩ := unit_bind_eq_ok.mp h
  obtain ⟨bytes, -, h⟩ := bind_eq_ok.mp h
  rw [Except.ok.injEq] at h
  subst h
  exact ⟨hvalid, rfl, rfl⟩

/-- The wire of a snapshot gives it back. -/
theorem fromWire_toWire {context : ContextId} {refs : List AdvertisedRef} {snapshot : RefSnapshot}
    {wire : Bytes} (hnew : new B context refs = .ok snapshot)
    (h : snapshot.toWire B = .ok wire) : fromWire B wire = .ok snapshot := by
  obtain ⟨hvalid, rfl, rfl⟩ := new_valid hnew
  have hinc := snapshot.members_increasing (B := B)
  rw [fromWire, strictProtocol_canonicalize (toWire_eq_ok.mp h) snapshot.settled_members
      snapshot.members_depth, ok_bind, objectExact_obj rfl (by simp [members]), ok_bind,
    version_of_mem hinc (by simp [members]), ok_bind,
    text_of_mem hinc (by simp [members]; rfl) (ContextId.parse_eq_ok.mpr rfl), ok_bind,
    take_of_mem hinc (by simp [members]; rfl), ok_bind, parseRefs_toJson hvalid, ok_bind,
    string_of_mem hinc (by simp [members]; rfl), ok_bind, hnew, ok_bind, ensure_true rfl, ok_bind,
    h, ok_bind, ensure_true rfl, ok_bind]

/-- Accepted bytes are those of the snapshot they give, which carries its own fingerprint. -/
theorem fromWire_eq_ok {input : Bytes} {snapshot : RefSnapshot}
    (h : fromWire B input = .ok snapshot) :
    snapshot.toWire B = .ok input ∧ new B snapshot.context snapshot.refs = .ok snapshot := by
  obtain ⟨value, -, h⟩ := bind_eq_ok.mp h
  obtain ⟨object, -, h⟩ := bind_eq_ok.mp h
  obtain ⟨-, h⟩ := unit_bind_eq_ok.mp h
  obtain ⟨context, -, h⟩ := bind_eq_ok.mp h
  obtain ⟨refsValue, -, h⟩ := bind_eq_ok.mp h
  obtain ⟨refs, -, h⟩ := bind_eq_ok.mp h
  obtain ⟨fingerprint, -, h⟩ := bind_eq_ok.mp h
  obtain ⟨built, hbuilt, h⟩ := bind_eq_ok.mp h
  obtain ⟨-, h⟩ := unit_bind_eq_ok.mp h
  obtain ⟨wire, hwire, h⟩ := bind_eq_ok.mp h
  obtain ⟨hsame, h⟩ := unit_bind_eq_ok.mp h
  rw [Except.ok.injEq] at h
  subst h
  obtain ⟨-, rfl, rfl⟩ := new_valid hbuilt
  exact ⟨by rw [hwire, ensure_eq_ok.mp hsame], hbuilt⟩

end RefSnapshot

/-! ### Page responses -/

namespace ExportResponse

/-- The members of a response around a reading of its bundle, as its serializer presents them. -/
def envelope (response : ExportResponse B) (bundle : Json) : Members :=
  [("bundle", bundle), ("complete", .bool response.complete),
    ("context", .str (response.context.text B)), ("next_cursor", cursorJson response.nextCursor),
    ("protocol_version", .num (.posInt SYNC_PROTOCOL_VERSION)),
    ("requested_head_fingerprint", .str response.requestedHeadFingerprint)]

/-- The members of a response whose bundle reads as itself. -/
def members (response : ExportResponse B) : Members := response.envelope response.bundle.toJson

theorem envelope_increasing (response : ExportResponse B) (bundle : Json) :
    Increasing (response.envelope bundle) :=
  increasing_of_names ["bundle", "complete", "context", "next_cursor", "protocol_version",
    "requested_head_fingerprint"] rfl (by decide)

/-- A response has a wire when that of its bundle has a reading. -/
theorem toWire_iff {response : ExportResponse B} {wire : Bytes} : response.toWire = .ok wire ↔
    ∃ bytes reading, response.bundle.toWire = .ok bytes ∧ fromSlice B bytes = some reading ∧
      canonicalize B (.obj (response.envelope reading)) = .ok wire := by
  rw [toWire, bind_eq_ok]
  simp only [mapError_eq_ok, bind_eq_ok, required_eq_ok, exists_and_left, envelope]

/-- A response with a stable bundle has a wire when its bundle has one. -/
theorem toWire_eq_ok {response : ExportResponse B} (hstable : response.bundle.Stable)
    {wire : Bytes} : response.toWire = .ok wire ↔ (∃ bytes, response.bundle.toWire = .ok bytes) ∧
      canonicalize B (.obj response.members) = .ok wire := by
  rw [toWire_iff]
  constructor
  · rintro ⟨bytes, reading, hbytes, hreading, hwire⟩
    rw [hstable.reads hbytes, Option.some.injEq] at hreading
    subst hreading
    exact ⟨⟨bytes, hbytes⟩, hwire⟩
  · rintro ⟨⟨bytes, hbytes⟩, hwire⟩
    exact ⟨bytes, _, hbytes, hstable.reads hbytes, hwire⟩

theorem toWire_of_stable {response : ExportResponse B} (hstable : response.bundle.Stable)
    {bytes : Bytes} (hbytes : response.bundle.toWire = .ok bytes) :
    ∃ wire, response.toWire = .ok wire := by
  obtain ⟨wire, hcanonical⟩ := canonicalize_total (B := B) (.obj response.members)
  exact ⟨wire, (toWire_eq_ok hstable).mpr ⟨⟨bytes, hbytes⟩, hcanonical⟩⟩

theorem settled_members {response : ExportResponse B} (hstable : response.bundle.Stable) :
    Settled B (.obj response.members) := by
  refine settled_obj (response.envelope_increasing _) fun m hm ↦ ?_
  simp only [members, envelope, List.mem_cons, List.not_mem_nil, or_false] at hm
  rcases hm with rfl | rfl | rfl | rfl | rfl | rfl
  · exact hstable.settled
  · exact settled_bool _
  · exact settled_str _
  · exact settled_cursorJson _
  · exact settled_version
  · exact settled_str _

theorem members_depth {response : ExportResponse B} (hstable : response.bundle.Stable) :
    (Json.obj response.members).depth ≤ MAX_NESTING := by
  refine (depth_obj_le (n := 68) fun m hm ↦ ?_).trans (by decide)
  simp only [members, envelope, List.mem_cons, List.not_mem_nil, or_false] at hm
  rcases hm with rfl | rfl | rfl | rfl | rfl | rfl
  · exact hstable.depth
  · exact Nat.zero_le 68
  · exact Nat.zero_le 68
  · exact (cursorJson_depth _).trans_le (Nat.zero_le 68)
  · exact Nat.zero_le 68
  · exact Nat.zero_le 68

/-- A response with the events of its bundle settled. -/
def settle (hnumbers : SafeNumbers B) (response : ExportResponse B) : ExportResponse B :=
  { response with bundle := response.bundle.settle hnumbers }

theorem toWire_settle (hnumbers : SafeNumbers B) {response : ExportResponse B} {wire : Bytes}
    (h : response.toWire = .ok wire) : (response.settle hnumbers).toWire = .ok wire := by
  obtain ⟨bytes, reading, hbytes, hreading, hwire⟩ := toWire_iff.mp h
  exact toWire_iff.mpr ⟨bytes, reading, BundleV1.toWire_settle hnumbers hbytes, hreading, hwire⟩

theorem new_valid {context : ContextId} {requestedHeads : List EventId} {bundle : BundleV1 B}
    {nextCursor : Option String} {response : ExportResponse B}
    (h : new B context requestedHeads bundle nextCursor = .ok response) :
    (bundle.context = context ∧ bundle.refs = []) ∧ ∃ fingerprint,
      Sync.requestedHeadFingerprint B context requestedHeads = .ok fingerprint ∧
        response = ⟨context, fingerprint, bundle, nextCursor, nextCursor.isNone⟩ := by
  obtain ⟨hvalid, h⟩ := unit_bind_eq_ok.mp h
  obtain ⟨fingerprint, hfingerprint, h⟩ := bind_eq_ok.mp h
  rw [Except.ok.injEq] at h
  exact ⟨ensure_eq_ok.mp hvalid, fingerprint, hfingerprint, h.symm⟩

/-- The wire of a checked page of settled, unmarked events gives the response back. -/
theorem fromWire_of_settled {response : ExportResponse B} (hunmarked : response.bundle.Unmarked)
    (hsettled : ∀ event ∈ response.bundle.events, event.settle B = event)
    (hchecks : response.bundle.context = response.context ∧ response.bundle.refs = [] ∧
      response.complete = response.nextCursor.isNone) {wire : Bytes}
    (h : response.toWire = .ok wire) : fromWire B wire = .ok response := by
  have hstable := hunmarked.stable
  obtain ⟨⟨bytes, hbytes⟩, hwire⟩ := (toWire_eq_ok hstable).mp h
  have hinc := response.envelope_increasing response.bundle.toJson
  have hbundle : canonicalize B response.bundle.toJson = .ok bytes :=
    (BundleV1.toWire_eq_ok.mp hbytes).1
  rw [fromWire, strictProtocol_canonicalize hwire (settled_members hstable)
      (members_depth hstable), ok_bind, members, objectExact_obj rfl (by simp [envelope]), ok_bind,
    version_of_mem hinc (by simp [envelope]), ok_bind,
    text_of_mem hinc (by simp [envelope]; rfl) (ContextId.parse_eq_ok.mpr rfl), ok_bind,
    string_of_mem hinc (by simp [envelope]; rfl), ok_bind,
    take_of_mem hinc (by simp [envelope]; rfl), ok_bind, hbundle, mapError_ok, ok_bind,
    BundleV1.fromWire_of_settled hunmarked hsettled hbytes, mapError_ok, ok_bind,
    take_of_mem hinc (by simp [envelope]; rfl), ok_bind, cursorValue_cursorJson, ok_bind,
    take_of_mem hinc (by simp [envelope]; rfl), ok_bind, required_some, ok_bind,
    ensure_true hchecks, ok_bind]
  change response.toWire >>= _ = _
  rw [h, ok_bind, ensure_true rfl, ok_bind]

/-- The wire of a response of unmarked events gives it back with its events settled. -/
theorem fromWire_toWire (hnumbers : SafeNumbers B) {context : ContextId}
    {requestedHeads : List EventId} {bundle : BundleV1 B} {nextCursor : Option String}
    {response : ExportResponse B} {wire : Bytes}
    (hnew : new B context requestedHeads bundle nextCursor = .ok response)
    (hunmarked : bundle.Unmarked) (h : response.toWire = .ok wire) :
    fromWire B wire = .ok (response.settle hnumbers) := by
  obtain ⟨hvalid, fingerprint, -, rfl⟩ := new_valid hnew
  exact fromWire_of_settled ((BundleV1.settle_unmarked hnumbers).mpr hunmarked)
    (BundleV1.settle_events hnumbers bundle) ⟨hvalid.1, hvalid.2, rfl⟩ (toWire_settle hnumbers h)

/-- What the acceptance of bytes has parsed and checked. -/
theorem fromWire_parts {input : Bytes} {response : ExportResponse B}
    (h : fromWire B input = .ok response) :
    (∃ object value wire, strictJson B input = .ok (.obj object) ∧
      member object "bundle" = some value ∧ canonicalize B value = .ok wire ∧
        BundleV1.fromWire B wire = .ok response.bundle) ∧
    response.toWire = .ok input ∧ response.bundle.context = response.context ∧
      response.bundle.refs = [] ∧ response.complete = response.nextCursor.isNone := by
  obtain ⟨value, hvalue, h⟩ := bind_eq_ok.mp h
  obtain ⟨object, hobject, h⟩ := bind_eq_ok.mp h
  obtain ⟨-, h⟩ := unit_bind_eq_ok.mp h
  obtain ⟨context, -, h⟩ := bind_eq_ok.mp h
  obtain ⟨fingerprint, -, h⟩ := bind_eq_ok.mp h
  obtain ⟨bundleValue, hbundleValue, h⟩ := bind_eq_ok.mp h
  obtain ⟨bundleWire, hbundleWire, h⟩ := bind_eq_ok.mp h
  obtain ⟨bundle, hbundle, h⟩ := bind_eq_ok.mp h
  obtain ⟨cursorMember, -, h⟩ := bind_eq_ok.mp h
  obtain ⟨nextCursor, -, h⟩ := bind_eq_ok.mp h
  obtain ⟨completeValue, -, h⟩ := bind_eq_ok.mp h
  obtain ⟨complete, -, h⟩ := bind_eq_ok.mp h
  obtain ⟨hchecks, h⟩ := unit_bind_eq_ok.mp h
  obtain ⟨wire, hwire, h⟩ := bind_eq_ok.mp h
  obtain ⟨hsame, h⟩ := unit_bind_eq_ok.mp h
  rw [Except.ok.injEq] at h
  subst h
  obtain ⟨parsed, hparsed, hvalue⟩ := bind_eq_ok.mp hvalue
  obtain ⟨rendered, -, hvalue⟩ := bind_eq_ok.mp hvalue
  obtain ⟨-, hvalue⟩ := unit_bind_eq_ok.mp hvalue
  rw [Except.ok.injEq] at hvalue
  subst hvalue
  obtain ⟨members, hmembers, hobject⟩ := bind_eq_ok.mp hobject
  obtain ⟨-, hobject⟩ := unit_bind_eq_ok.mp hobject
  rw [Except.ok.injEq] at hobject
  subst hobject
  rw [mapError_eq_ok, intoObject_eq_ok] at hmembers
  subst hmembers
  exact ⟨⟨_, bundleValue, bundleWire, mapError_eq_ok.mp hparsed,
    takeRequired_eq_ok.mp (mapError_eq_ok.mp hbundleValue), mapError_eq_ok.mp hbundleWire,
    mapError_eq_ok.mp hbundle⟩, by rw [hwire, ensure_eq_ok.mp hsame], ensure_eq_ok.mp hchecks⟩

/-- Accepted bytes are those of the response they give, which is complete without a cursor only. -/
theorem fromWire_eq_ok {input : Bytes} {response : ExportResponse B}
    (h : fromWire B input = .ok response) : response.toWire = .ok input ∧
      response.bundle.context = response.context ∧ response.bundle.refs = [] ∧
        response.complete = response.nextCursor.isNone := (fromWire_parts h).2

/-- The bundle of an accepted response was accepted from bytes of its own. -/
theorem bundle_of_fromWire {input : Bytes} {response : ExportResponse B}
    (h : fromWire B input = .ok response) :
    ∃ wire, BundleV1.fromWire B wire = .ok response.bundle := by
  obtain ⟨⟨object, value, wire, -, -, -, hbundle⟩, -⟩ := fromWire_parts h
  exact ⟨wire, hbundle⟩

/-- The events of an accepted response are unmarked: its bytes hold what its bundle reads as. -/
theorem unmarked_of_fromWire {input : Bytes} {response : ExportResponse B}
    (h : fromWire B input = .ok response) : response.bundle.Unmarked := by
  obtain ⟨⟨object, value, wire, hobject, hvalue, hwire, hbundle⟩, hinput, -⟩ := fromWire_parts h
  obtain ⟨bytes, reading, hbytes, hreading, hcanonical⟩ := toWire_iff.mp hinput
  obtain ⟨hsorted, hbare⟩ := fromSlice_reading hreading
  have hsame := strictJson_inverse hcanonical hobject
  rw [Json.collect_obj _ (response.envelope_increasing reading), Json.obj.injEq] at hsame
  have hinc : Increasing object := (strictJson_sorted hobject).increasing
  have hmember : ("bundle", reading.collect B.reread) ∈ object := by
    rw [hsame]
    exact List.mem_map.mpr ⟨("bundle", reading), by simp [envelope], rfl⟩
  rw [member_of_mem hinc hmember, Option.some.injEq] at hvalue
  subst hvalue
  have hevents := BundleV1.bare_of_fromWire
    ((strictJson_sorted hobject).member (member_of_mem hinc hmember))
    (Json.bare_collect B.reread reading hsorted hbare) hwire hbundle
  intro event hevent
  exact SignedEventV1.unmarked_of_bare ((BundleV1.fromWire_eq_ok hbundle).2.1 event hevent)
    ((BundleV1.toWire_eq_ok.mp hbytes).2.2 event hevent) (hevents event hevent)

/-- What is accepted of the wire of a response: its own fields, around what its bundle reads as. -/
theorem fromWire_reading {response parsed : ExportResponse B} {wire : Bytes}
    (hwire : response.toWire = .ok wire) (h : fromWire B wire = .ok parsed) :
    (parsed.context = response.context ∧
      parsed.requestedHeadFingerprint = response.requestedHeadFingerprint ∧
      parsed.nextCursor = response.nextCursor ∧ parsed.complete = response.complete) ∧
    ∃ bytes, response.bundle.toWire = .ok bytes ∧ parsed.bundle.toWire = .ok bytes ∧
      BundleV1.fromWire B bytes = .ok parsed.bundle := by
  obtain ⟨bytes, reading, hbytes, hreading, hcanonical⟩ := toWire_iff.mp hwire
  obtain ⟨⟨object, value, rendered, hobject, hvalue, hrendered, hbundle⟩, hparsed, -⟩ :=
    fromWire_parts h
  have hstable := (unmarked_of_fromWire h).stable
  obtain ⟨⟨bytes', hbytes'⟩, hcanonical'⟩ := (toWire_eq_ok hstable).mp hparsed
  have hsame := strictJson_inverse hcanonical hobject
  have hsame' := strictJson_inverse hcanonical' hobject
  rw [settled_members hstable, Json.obj.injEq] at hsame'
  subst hsame'
  rw [Json.collect_obj _ (response.envelope_increasing reading), Json.obj.injEq, members] at hsame
  have hmember : ("bundle", parsed.bundle.toJson) ∈ parsed.members := by simp [members, envelope]
  have hinc : Increasing parsed.members := parsed.envelope_increasing _
  rw [member_of_mem hinc hmember, Option.some.injEq] at hvalue
  subst hvalue
  simp only [envelope, List.map_cons, List.map_nil, List.cons.injEq, Prod.mk.injEq, true_and,
    and_true, Json.collect] at hsame
  obtain ⟨hbundleJson, hcomplete, hcontext, hcursor, -, hfingerprint⟩ := hsame
  -- what the bundle reads as renders as the bundle
  have hrenders : canonicalize B parsed.bundle.toJson = .ok bytes := by
    rw [hbundleJson, BundleV1.reading_eq hbytes hreading, canonicalize_collect,
      canonicalize_collect]
    exact (BundleV1.toWire_eq_ok.mp hbytes).1
  obtain rfl : bytes' = bytes :=
    Except.ok.inj ((BundleV1.toWire_eq_ok.mp hbytes').1.symm.trans hrenders)
  obtain rfl : rendered = bytes' := Except.ok.inj (hrendered.symm.trans hrenders)
  refine ⟨⟨ContextId.text_injective (Json.str.inj hcontext), Json.str.inj hfingerprint, ?_,
    Json.bool.inj hcomplete⟩, rendered, hbytes, hbytes', hbundle⟩
  rw [settled_cursorJson response.nextCursor] at hcursor
  have hread := congrArg cursorValue hcursor
  rwa [cursorValue_cursorJson, cursorValue_cursorJson, Except.ok.injEq] at hread

/-- A page of events that their own wires parse to is settled. -/
theorem settle_eq_self (hnumbers : SafeNumbers B) {response : ExportResponse B}
    (h : ∀ event ∈ response.bundle.events, ∃ bytes, event.Authentic B bytes) :
    response.settle hnumbers = response := by
  have hevents : response.bundle.events.map (SignedEventV1.settle B) = response.bundle.events := by
    refine (List.map_congr_left fun event hevent ↦ ?_).trans (List.map_id _)
    obtain ⟨bytes, hauthentic⟩ := h event hevent
    exact SignedEventV1.settle_eq_self
      (SignedEventV1.verify_validate (response.bundle.event_verify event hevent))
      hauthentic.settled
  have hbundle : response.bundle.settle hnumbers = response.bundle := by
    rw [BundleV1.settle]
    congr
  rw [settle, hbundle]

/-- What is read back of a response: everything, except that a number of a payload may be spelled as
canonical text spells it where the event is not what its own wire parses to. -/
structure ReadsBack (response parsed : ExportResponse B) : Prop where
  context : parsed.context = response.context
  fingerprint : parsed.requestedHeadFingerprint = response.requestedHeadFingerprint
  nextCursor : parsed.nextCursor = response.nextCursor
  complete : parsed.complete = response.complete
  bundleContext : parsed.bundle.context = response.bundle.context
  bundleRefs : parsed.bundle.refs = response.bundle.refs
  events : List.Forall₂ (fun event again ↦ again.eventId = event.eventId ∧
    again.signature = event.signature ∧
    ∃ bytes, event.toWire B = .ok bytes ∧ again.toWire B = .ok bytes)
    response.bundle.events parsed.bundle.events
  unchanged : (∀ event ∈ response.bundle.events, ∃ bytes, event.Authentic B bytes) →
    parsed = response

theorem readsBack_settle (hnumbers : SafeNumbers B) (response : ExportResponse B) :
    response.ReadsBack (response.settle hnumbers) where
  context := rfl
  fingerprint := rfl
  nextCursor := rfl
  complete := rfl
  bundleContext := rfl
  bundleRefs := rfl
  events := by
    change List.Forall₂ _ _ (response.bundle.events.map (SignedEventV1.settle B))
    refine List.forall₂_map_right_iff.mpr (List.forall₂_same.mpr fun event hevent ↦ ?_)
    obtain ⟨bytes, hbytes⟩ := canonicalize_total (B := B) (event.toJson B)
    have hrender := SignedEventV1.toWire_eq_ok.mpr
      ⟨response.bundle.event_verify event hevent, hbytes⟩
    exact ⟨rfl, rfl, bytes, hrender, SignedEventV1.toWire_settle hnumbers hrender⟩
  unchanged := settle_eq_self hnumbers

/-- A response whose bundle has a wire comes back from a wire of its own when its events are
unmarked, and only then: those of an accepted page are. -/
theorem readsBack_iff (hnumbers : SafeNumbers B) {context : ContextId}
    {requestedHeads : List EventId} {bundle : BundleV1 B} {nextCursor : Option String}
    {response : ExportResponse B} {bytes : Bytes}
    (hnew : new B context requestedHeads bundle nextCursor = .ok response)
    (hbytes : bundle.toWire = .ok bytes) :
    (∃ wire parsed, response.toWire = .ok wire ∧ fromWire B wire = .ok parsed ∧
      response.ReadsBack parsed) ↔ bundle.Unmarked := by
  obtain ⟨-, fingerprint, -, hresponse⟩ := new_valid hnew
  constructor
  · rintro ⟨wire, parsed, -, hparsed, hback⟩ event hevent
    have hevents := hback.events
    rw [hresponse] at hevents
    obtain ⟨again, hagain, -, -, rendered, hrendered, hrendered'⟩ :=
      exists_of_forall₂ hevents.flip event hevent
    have hsame := SignedEventV1.settle_eq_of_wire hrendered hrendered'
    have hpayload : (again.settle B).body.payload.Unmarked := unmarked_of_fromWire hparsed _ hagain
    rwa [hsame] at hpayload
  · intro hunmarked
    have hsame : response.bundle = bundle := by rw [hresponse]
    obtain ⟨wire, hwire⟩ := toWire_of_stable (hsame.symm ▸ hunmarked.stable)
      (hsame.symm ▸ hbytes)
    exact ⟨wire, response.settle hnumbers, hwire, fromWire_toWire hnumbers hnew hunmarked hwire,
      response.readsBack_settle hnumbers⟩

end ExportResponse

/-! ### Totality -/

theorem derive_total (domain : String) (value : Json) :
    ∃ bytes, derive B domain value = .ok bytes := by
  obtain ⟨bytes, hbytes⟩ := canonicalize_total (B := B) value
  exact ⟨_, bind_eq_ok.mpr ⟨bytes, mapError_eq_ok.mpr hbytes, rfl⟩⟩

theorem RefSnapshot.new_total (context : ContextId) {refs : List AdvertisedRef}
    (h : validateRefs refs = .ok ()) :
    ∃ snapshot, RefSnapshot.new B context refs = .ok snapshot := by
  obtain ⟨bytes, hbytes⟩ := derive_total (B := B) REFS_HASH_CONTEXT
    (refsFingerprintValue B context refs)
  exact ⟨_, unit_bind_eq_ok.mpr ⟨h, bind_eq_ok.mpr ⟨bytes, hbytes, rfl⟩⟩⟩

theorem requestedHeadFingerprint_total (context : ContextId) {heads : List EventId}
    (h : validateSortedHeads B heads false = .ok ()) :
    ∃ fingerprint, requestedHeadFingerprint B context heads = .ok fingerprint := by
  obtain ⟨bytes, hbytes⟩ := derive_total (B := B) HEADS_HASH_CONTEXT
    (.obj [("context", .str (context.text B)),
      ("protocol_version", .num (.posInt SYNC_PROTOCOL_VERSION)),
      ("requested_heads", headsValue B heads)])
  exact ⟨_, unit_bind_eq_ok.mpr ⟨h, bind_eq_ok.mpr ⟨bytes, hbytes, rfl⟩⟩⟩

theorem planFingerprint_total (context : ContextId) (requested known : List EventId)
    (limits : PullLimits) :
    ∃ bytes, planFingerprint B context requested known limits = .ok bytes := derive_total _ _

theorem encodeCursor_total {offset : ℕ} (fingerprint : Fixed 32) (h : offset < 2 ^ 64) :
    ∃ text, encodeCursor B offset fingerprint = .ok text :=
  ⟨_, encodeCursor_eq_ok.mpr ⟨h, rfl⟩⟩

theorem ExportResponse.new_total {requestedHeads : List EventId} {bundle : BundleV1 B}
    (hheads : validateSortedHeads B requestedHeads false = .ok ()) (hrefs : bundle.refs = [])
    (nextCursor : Option String) :
    ∃ response, ExportResponse.new B bundle.context requestedHeads bundle nextCursor =
      .ok response := by
  obtain ⟨fingerprint, hfingerprint⟩ := requestedHeadFingerprint_total bundle.context hheads
  exact ⟨_, unit_bind_eq_ok.mpr ⟨ensure_true ⟨rfl, hrefs⟩,
    bind_eq_ok.mpr ⟨fingerprint, hfingerprint, rfl⟩⟩⟩

/-- The four codecs of the protocol, both ways. A value built by `new`, or a cursor, has a wire that
decodes to it; the page bound of a request is not on the wire, and a page comes back exactly when no
payload of its events has an object that begins with the raw token. Accepted bytes are the encoding
of what they decode to; an accepted snapshot carries the fingerprint of its refs, and an accepted
page is complete without a cursor only, and holds events of its own context alone. -/
theorem sync_roundTrips_iff (B : Boundary) (hnumbers : SafeNumbers B) :
    ((∀ context requestedHeads knownHeads cursor maxEvents maxBundleBytes maxPages limits request,
        PullLimits.new maxEvents maxBundleBytes maxPages = .ok limits →
        ExportRequest.new B context requestedHeads knownHeads cursor limits = .ok request →
        ∃ wire, request.toWire B = .ok wire ∧ ExportRequest.fromWire B wire =
          .ok ⟨context, requestedHeads, knownHeads, cursor, maxEvents, maxBundleBytes,
            MAX_PULL_PAGES⟩) ∧
      (∀ context refs snapshot, RefSnapshot.new B context refs = .ok snapshot →
        ∃ wire, snapshot.toWire B = .ok wire ∧ RefSnapshot.fromWire B wire = .ok snapshot) ∧
      (∀ context requestedHeads bundle nextCursor response bytes,
        ExportResponse.new B context requestedHeads bundle nextCursor = .ok response →
        bundle.toWire = .ok bytes → ((∃ wire parsed, response.toWire = .ok wire ∧
          ExportResponse.fromWire B wire = .ok parsed ∧ response.ReadsBack parsed) ↔
            ∀ event ∈ bundle.events, event.Unmarked B)) ∧
      ∀ offset fingerprint, offset < 2 ^ 64 → ∃ text, encodeCursor B offset fingerprint = .ok text ∧
        decodeCursor B text = .ok (offset, fingerprint)) ∧
    (∀ input request, ExportRequest.fromWire B input = .ok request →
      request.toWire B = .ok input) ∧
    (∀ input snapshot, RefSnapshot.fromWire B input = .ok snapshot →
      snapshot.toWire B = .ok input ∧
        RefSnapshot.new B snapshot.context snapshot.refs = .ok snapshot) ∧
    (∀ input response, ExportResponse.fromWire B input = .ok response →
      response.toWire = .ok input ∧ response.bundle.context = response.context ∧
        response.bundle.refs = [] ∧ (response.complete = true ↔ response.nextCursor = none)) ∧
    ∀ text offset fingerprint, decodeCursor B text = .ok (offset, fingerprint) →
      encodeCursor B offset fingerprint = .ok text := by
  refine ⟨⟨?_, ?_, ?_, ?_⟩, ?_, ?_, ?_, ?_⟩
  · intro context requestedHeads knownHeads cursor maxEvents maxBundleBytes maxPages limits request
      hlimits hnew
    obtain ⟨wire, hwire⟩ := request.toWire_total (B := B)
    have hparsed := ExportRequest.fromWire_toWire hlimits hnew hwire
    obtain ⟨-, rfl⟩ := PullLimits.new_eq_ok.mp hlimits
    obtain ⟨-, rfl⟩ := ExportRequest.new_eq_ok.mp hnew
    exact ⟨wire, hwire, hparsed⟩
  · intro context refs snapshot hnew
    obtain ⟨wire, hwire⟩ := snapshot.toWire_total (B := B)
    exact ⟨wire, hwire, RefSnapshot.fromWire_toWire hnew hwire⟩
  · intro context requestedHeads bundle nextCursor response bytes hnew hbytes
    exact ExportResponse.readsBack_iff hnumbers hnew hbytes
  · intro offset fingerprint hoffset
    have hencode : encodeCursor B offset fingerprint =
        .ok ("cursor1_" ++ B.encode64 (toBeBytes 8 offset ++ fingerprint.1)) :=
      encodeCursor_eq_ok.mpr ⟨hoffset, rfl⟩
    exact ⟨_, hencode, decodeCursor_encodeCursor hencode⟩
  · intro input request h
    exact (ExportRequest.fromWire_eq_ok h).1
  · intro input snapshot h
    exact RefSnapshot.fromWire_eq_ok h
  · intro input response h
    obtain ⟨hwire, hcontext, hrefs, hcomplete⟩ := ExportResponse.fromWire_eq_ok h
    exact ⟨hwire, hcontext, hrefs, by rw [hcomplete, Option.isNone_iff_eq_none]⟩
  · intro text offset fingerprint h
    exact encodeCursor_of_decodeCursor h

section Golden

open Reference

/-- The events of the fixture as a page. -/
def goldenPage : BundleV1 Golden.B :=
  ⟨goldenBundle.context, goldenBundle.events, [], checkParts_eq_ok.mpr
    ⟨(checkParts_eq_ok.mp goldenBundle.parts).1.imp_right fun _ ↦ Nat.zero_le _,
      (checkParts_eq_ok.mp goldenBundle.parts).2.1, (checkParts_eq_ok.mp goldenBundle.parts).2.2.1,
      canonical_nil _⟩⟩

theorem goldenPage_unmarked : goldenPage.Unmarked := goldenBundle_unmarked

/-- A request for the last event of the fixture, the snapshot that advertises it, and the page that
answers the request come back from their wires. -/
theorem sync_roundTrips_golden :
    (∃ wire, ExportRequest.fromWire Golden.B wire =
      .ok ⟨Golden.context, [Golden.second.id], [], none, .default⟩) ∧
    (∃ wire snapshot, snapshot.refs = [⟨.local, Golden.main, Golden.second.id⟩] ∧
      RefSnapshot.fromWire Golden.B wire = .ok snapshot) ∧
    ∃ wire response, response.bundle.context = goldenPage.context ∧
      ExportResponse.fromWire Golden.B wire = .ok response := by
  have hheads : validateSortedHeads Golden.B [Golden.second.id] false = .ok () :=
    ensure_true ⟨fun h ↦ List.cons_ne_nil _ _ h.2, canonical_singleton _ _⟩
  have hrefs : validateRefs [⟨.local, Golden.main, Golden.second.id⟩] = .ok () :=
    ensure_true ⟨by decide, canonical_singleton _ _⟩
  have hempty : goldenPage.refs = [] := rfl
  obtain ⟨snapshot, hsnapshot⟩ := RefSnapshot.new_total (B := Golden.B) Golden.context hrefs
  obtain ⟨response, hresponse⟩ := ExportResponse.new_total hheads hempty none
  obtain ⟨bytes, hbytes⟩ := goldenPage.toWire_of_short goldenPage_unmarked.passes (by decide)
  obtain ⟨⟨hrequests, hsnapshots, hresponses, -⟩, -⟩ :=
    sync_roundTrips_iff Golden.B (World.safeNumbers _)
  obtain ⟨requestWire, -, hrequest⟩ := hrequests Golden.context [Golden.second.id] [] none
    MAX_BUNDLE_EVENTS MAX_BUNDLE_CANONICAL_BYTES MAX_PULL_PAGES .default
    ⟨Golden.context, [Golden.second.id], [], none, .default⟩
    (PullLimits.new_eq_ok.mpr ⟨by decide, rfl⟩)
    (ExportRequest.new_eq_ok.mpr ⟨⟨hheads, ensure_true ⟨fun h ↦ Bool.noConfusion h.1,
      canonical_nil _⟩, by decide, by decide⟩, rfl⟩)
  obtain ⟨snapshotWire, -, hagain⟩ := hsnapshots _ _ snapshot hsnapshot
  obtain ⟨responseWire, parsed, -, hparsed, hsame⟩ :=
    (hresponses _ _ goldenPage _ response bytes hresponse hbytes).mpr goldenPage_unmarked
  obtain ⟨-, fingerprint, -, rfl⟩ := ExportResponse.new_valid hresponse
  exact ⟨⟨requestWire, hrequest⟩, ⟨snapshotWire, snapshot, (RefSnapshot.new_valid hsnapshot).2.2,
    hagain⟩, responseWire, parsed, hsame.bundleContext, hparsed⟩

end Golden

section Marked

open Reference

/-- The page of the marked request has a wire, and the wire is refused. -/
theorem markedResponse_refused : ∃ response wire,
    ExportResponse.new Marked.B Golden.context [Marked.marked.id] markedBundle none =
      .ok response ∧ (∃ bytes, markedBundle.toWire = .ok bytes) ∧ response.toWire = .ok wire ∧
    ∀ parsed, ExportResponse.fromWire Marked.B wire ≠ .ok parsed := by
  have hheads : validateSortedHeads Marked.B [Marked.marked.id] false = .ok () :=
    ensure_true ⟨fun h ↦ List.cons_ne_nil _ _ h.2, canonical_singleton _ _⟩
  obtain ⟨response, hresponse⟩ :=
    ExportResponse.new_total hheads (show markedBundle.refs = [] from rfl) none
  obtain ⟨bytes, hbytes⟩ := markedBundle_wire
  have hbundle : response.bundle = markedBundle := by
    obtain ⟨-, fingerprint, -, rfl⟩ := ExportResponse.new_valid hresponse
    rfl
  obtain ⟨wire, hwire⟩ := ExportResponse.toWire_of_stable (hbundle.symm ▸ markedBundle_stable)
    (hbundle.symm ▸ hbytes)
  refine ⟨response, wire, hresponse, ⟨bytes, hbytes⟩, hwire, fun parsed hparsed ↦ ?_⟩
  obtain ⟨-, bytes', hbytes', -, hrefused⟩ := ExportResponse.fromWire_reading hwire hparsed
  rw [hbundle] at hbytes'
  exact markedBundle_rejected hbytes' hrefused

end Marked

end ContextMesh.Sync
