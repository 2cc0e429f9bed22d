import ContextMesh.Contract.Plain
import Mathlib.Algebra.GroupWithZero.Nat
import Mathlib.Data.List.Infix

/-!
The libraries the program calls: the JSON tokenizer, the RFC 8785 writer, base64, BLAKE3 and
Ed25519. They are parameters of the whole development. The fields after the functions are the
documented behaviour the program relies on: the tokenizer reads canonical bytes within its nesting
limit, and gives the value back with its numbers as the writer renders them and its members in the
order of their names, decoding gives the encoded bytes back, and canonical text has the length
RFC 8785 gives it. Nothing is assumed of the hash or of the signature scheme; results that need
honest signatures to verify say so (`Honest`).
-/

set_option autoImplicit false
set_option relaxedAutoImplicit false

namespace ContextMesh.Contract

open Checked

abbrev Bytes := List UInt8

/-- The UTF-8 bytes of a text. -/
def asBytes (text : String) : Bytes := text.toList.flatMap String.utf8EncodeChar

/-- Byte strings of a fixed length. -/
abbrev Fixed (size : ℕ) := {bytes : Bytes // bytes.length = size}

/-- Why the tokenizer refuses a text. -/
inductive JsonFault
  | malformed
  | outOfRange
  deriving DecidableEq

/-- The byte order mark. -/
def byteOrderMark : Bytes := [0xef, 0xbb, 0xbf]

/-- How deeply the tokenizer lets arrays and objects nest. -/
def MAX_NESTING : ℕ := 127

/-- A letter, a digit, or a symbol of names and of URL-safe base64. -/
def plainChar (c : Char) : Bool := c.isAlphanum || c = '-' || c = '_' || c = '.'

structure Boundary where
  /-- Tokenizes a whole text; objects keep their members in text order, with repeats. -/
  deserialize : Bytes → Except JsonFault Json
  /-- Renders a value as RFC 8785 canonical bytes. -/
  toVec : Json → Option Bytes
  /-- The number that the canonical rendering of a number reads back as. -/
  reread : Number → Number
  /-- Unpadded URL-safe base64. -/
  encode64 : Bytes → String
  decode64 : String → Option Bytes
  /-- BLAKE3 in key-derivation mode, by context string. -/
  deriveKey : String → Bytes → Fixed 32
  /-- The Ed25519 public key of a seed. -/
  verifyingKey : Fixed 32 → Fixed 32
  /-- The Ed25519 signature of a message under a seed. -/
  sign : Fixed 32 → Bytes → Fixed 64
  /-- The bytes are the encoding of an Ed25519 public key. -/
  isVerifyingKey : Fixed 32 → Bool
  /-- Strict Ed25519 verification. -/
  verifyStrict : Fixed 32 → Bytes → Fixed 64 → Bool
  toVec_finite : ∀ v, ∃ bytes, toVec v = some bytes
  deserialize_toVec : ∀ {v bytes}, toVec v = some bytes → v.depth ≤ MAX_NESTING →
    ∃ document, deserialize bytes = .ok document
  toVec_inverse : ∀ {v bytes document}, toVec v = some bytes → deserialize bytes = .ok document →
    document.strict = .ok (v.collect reread) ∧ document.collect id = v.collect reread ∧
      ∀ read, document.plain read = (v.collect reread).plain read
  toVec_collect : ∀ v, toVec (v.collect reread) = toVec v
  toVec_unmarked : ∀ {v bytes}, toVec v = some bytes → ¬ byteOrderMark <+: bytes
  reread_posInt : ∀ {n}, n ≤ MAX_SAFE_INTEGER → reread (.posInt n) = .posInt n
  decode64_encode64 : ∀ bytes, decode64 (encode64 bytes) = some bytes
  encode64_size : ∀ bytes, (encode64 bytes).utf8ByteSize = (bytes.length * 8 + 5) / 6
  encode64_plain : ∀ bytes, (encode64 bytes).toList.all plainChar
  toVec_null_length : (toVec .null).elim 0 List.length = 4
  toVec_posInt_length : ∀ {n}, n ≤ MAX_SAFE_INTEGER →
    (toVec (.num (.posInt n))).elim 0 List.length ≤ 16
  /-- A plain text renders between quotes, without escapes. -/
  toVec_plain_length : ∀ {text : String}, text.toList.all plainChar →
    (toVec (.str text)).elim 0 List.length = text.utf8ByteSize + 2
  toVec_arr_length : ∀ items, (toVec (.arr items)).elim 0 List.length =
    (items.map fun v ↦ (toVec v).elim 0 List.length).sum + (items.length - 1) + 2
  toVec_obj_length : ∀ {members}, Increasing members →
    (toVec (.obj members)).elim 0 List.length =
      (members.map fun m ↦ (toVec (.str m.1)).elim 0 List.length + 1 +
        (toVec m.2).elim 0 List.length).sum + (members.length - 1) + 2

variable (B : Boundary)

/-- RFC 8785 rendering, with its failure as a contract error. -/
def canonicalize (v : Json) : Except ContractError Bytes := required (B.toVec v) .canonicalization

def mapJsonError : JsonFault → ContractError
  | .outOfRange => .unsafeNumber
  | .malformed => .jsonSyntax

/-- Parses a whole text strictly: no byte order mark and no repeated member at any depth. -/
def strictJson (input : Bytes) : Except ContractError Json := do
  ensure (¬ byteOrderMark <+: input) .jsonSyntax
  let document ← (B.deserialize input).mapError mapJsonError
  document.strict

/-- Parses a whole text plainly, as the library's own value type does. Raw text is parsed in the
same way; it is shorter than the text around it. -/
def fromSlice (input : Bytes) : Option Json :=
  match B.deserialize input with
  | .ok document => document.plain fun text ↦
    if (asBytes text).length < input.length then fromSlice (asBytes text) else none
  | .error _ => none
termination_by input.length

/-- What raw text within a text reads as. -/
def readRaw (input : Bytes) (text : String) : Option Json :=
  if (asBytes text).length < input.length then fromSlice B (asBytes text) else none

def intoObject : Json → Except ContractError Members
  | .obj members => .ok members
  | _ => .error .jsonSyntax

def intoString : Json → Except ContractError String
  | .str text => .ok text
  | _ => .error .jsonSyntax

def rejectUnknown (object : Members) (allowed : List String) : Except ContractError Unit :=
  ensure (∀ m ∈ object, m.1 ∈ allowed) .unknownField

/-- The value of a required member. The program removes it from the map; every name is taken once,
so the map is left as it is here. -/
def takeRequired (object : Members) (name : String) : Except ContractError Json :=
  required (member object name) .missingField

/-- The number of canonical bytes of a value. -/
def canonicalLength (v : Json) : ℕ := (B.toVec v).elim 0 List.length

/-- A value that its canonical rendering reads back as itself. -/
def Settled (v : Json) : Prop := v.collect B.reread = v

/-- Canonical rendering keeps safe numbers safe: what it reads back as passes the same check. -/
def SafeNumbers : Prop :=
  ∀ n, validateNumber n = .ok () → validateNumber (B.reread n) = .ok ()

/-- Honest signatures verify: the key of a seed is a verifying key, and it accepts what the seed
signs. -/
structure Honest : Prop where
  verifying : ∀ seed, B.isVerifyingKey (B.verifyingKey seed) = true
  accepts : ∀ seed message,
    B.verifyStrict (B.verifyingKey seed) message (B.sign seed message) = true

variable {B}

theorem canonicalize_eq_ok {v : Json} {bytes : Bytes} :
    canonicalize B v = .ok bytes ↔ B.toVec v = some bytes := by
  rw [canonicalize, required_eq_ok]

theorem canonicalize_total (v : Json) : ∃ bytes, canonicalize B v = .ok bytes := by
  obtain ⟨bytes, h⟩ := B.toVec_finite v
  exact ⟨bytes, canonicalize_eq_ok.mpr h⟩

/-- Strict parsing inverts canonical rendering, up to the rendering of numbers. -/
theorem strictJson_inverse {v w : Json} {bytes : Bytes} (h : canonicalize B v = .ok bytes)
    (hparse : strictJson B bytes = .ok w) : w = v.collect B.reread := by
  rw [canonicalize_eq_ok] at h
  obtain ⟨-, hparse⟩ := unit_bind_eq_ok.mp hparse
  obtain ⟨document, hdocument, hparse⟩ := bind_eq_ok.mp hparse
  rw [(B.toVec_inverse h (mapError_eq_ok.mp hdocument)).1, Except.ok.injEq] at hparse
  exact hparse.symm

theorem strictJson_canonicalize {v : Json} {bytes : Bytes} (h : canonicalize B v = .ok bytes)
    (hdepth : v.depth ≤ MAX_NESTING) : strictJson B bytes = .ok (v.collect B.reread) := by
  rw [canonicalize_eq_ok] at h
  obtain ⟨document, hdocument⟩ := B.deserialize_toVec h hdepth
  rw [strictJson, ensure_true (B.toVec_unmarked h), ok_bind, hdocument, mapError_ok, ok_bind,
    (B.toVec_inverse h hdocument).1]

theorem fromSlice_eq (input : Bytes) : fromSlice B input =
    match B.deserialize input with
    | .ok document => document.plain (readRaw B input)
    | .error _ => none := fromSlice.eq_1 B input

/-- What canonical bytes read as, if they read as anything. -/
theorem plain_of_fromSlice {v w : Json} {bytes : Bytes} (h : canonicalize B v = .ok bytes)
    (hread : fromSlice B bytes = some w) :
    (v.collect B.reread).plain (readRaw B bytes) = some w := by
  rw [canonicalize_eq_ok] at h
  rw [fromSlice_eq] at hread
  cases hdocument : B.deserialize bytes with
  | ok document =>
    rw [hdocument] at hread
    exact ((B.toVec_inverse h hdocument).2.2 _).symm.trans hread
  | error fault =>
    rw [hdocument] at hread
    cases hread

/-- Canonical bytes read as the plain reading of the value they are of. -/
theorem fromSlice_of_canonicalize {v : Json} {bytes : Bytes} (h : canonicalize B v = .ok bytes)
    (hdepth : v.depth ≤ MAX_NESTING) :
    fromSlice B bytes = (v.collect B.reread).plain (readRaw B bytes) := by
  rw [canonicalize_eq_ok] at h
  obtain ⟨document, hdocument⟩ := B.deserialize_toVec h hdepth
  rw [fromSlice_eq, hdocument]
  exact (B.toVec_inverse h hdocument).2.2 _

theorem fromSlice_canonicalize {v : Json} {bytes : Bytes} (h : canonicalize B v = .ok bytes)
    (hdepth : v.depth ≤ MAX_NESTING) (hunmarked : (v.collect B.reread).Unmarked) :
    fromSlice B bytes = some (v.collect B.reread) := by
  rw [fromSlice_of_canonicalize h hdepth, Json.plain_of_unmarked _ _ hunmarked,
    Json.collect_id_collect]

/-- A reading consists of sorted maps, none of them with the raw token alone. -/
theorem fromSlice_reading {input : Bytes} {w : Json} (h : fromSlice B input = some w) :
    w.Sorted ∧ w.Bare := by
  induction hsize : input.length using Nat.strong_induction_on generalizing input w with
  | h size ih =>
    rw [fromSlice_eq] at h
    split at h
    · have hraw : ∀ text v, readRaw B input text = some v → v.Sorted ∧ v.Bare := by
        intro text v hv
        rw [readRaw] at hv
        split_ifs at hv with hshorter
        exact ih _ (hsize ▸ hshorter) hv rfl
      exact ⟨Json.plain_sorted (fun text v hv ↦ (hraw text v hv).1) _ w h,
        Json.plain_bare (fun text v hv ↦ (hraw text v hv).2) _ w h⟩
    · cases h

/-- Canonical bytes read as the value they are of, if at all, only when the value is unmarked. -/
theorem unmarked_of_fromSlice {v w : Json} {bytes : Bytes} (h : canonicalize B v = .ok bytes)
    (hread : fromSlice B bytes = some w) (hbare : (v.collect B.reread).Bare) :
    (v.collect B.reread).Unmarked :=
  Json.unmarked_of_plain _ w hbare (plain_of_fromSlice h hread)

/-- What canonical bytes read back as is settled. -/
theorem settled_collect {v : Json} (hdepth : v.depth ≤ MAX_NESTING) :
    Settled B (v.collect B.reread) := by
  obtain ⟨bytes, h⟩ := B.toVec_finite v
  obtain ⟨document, hdocument⟩ := B.deserialize_toVec h hdepth
  have hagain : B.toVec (v.collect B.reread) = some bytes := (B.toVec_collect v).trans h
  have hread := (B.toVec_inverse hagain hdocument).1
  rw [(B.toVec_inverse h hdocument).1, Except.ok.injEq] at hread
  exact hread.symm

/-- Canonical bytes determine the value, up to the rendering of numbers. -/
theorem canonicalize_determines {v w : Json} {bytes : Bytes} (hv : canonicalize B v = .ok bytes)
    (hw : canonicalize B w = .ok bytes) (hdepth : v.depth ≤ MAX_NESTING) :
    v.collect B.reread = w.collect B.reread :=
  strictJson_inverse hw (strictJson_canonicalize hv hdepth)

theorem canonicalize_collect (v : Json) :
    canonicalize B (v.collect B.reread) = canonicalize B v := by
  rw [canonicalize, B.toVec_collect, ← canonicalize]

@[simp] theorem settled_null : Settled B .null := by
  rw [Settled, Json.collect]

@[simp] theorem settled_bool (b : Bool) : Settled B (.bool b) := by
  rw [Settled, Json.collect]

@[simp] theorem settled_str (text : String) : Settled B (.str text) := by
  rw [Settled, Json.collect]

theorem settled_posInt {n : ℕ} (h : n ≤ MAX_SAFE_INTEGER) : Settled B (.num (.posInt n)) := by
  rw [Settled, Json.collect, B.reread_posInt h]

theorem settled_arr {items : List Json} (h : ∀ v ∈ items, Settled B v) :
    Settled B (.arr items) := by
  rw [Settled, Json.collect_arr, List.map_congr_left h, List.map_id']

theorem settled_obj {members : Members} (hinc : Increasing members)
    (h : ∀ m ∈ members, Settled B m.2) : Settled B (.obj members) := by
  have hmap : (members.map fun m ↦ (m.1, m.2.collect B.reread)) = members.map id :=
    List.map_congr_left fun m hm ↦ Prod.ext rfl (h m hm)
  rw [Settled, Json.collect_obj _ hinc, hmap, List.map_id]

/-! ### Lengths -/

theorem canonicalize_length {v : Json} {bytes : Bytes} (h : canonicalize B v = .ok bytes) :
    bytes.length = canonicalLength B v := by
  rw [canonicalize_eq_ok] at h
  rw [canonicalLength, h, Option.elim_some]

/-- A bound on the canonical bytes of a value is a bound on its canonical length. -/
theorem canonicalize_bounded {v : Json} {bound : ℕ} {error : ContractError} {u : Unit} :
    (canonicalize B v >>= fun bytes ↦ ensure (bytes.length ≤ bound) error) = .ok u ↔
      canonicalLength B v ≤ bound := by
  obtain ⟨bytes, hbytes⟩ := canonicalize_total (B := B) v
  rw [hbytes, ok_bind, ensure_eq_ok, canonicalize_length hbytes]

theorem canonicalLength_plain {text : String} (h : text.toList.all plainChar) :
    canonicalLength B (.str text) = text.utf8ByteSize + 2 := B.toVec_plain_length h

theorem canonicalLength_arr (items : List Json) : canonicalLength B (.arr items) =
    (items.map (canonicalLength B)).sum + (items.length - 1) + 2 := B.toVec_arr_length items

theorem canonicalLength_arr_le (bound : ℕ) {items : List Json}
    (h : ∀ v ∈ items, canonicalLength B v ≤ bound) :
    canonicalLength B (.arr items) ≤ items.length * (bound + 1) + 2 := by
  have hsum : (items.map (canonicalLength B)).sum ≤ items.length * bound := by
    induction items with
    | nil => simp
    | cons v rest ih =>
      obtain ⟨hv, hrest⟩ := List.forall_mem_cons.mp h
      rw [List.map_cons, List.sum_cons, List.length_cons, Nat.succ_mul, Nat.add_comm]
      exact Nat.add_le_add (ih hrest) hv
  rw [canonicalLength_arr, Nat.mul_succ]
  omega

theorem canonicalLength_obj {members : Members} (h : Increasing members) :
    canonicalLength B (.obj members) =
      (members.map fun m ↦ canonicalLength B (.str m.1) + 1 + canonicalLength B m.2).sum +
        (members.length - 1) + 2 := B.toVec_obj_length h

theorem canonicalLength_obj_le (bound : ℕ) {members : Members} (h : Increasing members)
    (hbound : ∀ m ∈ members, canonicalLength B (.str m.1) + canonicalLength B m.2 ≤ bound) :
    canonicalLength B (.obj members) ≤ members.length * (bound + 2) + 2 := by
  have hsum : (members.map fun m ↦ canonicalLength B (.str m.1) + 1 + canonicalLength B m.2).sum ≤
      members.length * (bound + 1) := by
    clear h
    induction members with
    | nil => simp
    | cons m rest ih =>
      obtain ⟨hm, hrest⟩ := List.forall_mem_cons.mp hbound
      rw [List.map_cons, List.sum_cons, List.length_cons, Nat.succ_mul, Nat.add_comm]
      exact Nat.add_le_add (ih hrest) (by omega)
  rw [canonicalLength_obj h, Nat.mul_succ]
  omega

/-! ### Objects with known members -/

theorem intoObject_eq_ok {v : Json} {members : Members} :
    intoObject v = .ok members ↔ v = .obj members := by
  cases v <;> simp [intoObject]

theorem intoString_eq_ok {v : Json} {text : String} : intoString v = .ok text ↔ v = .str text := by
  cases v <;> simp [intoString]

theorem takeRequired_eq_ok {members : Members} {name : String} {v : Json} :
    takeRequired members name = .ok v ↔ member members name = some v := by
  rw [takeRequired, required_eq_ok]

theorem mem_of_member {members : Members} {name : String} {v : Json}
    (h : member members name = some v) : (name, v) ∈ members := by
  obtain ⟨m, hfind, rfl⟩ := Option.map_eq_some_iff.mp h
  have hname : m.1 = name := by simpa using List.find?_some hfind
  exact hname ▸ List.mem_of_find?_eq_some hfind

/-- The member of a name that is there once. -/
theorem member_of_nodup {members : Members} (h : (members.map Prod.fst).Nodup) {name : String}
    {v : Json} (hmem : (name, v) ∈ members) : member members name = some v := by
  induction members with
  | nil => exact absurd hmem List.not_mem_nil
  | cons m rest ih =>
    obtain ⟨hfresh, hrest⟩ := List.nodup_cons.mp h
    rcases List.mem_cons.mp hmem with rfl | hmem
    · simp [member]
    · have hne : m.1 ≠ name := by
        rintro rfl
        exact hfresh (List.mem_map.mpr ⟨_, hmem, rfl⟩)
      have hfound := ih hrest hmem
      simpa [member, List.find?_cons, hne] using hfound

/-- The member of a name in an increasing map is the only one of that name. -/
theorem member_of_mem {members : Members} (h : Increasing members) {name : String} {v : Json}
    (hmem : (name, v) ∈ members) : member members name = some v :=
  member_of_nodup (List.pairwise_map.mpr (h.imp fun hlt ↦ hlt.ne)) hmem

/-- An increasing map is determined by its members. -/
theorem Increasing.eq_of_mem_iff {first second : Members} (hfirst : Increasing first)
    (hsecond : Increasing second) (h : ∀ m, m ∈ first ↔ m ∈ second) : first = second := by
  have hnodup {members : Members} (hinc : Increasing members) : members.Nodup :=
    hinc.imp fun hlt heq ↦ hlt.ne (congrArg Prod.fst heq)
  have hperm := (List.perm_ext_iff_of_nodup (hnodup hfirst) (hnodup hsecond)).mpr h
  exact hperm.eq_of_pairwise (fun a b _ _ hab hba ↦ absurd hab (lt_asymm hba)) hfirst hsecond

/-- A parsed object with no name outside an expected one's, and with every expected member, is the
expected object. -/
theorem Increasing.eq_of_member {object expected : Members} (hobject : Increasing object)
    (hexpected : Increasing expected)
    (hknown : ∀ m ∈ object, m.1 ∈ expected.map Prod.fst)
    (htaken : ∀ m ∈ expected, member object m.1 = some m.2) : object = expected := by
  refine hobject.eq_of_mem_iff hexpected fun m ↦ ⟨fun hm ↦ ?_, fun hm ↦ mem_of_member (htaken m hm)⟩
  obtain ⟨other, hother, hname⟩ := List.mem_map.mp (hknown m hm)
  have hvalue := (htaken other hother).symm.trans (hname ▸ member_of_mem hobject hm)
  have heq : m = other := Prod.ext hname.symm (Option.some.inj hvalue).symm
  exact heq ▸ hother

/-- A value parsed strictly has sorted maps throughout. -/
theorem insertMember_mem_sorted {members : Members} (h : SortedMembers members) {m : String × Json}
    (hm : m ∈ members) : m.2.Sorted := by
  induction members with
  | nil => simp at hm
  | cons other rest ih =>
    rcases List.mem_cons.mp hm with rfl | hm
    · exact h.1
    · exact ih h.2 hm

mutual

theorem Json.strict_sorted : ∀ (v w : Json), v.strict = .ok w → w.Sorted
  | .null, w, h => by
    rw [Json.strict, Except.ok.injEq] at h
    exact h ▸ trivial
  | .bool _, w, h => by
    rw [Json.strict, Except.ok.injEq] at h
    exact h ▸ trivial
  | .num _, w, h => by
    rw [Json.strict, Except.ok.injEq] at h
    exact h ▸ trivial
  | .str _, w, h => by
    rw [Json.strict, Except.ok.injEq] at h
    exact h ▸ trivial
  | .arr items, w, h => by
    rw [Json.strict] at h
    obtain ⟨values, hvalues, hw⟩ := bind_eq_ok.mp h
    rw [Except.ok.injEq] at hw
    exact hw ▸ strictItems_sorted items values hvalues
  | .obj members, w, h => by
    rw [Json.strict] at h
    obtain ⟨values, hvalues, hw⟩ := bind_eq_ok.mp h
    rw [Except.ok.injEq] at hw
    exact hw ▸ strictMembers_sorted members [] [] values List.Pairwise.nil trivial hvalues

theorem strictItems_sorted :
    ∀ (items values : List Json), strictItems items = .ok values → SortedItems values
  | [], values, h => by
    rw [strictItems, Except.ok.injEq] at h
    exact h ▸ trivial
  | v :: rest, values, h => by
    rw [strictItems] at h
    obtain ⟨w, hw, h⟩ := bind_eq_ok.mp h
    obtain ⟨ws, hws, h⟩ := bind_eq_ok.mp h
    rw [Except.ok.injEq] at h
    exact h ▸ ⟨Json.strict_sorted v w hw, strictItems_sorted rest ws hws⟩

theorem strictMembers_sorted :
    ∀ (members : Members) (keys : List String) (values out : Members), Increasing values →
      SortedMembers values → strictMembers keys values members = .ok out →
        Increasing out ∧ SortedMembers out
  | [], keys, values, out, hinc, hsorted, h => by
    rw [strictMembers, Except.ok.injEq] at h
    exact h ▸ ⟨hinc, hsorted⟩
  | (name, v) :: rest, keys, values, out, hinc, hsorted, h => by
    rw [strictMembers] at h
    obtain ⟨-, h⟩ := unit_bind_eq_ok.mp h
    obtain ⟨w, hw, h⟩ := bind_eq_ok.mp h
    exact strictMembers_sorted rest _ _ out (increasing_insertMember hinc)
      (sortedMembers_insertMember (Json.strict_sorted v w hw) hsorted) h

end

theorem strictJson_sorted {input : Bytes} {v : Json} (h : strictJson B input = .ok v) :
    v.Sorted := by
  obtain ⟨-, h⟩ := unit_bind_eq_ok.mp h
  obtain ⟨document, -, h⟩ := bind_eq_ok.mp h
  exact Json.strict_sorted document v h

theorem Json.Sorted.increasing {members : Members} (h : (Json.obj members).Sorted) :
    Increasing members := h.1

theorem Json.Sorted.member {members : Members} (h : (Json.obj members).Sorted) {name : String}
    {v : Json} (hv : Contract.member members name = some v) : v.Sorted :=
  insertMember_mem_sorted h.2 (mem_of_member hv)

end ContextMesh.Contract
