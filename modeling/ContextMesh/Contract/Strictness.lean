import ContextMesh.Contract.Decode
import ContextMesh.Reference.World
import Mathlib.Algebra.Order.Field.Basic
import Mathlib.Data.Rat.Lemmas
import Mathlib.Data.Rat.Cast.Order

/-!
What the strict reading keeps and what the payload check admits. A document is read exactly when no
object in it repeats a name, and what is read holds every element and every member. The payload
check looks at every value inside a value once, at the depth where it is.
-/

set_option autoImplicit false
set_option relaxedAutoImplicit false

namespace ContextMesh.Contract

open Checked

variable {B : Boundary}

/-! ### The strict reading -/

mutual

/-- The value has what the document has: the same scalars, every element at its place, and under
every name the member of that name. -/
def Carried : Json → Json → Prop
  | .arr items, w => ∃ values, w = .arr values ∧ CarriedItems items values
  | .obj members, w => ∃ values, w = .obj values ∧ Increasing values ∧
      (∀ name, name ∈ values.map Prod.fst ↔ name ∈ members.map Prod.fst) ∧
      CarriedMembers members values
  | v, w => w = v

def CarriedItems : List Json → List Json → Prop
  | [], values => values = []
  | v :: rest, values => ∃ w ws, values = w :: ws ∧ Carried v w ∧ CarriedItems rest ws

def CarriedMembers : Members → Members → Prop
  | [], _ => True
  | (name, v) :: rest, values =>
    (∃ w, member values name = some w ∧ Carried v w) ∧ CarriedMembers rest values

end

mutual

/-- The strict reading has no other fault than a repeated name. -/
theorem Json.strict_fault : ∀ (v : Json) {error : ContractError}, v.strict = .error error →
    error = .duplicateKey
  | .null, _, h | .bool _, _, h | .num _, _, h | .str _, _, h => by
    rw [Json.strict] at h
    exact nomatch h
  | .arr items, _, h => by
    rw [Json.strict] at h
    rcases bind_eq_error h with h | ⟨values, -, h⟩
    · exact strictItems_fault items h
    · exact nomatch h
  | .obj members, _, h => by
    rw [Json.strict] at h
    rcases bind_eq_error h with h | ⟨values, -, h⟩
    · exact strictMembers_fault members h
    · exact nomatch h

theorem strictItems_fault : ∀ (items : List Json) {error : ContractError},
    strictItems items = .error error → error = .duplicateKey
  | [], _, h => nomatch h
  | v :: rest, _, h => by
    rw [strictItems] at h
    rcases bind_eq_error h with h | ⟨w, -, h⟩
    · exact Json.strict_fault v h
    · rcases bind_eq_error h with h | ⟨ws, -, h⟩
      · exact strictItems_fault rest h
      · exact nomatch h

theorem strictMembers_fault : ∀ (members : Members) {keys : List String} {values : Members}
    {error : ContractError}, strictMembers keys values members = .error error →
      error = .duplicateKey
  | [], _, _, _, h => nomatch h
  | (name, v) :: rest, _, _, _, h => by
    rw [strictMembers] at h
    rcases bind_eq_error h with h | ⟨-, -, h⟩
    · exact (ensure_eq_error h).symm
    · rcases bind_eq_error h with h | ⟨w, -, h⟩
      · exact Json.strict_fault v h
      · exact strictMembers_fault rest h

end

mutual

/-- A document without repeats is read. -/
theorem Json.strict_of_distinct : ∀ v : Json, v.Distinct → v.strict = .ok (v.collect id)
  | .null, _ | .bool _, _ | .num _, _ | .str _, _ => rfl
  | .arr items, h => by
    rw [Json.strict, strictItems_of_distinct items h, ok_bind, Json.collect]
  | .obj members, h => by
    rw [Json.strict, strictMembers_of_distinct members [] [] h.1 (fun _ _ ↦ List.not_mem_nil) h.2,
      ok_bind, Json.collect]

theorem strictItems_of_distinct : ∀ items : List Json, DistinctItems items →
    strictItems items = .ok (collectItems id items)
  | [], _ => rfl
  | v :: rest, h => by
    rw [strictItems, Json.strict_of_distinct v h.1, ok_bind, strictItems_of_distinct rest h.2,
      ok_bind, collectItems]

theorem strictMembers_of_distinct : ∀ (members : Members) (keys : List String) (values : Members),
    (members.map Prod.fst).Nodup → (∀ m ∈ members, m.1 ∉ keys) → DistinctMembers members →
      strictMembers keys values members = .ok (collectMembers id values members)
  | [], _, _, _, _, _ => rfl
  | (name, v) :: rest, keys, values, hnodup, hkeys, hdistinct => by
    obtain ⟨hfresh, hnodup⟩ := List.nodup_cons.mp hnodup
    obtain ⟨hname, hrest⟩ := List.forall_mem_cons.mp hkeys
    have hnext : ∀ m ∈ rest, m.1 ∉ name :: keys := by
      intro m hm hmem
      rcases List.mem_cons.mp hmem with heq | hmem
      · exact hfresh (List.mem_map.mpr ⟨m, hm, heq⟩)
      · exact hrest m hm hmem
    rw [strictMembers, ensure_true hname, ok_bind, Json.strict_of_distinct v hdistinct.1, ok_bind,
      strictMembers_of_distinct rest _ _ hnodup hnext hdistinct.2, collectMembers]

end

theorem mem_names {members : Members} {name : String} :
    name ∈ members.map Prod.fst ↔ member members name ≠ none := by
  rw [ne_eq, member_eq_none, not_not]

mutual

/-- The plain reading of a document without repeats keeps everything. -/
theorem carried_collect : ∀ v : Json, v.Distinct → Carried v (v.collect id)
  | .null, _ | .bool _, _ | .num _, _ | .str _, _ => rfl
  | .arr items, h => ⟨_, Json.collect.eq_5 id items, carriedItems_collect items h⟩
  | .obj members, h => by
    refine ⟨_, Json.collect.eq_6 id members,
      (collectMembers_sorted id members [] List.Pairwise.nil trivial).1, fun name ↦ ?_, ?_⟩
    · rw [mem_names, mem_names, member_collectMembers h.1]
      simp [member]
    · exact carriedMembers_collect members members h.1 h.2 fun m hm ↦ hm

theorem carriedItems_collect : ∀ items : List Json, DistinctItems items →
    CarriedItems items (collectItems id items)
  | [], _ => rfl
  | v :: rest, h => ⟨_, _, rfl, carried_collect v h.1, carriedItems_collect rest h.2⟩

theorem carriedMembers_collect : ∀ rest members : Members, (members.map Prod.fst).Nodup →
    DistinctMembers rest → (∀ m ∈ rest, m ∈ members) →
      CarriedMembers rest (collectMembers id [] members)
  | [], _, _, _, _ => trivial
  | (name, v) :: rest, members, hnodup, hdistinct, hsub => by
    obtain ⟨hmem, hsub⟩ := List.forall_mem_cons.mp hsub
    refine ⟨⟨v.collect id, ?_, carried_collect v hdistinct.1⟩,
      carriedMembers_collect rest members hnodup hdistinct.2 hsub⟩
    rw [member_collectMembers hnodup, member_of_nodup hnodup hmem]
    rfl

end

theorem strictJson_deserialized {input : Bytes} {document : Json}
    (hmark : ¬ byteOrderMark <+: input) (hdocument : B.deserialize input = .ok document) :
    strictJson B input = document.strict := by
  rw [strictJson, ensure_true hmark, ok_bind, hdocument, mapError_ok, ok_bind]

/-! ### Numbers -/

/-- The number that a double is. -/
def Double.value (x : Double) : ℚ :=
  (if x.negative then -1 else 1) * (x.mantissa * (2 : ℚ) ^ x.exponent)

/-- The number that a JSON number is. -/
def Number.value : Number → ℚ
  | .posInt n => n
  | .negInt n => -(n + 1)
  | .float x => x.value

/-- An integer only with a magnitude that is exactly interoperable. -/
def Number.Safe (n : Number) : Prop :=
  ∀ k : ℤ, n.value = k → |k| ≤ MAX_SAFE_INTEGER

theorem Double.abs_value (x : Double) : |x.value| = x.mantissa * (2 : ℚ) ^ x.exponent := by
  have hsign : |(if x.negative then -1 else 1 : ℚ)| = 1 := by
    cases x.negative <;> simp
  have hpos : 0 ≤ (x.mantissa : ℚ) * (2 : ℚ) ^ x.exponent :=
    mul_nonneg (Nat.cast_nonneg _) (zpow_nonneg zero_le_two _)
  rw [Double.value, abs_mul, hsign, one_mul, abs_of_nonneg hpos]

theorem zpow_of_nonneg {e : ℤ} (h : 0 ≤ e) : (2 : ℚ) ^ e = ((2 ^ e.natAbs : ℕ) : ℚ) := by
  obtain ⟨n, rfl⟩ := Int.eq_ofNat_of_zero_le h
  simp

theorem zpow_of_neg {e : ℤ} (h : ¬ 0 ≤ e) : (2 : ℚ) ^ e = ((2 ^ e.natAbs : ℕ) : ℚ)⁻¹ := by
  obtain ⟨n, hn⟩ := Int.eq_ofNat_of_zero_le (Int.neg_nonneg_of_nonpos (not_le.mp h).le)
  obtain rfl : e = -n := by omega
  simp

theorem two_pow_pos (e : ℤ) : (0 : ℚ) < ((2 ^ e.natAbs : ℕ) : ℚ) :=
  Nat.cast_pos.mpr (Nat.two_pow_pos _)

theorem Double.exceeds_iff {x : Double} {bound : ℕ} :
    x.exceeds bound = true ↔ (bound : ℚ) < |x.value| := by
  rw [x.abs_value, Double.exceeds]
  by_cases h : 0 ≤ x.exponent
  · rw [if_pos h, decide_eq_true_iff, zpow_of_nonneg h]
    exact_mod_cast Iff.rfl
  · rw [if_neg h, decide_eq_true_iff, zpow_of_neg h, ← div_eq_mul_inv,
      lt_div_iff₀ (two_pow_pos x.exponent)]
    exact_mod_cast Iff.rfl

/-- A rational number is an integer when its magnitude is. -/
theorem exists_int_iff {q : ℚ} : (∃ k : ℤ, q = k) ↔ ∃ n : ℕ, |q| = n := by
  constructor
  · rintro ⟨k, rfl⟩
    exact ⟨k.natAbs, by rw [← Int.cast_abs, Int.abs_eq_natAbs, Int.cast_natCast]⟩
  · rintro ⟨n, hn⟩
    rcases (abs_eq (Nat.cast_nonneg n)).mp hn with h | h
    · exact ⟨n, by rw [h, Int.cast_natCast]⟩
    · exact ⟨-n, by rw [h, Int.cast_neg, Int.cast_natCast]⟩

theorem Double.isInteger_iff {x : Double} : x.isInteger = true ↔ ∃ k : ℤ, x.value = k := by
  rw [exists_int_iff, x.abs_value, Double.isInteger]
  by_cases h : 0 ≤ x.exponent
  · rw [zpow_of_nonneg h]
    refine iff_of_true (by simp [h]) ⟨x.mantissa * 2 ^ x.exponent.natAbs, ?_⟩
    exact (Nat.cast_mul _ _).symm
  · have hpos := two_pow_pos x.exponent
    simp only [h, decide_false, Bool.false_or, decide_eq_true_iff]
    rw [zpow_of_neg h, ← div_eq_mul_inv]
    constructor
    · rintro ⟨n, hn⟩
      refine ⟨n, ?_⟩
      rw [div_eq_iff hpos.ne', hn, Nat.mul_comm, Nat.cast_mul]
    · rintro ⟨n, hn⟩
      rw [div_eq_iff hpos.ne', ← Nat.cast_mul, Nat.cast_inj] at hn
      exact ⟨n, hn.trans (Nat.mul_comm _ _)⟩

theorem Number.safe_iff {n : Number} {i : ℤ} (h : n.value = i) :
    n.Safe ↔ |i| ≤ MAX_SAFE_INTEGER := by
  constructor
  · exact fun hsafe ↦ hsafe i h
  · intro hi k hk
    obtain rfl : i = k := Int.cast_inj.mp (h.symm.trans hk)
    exact hi

theorem validateNumber_eq_ok {n : Number} : validateNumber n = .ok () ↔ n.Safe := by
  cases n with
  | posInt n =>
    rw [validateNumber, ensure_eq_ok, Number.safe_iff (n := .posInt n) (Int.cast_natCast n).symm,
      Nat.abs_cast, Nat.cast_le]
  | negInt n =>
    have hvalue : (Number.negInt n).value = ((-(n + 1) : ℤ) : ℚ) := by
      rw [Number.value]
      push_cast
      rfl
    rw [validateNumber, ensure_eq_ok, Number.safe_iff hvalue, abs_neg, ← Nat.cast_succ,
      Nat.abs_cast, Nat.cast_le]
  | float x =>
    rw [validateNumber, ensure_eq_ok, Double.isInteger_iff, Double.exceeds_iff]
    constructor
    · intro h k hk
      by_contra hbig
      refine h ⟨⟨k, hk⟩, ?_⟩
      change x.value = k at hk
      rw [hk, ← Int.cast_abs]
      exact_mod_cast not_le.mp hbig
    · rintro h ⟨⟨k, hk⟩, hbig⟩
      have hsafe : |k| ≤ MAX_SAFE_INTEGER := h k hk
      rw [hk, ← Int.cast_abs] at hbig
      exact absurd hsafe (not_le.mpr (by exact_mod_cast hbig))

/-! ### The payload check -/

/-- The values inside a value, each with the depth where it is; the value itself is where the
count starts. -/
inductive Nested : ℕ → Json → ℕ → Json → Prop
  | whole (depth : ℕ) (v : Json) : Nested depth v depth v
  | item {depth inner : ℕ} {items : List Json} {v part : Json} (hmem : v ∈ items)
      (h : Nested (depth + 1) v inner part) : Nested depth (.arr items) inner part
  | member {depth inner : ℕ} {members : Members} {m : String × Json} {part : Json}
      (hmem : m ∈ members) (h : Nested (depth + 1) m.2 inner part) :
      Nested depth (.obj members) inner part

/-- What the payload check asks of a value at its depth. -/
def Admitted (depth : ℕ) (v : Json) : Prop :=
  depth ≤ MAX_PAYLOAD_DEPTH ∧ ∀ n, v = .num n → n.Safe

/-- A scalar has nothing inside it but itself. -/
theorem forall_nested_scalar {P : ℕ → Json → Prop} {v : Json} {depth : ℕ}
    (harr : ∀ items, v ≠ .arr items) (hobj : ∀ members, v ≠ .obj members) :
    (∀ inner part, Nested depth v inner part → P inner part) ↔ P depth v := by
  constructor
  · exact fun h ↦ h depth v (.whole depth v)
  · rintro h inner part (_ | _ | _)
    · exact h
    · exact absurd rfl (harr _)
    · exact absurd rfl (hobj _)

theorem forall_nested_arr {P : ℕ → Json → Prop} {items : List Json} {depth : ℕ} :
    (∀ inner part, Nested depth (.arr items) inner part → P inner part) ↔
      P depth (.arr items) ∧
        ∀ v ∈ items, ∀ inner part, Nested (depth + 1) v inner part → P inner part := by
  constructor
  · exact fun h ↦ ⟨h depth _ (.whole depth _), fun v hv inner part hpart ↦
      h inner part (.item hv hpart)⟩
  · rintro ⟨hwhole, hitems⟩ inner part (_ | ⟨hmem, hpart⟩)
    · exact hwhole
    · exact hitems _ hmem inner part hpart

theorem forall_nested_obj {P : ℕ → Json → Prop} {members : Members} {depth : ℕ} :
    (∀ inner part, Nested depth (.obj members) inner part → P inner part) ↔
      P depth (.obj members) ∧
        ∀ m ∈ members, ∀ inner part, Nested (depth + 1) m.2 inner part → P inner part := by
  constructor
  · exact fun h ↦ ⟨h depth _ (.whole depth _), fun m hm inner part hpart ↦
      h inner part (.member hm hpart)⟩
  · rintro ⟨hwhole, hmembers⟩ inner part (_ | _ | ⟨hmem, hpart⟩)
    · exact hwhole
    · exact hmembers _ hmem inner part hpart

/-- A value that is no number is admitted where it is not too deep. -/
theorem admitted_of_ne {depth : ℕ} {v : Json} (h : ∀ n, v ≠ .num n) :
    Admitted depth v ↔ depth ≤ MAX_PAYLOAD_DEPTH :=
  and_iff_left fun n hn ↦ absurd hn (h n)

mutual

/-- The payload check admits a value when it admits everything inside it. -/
theorem validateJsonValue_iff : ∀ (v : Json) (depth : ℕ), validateJsonValue v depth = .ok () ↔
    ∀ inner part, Nested depth v inner part → Admitted inner part
  | .null, depth | .bool _, depth | .str _, depth => by
    rw [validateJsonValue, ensure_eq_ok]
    exact Iff.symm (Iff.trans (forall_nested_scalar nofun nofun) (admitted_of_ne nofun))
  | .num n, depth => by
    rw [validateJsonValue, unit_bind_eq_ok, ensure_eq_ok, validateNumber_eq_ok]
    refine Iff.symm (Iff.trans (forall_nested_scalar nofun nofun) ?_)
    refine and_congr_right fun _ ↦ ⟨fun h ↦ h n rfl, ?_⟩
    rintro hsafe _ ⟨⟩
    exact hsafe
  | .arr items, depth => by
    rw [validateJsonValue, unit_bind_eq_ok, ensure_eq_ok, validateItems_iff items,
      forall_nested_arr]
    exact and_congr_left' (Iff.symm (admitted_of_ne nofun))
  | .obj members, depth => by
    rw [validateJsonValue, unit_bind_eq_ok, ensure_eq_ok, validateMembers_iff members,
      forall_nested_obj]
    exact and_congr_left' (Iff.symm (admitted_of_ne nofun))

theorem validateItems_iff : ∀ (items : List Json) (depth : ℕ), validateItems items depth = .ok () ↔
    ∀ v ∈ items, ∀ inner part, Nested depth v inner part → Admitted inner part
  | [], depth => iff_of_true rfl (List.forall_mem_nil _)
  | v :: rest, depth => by
    rw [validateItems, unit_bind_eq_ok, validateJsonValue_iff v, validateItems_iff rest,
      List.forall_mem_cons]

theorem validateMembers_iff : ∀ (members : Members) (depth : ℕ),
    validateMembers members depth = .ok () ↔
      ∀ m ∈ members, ∀ inner part, Nested depth m.2 inner part → Admitted inner part
  | [], depth => iff_of_true rfl (List.forall_mem_nil _)
  | (name, v) :: rest, depth => by
    rw [validateMembers, unit_bind_eq_ok, validateJsonValue_iff v, validateMembers_iff rest,
      List.forall_mem_cons]

end

/-- A document is accepted when no object of it at any depth repeats a key, and is carried member by
member; the bounds on depth and numbers that its value has to meet hold of every part of it. -/
theorem strictJson_exact {input : Bytes} {document : Json} (hmark : ¬ byteOrderMark <+: input)
    (hdocument : B.deserialize input = .ok document) :
    ((∃ value, strictJson B input = .ok value) ↔ document.Distinct) ∧
    (¬ document.Distinct → strictJson B input = .error .duplicateKey) ∧
    (∀ value, strictJson B input = .ok value → Carried document value) ∧
    ∀ v, validateJsonValue v 1 = .ok () ↔
      (∀ depth part, Nested 1 v depth part → depth ≤ MAX_PAYLOAD_DEPTH) ∧
      ∀ depth n, Nested 1 v depth (.num n) → n.Safe := by
  rw [strictJson_deserialized hmark hdocument]
  refine ⟨⟨?_, fun h ↦ ⟨_, document.strict_of_distinct h⟩⟩, fun h ↦ ?_, fun value hvalue ↦ ?_,
    fun v ↦ ?_⟩
  · rintro ⟨value, hvalue⟩
    exact (document.strict_plain value hvalue).1
  · cases hread : document.strict with
    | ok value => exact absurd (document.strict_plain value hread).1 h
    | error error => rw [document.strict_fault hread]
  · obtain ⟨hdistinct, rfl⟩ := document.strict_plain value hvalue
    exact carried_collect document hdistinct
  · rw [validateJsonValue_iff]
    constructor
    · exact fun h ↦ ⟨fun depth part hpart ↦ (h depth part hpart).1,
        fun depth n hn ↦ (h depth _ hn).2 n rfl⟩
    · rintro ⟨hdepth, hnumbers⟩ inner part hpart
      refine ⟨hdepth inner part hpart, ?_⟩
      rintro n rfl
      exact hnumbers inner n hpart

theorem silent_deserialize (v : Json) :
    Reference.silent.deserialize (Reference.toVec v) = .ok (v.collect Reference.spelled) :=
  Reference.deserialize_toVec v

theorem strictJson_exact_nested :
    ∃ value, strictJson Reference.silent (Reference.toVec (.arr [.obj [("a", .null)]])) =
        .ok value ∧ Carried (.arr [.obj [("a", .null)]]) value := by
  have hplain : (Json.arr [.obj [("a", .null)]]).collect Reference.spelled =
      .arr [.obj [("a", .null)]] := by
    simp [Json.collect, collectItems, collectMembers, insertMember]
  have hdocument := silent_deserialize (.arr [.obj [("a", .null)]])
  rw [hplain] at hdocument
  obtain ⟨hread, -, hcarried, -⟩ := strictJson_exact (Reference.toVec_unmarked _) hdocument
  have hdistinct : (Json.arr [.obj [("a", .null)]]).Distinct := by
    simp [Json.Distinct, DistinctItems, DistinctMembers]
  obtain ⟨value, hvalue⟩ := hread.mpr hdistinct
  exact ⟨value, hvalue, hcarried value hvalue⟩

end ContextMesh.Contract
