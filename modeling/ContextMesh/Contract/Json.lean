import ContextMesh.Foundation.Checked
import Mathlib.Data.String.Basic
import Mathlib.Tactic.Common

/-!
JSON values as the program holds them, and the strict reading of a parsed document.

One type serves both: a document keeps the members of an object in text order with repeats, a value
keeps them as the sorted map the program builds (`Sorted`). The strict reading refuses a repeated
member name at any depth; the plain reading keeps the last one.
-/

set_option autoImplicit false
set_option relaxedAutoImplicit false

namespace ContextMesh.Contract

open Checked

/-- Stable validation categories of the signed-event contract. -/
inductive ContractError
  | wireTooLarge
  | jsonSyntax
  | duplicateKey
  | unknownField
  | missingField
  | unsupportedVersion
  | invalidEncoding
  | invalidKind
  | parentOrder
  | limitExceeded
  | unsafeNumber
  | canonicalization
  | entropy
  | authorMismatch
  | idMismatch
  | signatureInvalid
  deriving DecidableEq, Repr

/-- A finite double `±mantissa · 2^exponent`. -/
structure Double where
  negative : Bool
  mantissa : ℕ
  exponent : ℤ
  deriving DecidableEq, Repr

/-- The double has no fractional part. -/
def Double.isInteger (x : Double) : Bool :=
  decide (0 ≤ x.exponent) || decide (2 ^ x.exponent.natAbs ∣ x.mantissa)

/-- The magnitude of the double is greater than `bound`. -/
def Double.exceeds (x : Double) (bound : ℕ) : Bool :=
  if 0 ≤ x.exponent then decide (bound < x.mantissa * 2 ^ x.exponent.natAbs)
  else decide (bound * 2 ^ x.exponent.natAbs < x.mantissa)

/-- A JSON number: an unsigned integer, a negative integer `-(n + 1)`, or a finite double. -/
inductive Number
  | posInt (n : ℕ)
  | negInt (n : ℕ)
  | float (x : Double)
  deriving DecidableEq, Repr

/-- A JSON document or value. -/
inductive Json
  | null
  | bool (value : Bool)
  | num (value : Number)
  | str (text : String)
  | arr (items : List Json)
  | obj (members : List (String × Json))

/-- The members of an object. -/
abbrev Members := List (String × Json)

/-- Largest exactly interoperable integer magnitude accepted in JSON numbers. -/
def MAX_SAFE_INTEGER : ℕ := 9007199254740991

/-- Maximum JSON payload depth, counting the payload root as depth one. -/
def MAX_PAYLOAD_DEPTH : ℕ := 64

def validateNumber : Number → Except ContractError Unit
  | .posInt n => ensure (n ≤ MAX_SAFE_INTEGER) .unsafeNumber
  | .negInt n => ensure (n + 1 ≤ MAX_SAFE_INTEGER) .unsafeNumber
  | .float x => ensure (¬ (x.isInteger ∧ x.exceeds MAX_SAFE_INTEGER)) .unsafeNumber

mutual

def validateJsonValue : Json → ℕ → Except ContractError Unit
  | .null, depth | .bool _, depth | .str _, depth =>
    ensure (depth ≤ MAX_PAYLOAD_DEPTH) .limitExceeded
  | .num n, depth =>
    ensure (depth ≤ MAX_PAYLOAD_DEPTH) .limitExceeded >>= fun _ ↦ validateNumber n
  | .arr items, depth =>
    ensure (depth ≤ MAX_PAYLOAD_DEPTH) .limitExceeded >>= fun _ ↦ validateItems items (depth + 1)
  | .obj members, depth =>
    ensure (depth ≤ MAX_PAYLOAD_DEPTH) .limitExceeded >>= fun _ ↦
      validateMembers members (depth + 1)

def validateItems : List Json → ℕ → Except ContractError Unit
  | [], _ => .ok ()
  | v :: rest, depth => validateJsonValue v depth >>= fun _ ↦ validateItems rest depth

def validateMembers : Members → ℕ → Except ContractError Unit
  | [], _ => .ok ()
  | (_, v) :: rest, depth => validateJsonValue v depth >>= fun _ ↦ validateMembers rest depth

end

mutual

/-- How deeply arrays and objects are nested. -/
def Json.depth : Json → ℕ
  | .arr items => depthItems items + 1
  | .obj members => depthMembers members + 1
  | _ => 0

def depthItems : List Json → ℕ
  | [] => 0
  | v :: rest => max v.depth (depthItems rest)

def depthMembers : Members → ℕ
  | [] => 0
  | (_, v) :: rest => max v.depth (depthMembers rest)

end

/-! ### Objects as sorted maps -/

/-- Inserts a member into a sorted map, replacing a member of the same name. -/
def insertMember (name : String) (v : Json) : Members → Members
  | [] => [(name, v)]
  | (other, w) :: rest =>
    if name < other then (name, v) :: (other, w) :: rest
    else if name = other then (name, v) :: rest
    else (other, w) :: insertMember name v rest

/-- The member of the given name. -/
def member (members : Members) (name : String) : Option Json :=
  (members.find? fun m ↦ m.1 = name).map Prod.snd

/-- The names of a map increase strictly. -/
def Increasing (members : Members) : Prop := members.Pairwise fun a b ↦ a.1 < b.1

mutual

/-- The plain reading of a document: every object becomes a sorted map in which the last member of
a name wins, and every number is renewed by `renew`. -/
def Json.collect (renew : Number → Number) : Json → Json
  | .null => .null
  | .bool b => .bool b
  | .num n => .num (renew n)
  | .str s => .str s
  | .arr items => .arr (collectItems renew items)
  | .obj members => .obj (collectMembers renew [] members)

def collectItems (renew : Number → Number) : List Json → List Json
  | [] => []
  | v :: rest => v.collect renew :: collectItems renew rest

def collectMembers (renew : Number → Number) (values : Members) : Members → Members
  | [] => values
  | (name, v) :: rest => collectMembers renew (insertMember name (v.collect renew) values) rest

end

mutual

/-- The strict reading of a document: a repeated member name at any depth is refused. -/
def Json.strict : Json → Except ContractError Json
  | .null => .ok .null
  | .bool b => .ok (.bool b)
  | .num n => .ok (.num n)
  | .str s => .ok (.str s)
  | .arr items => strictItems items >>= fun values ↦ .ok (.arr values)
  | .obj members => strictMembers [] [] members >>= fun values ↦ .ok (.obj values)

def strictItems : List Json → Except ContractError (List Json)
  | [] => .ok []
  | v :: rest => v.strict >>= fun w ↦ strictItems rest >>= fun ws ↦ .ok (w :: ws)

def strictMembers (keys : List String) (values : Members) :
    Members → Except ContractError Members
  | [] => .ok values
  | (name, v) :: rest =>
    ensure (name ∉ keys) .duplicateKey >>= fun _ ↦ v.strict >>= fun w ↦
      strictMembers (name :: keys) (insertMember name w values) rest

end

mutual

/-- Every object of the value is a sorted map. -/
def Json.Sorted : Json → Prop
  | .arr items => SortedItems items
  | .obj members => Increasing members ∧ SortedMembers members
  | _ => True

def SortedItems : List Json → Prop
  | [] => True
  | v :: rest => v.Sorted ∧ SortedItems rest

def SortedMembers : Members → Prop
  | [] => True
  | (_, v) :: rest => v.Sorted ∧ SortedMembers rest

end

mutual

/-- No object of the document repeats a member name. -/
def Json.Distinct : Json → Prop
  | .arr items => DistinctItems items
  | .obj members => (members.map Prod.fst).Nodup ∧ DistinctMembers members
  | _ => True

def DistinctItems : List Json → Prop
  | [] => True
  | v :: rest => v.Distinct ∧ DistinctItems rest

def DistinctMembers : Members → Prop
  | [] => True
  | (_, v) :: rest => v.Distinct ∧ DistinctMembers rest

end

/-! ### Depth -/

mutual

theorem validateJsonValue_depth :
    ∀ (v : Json) (depth : ℕ), validateJsonValue v depth = .ok () → v.depth + depth ≤ 65
  | .null, _, h | .bool _, _, h | .str _, _, h =>
    (Nat.zero_add _).trans_le ((ensure_eq_ok.mp h).trans (Nat.le_succ 64))
  | .num _, _, h =>
    (Nat.zero_add _).trans_le ((ensure_eq_ok.mp (unit_bind_eq_ok.mp h).1).trans (Nat.le_succ 64))
  | .arr items, depth, h => by
    obtain ⟨hdepth, hitems⟩ := unit_bind_eq_ok.mp h
    have := validateItems_depth items (depth + 1) hitems
    have : depth ≤ 64 := ensure_eq_ok.mp hdepth
    rw [Json.depth]
    omega
  | .obj members, depth, h => by
    obtain ⟨hdepth, hmembers⟩ := unit_bind_eq_ok.mp h
    have := validateMembers_depth members (depth + 1) hmembers
    have : depth ≤ 64 := ensure_eq_ok.mp hdepth
    rw [Json.depth]
    omega

theorem validateItems_depth :
    ∀ (items : List Json) (depth : ℕ), validateItems items depth = .ok () →
      depthItems items = 0 ∨ depthItems items + depth ≤ 65
  | [], _, _ => Or.inl rfl
  | v :: rest, depth, h => by
    obtain ⟨hv, hrest⟩ := unit_bind_eq_ok.mp h
    have := validateJsonValue_depth v depth hv
    have := validateItems_depth rest depth hrest
    rw [depthItems]
    omega

theorem validateMembers_depth :
    ∀ (members : Members) (depth : ℕ), validateMembers members depth = .ok () →
      depthMembers members = 0 ∨ depthMembers members + depth ≤ 65
  | [], _, _ => Or.inl rfl
  | (_, v) :: rest, depth, h => by
    obtain ⟨hv, hrest⟩ := unit_bind_eq_ok.mp h
    have := validateJsonValue_depth v depth hv
    have := validateMembers_depth rest depth hrest
    rw [depthMembers]
    omega

end

theorem depth_arr_le {items : List Json} {n : ℕ} (h : ∀ v ∈ items, v.depth ≤ n) :
    (Json.arr items).depth ≤ n + 1 := by
  rw [Json.depth]
  refine Nat.succ_le_succ ?_
  induction items with
  | nil => exact Nat.zero_le n
  | cons v rest ih =>
    obtain ⟨hv, hrest⟩ := List.forall_mem_cons.mp h
    exact max_le hv (ih hrest)

theorem depth_obj_le {members : Members} {n : ℕ} (h : ∀ m ∈ members, m.2.depth ≤ n) :
    (Json.obj members).depth ≤ n + 1 := by
  rw [Json.depth]
  refine Nat.succ_le_succ ?_
  induction members with
  | nil => exact Nat.zero_le n
  | cons m rest ih =>
    obtain ⟨hm, hrest⟩ := List.forall_mem_cons.mp h
    exact max_le hm (ih hrest)

/-! ### Reading back sorted values -/

theorem increasing_of_names {members : Members} (names : List String)
    (hnames : members.map Prod.fst = names) (h : names.Pairwise (· < ·)) : Increasing members := by
  subst hnames
  exact List.pairwise_map.mp h

theorem insertMember_names {name : String} {v : Json} {members : Members} {m : String × Json}
    (h : m ∈ insertMember name v members) : m = (name, v) ∨ m ∈ members := by
  induction members with
  | nil => exact Or.inl (List.mem_singleton.mp h)
  | cons other rest ih =>
    rw [insertMember] at h
    split_ifs at h with hlt heq
    · exact (List.mem_cons.mp h).imp_right id
    · rcases List.mem_cons.mp h with h | h
      · exact Or.inl h
      · exact Or.inr (List.mem_cons_of_mem _ h)
    · rcases List.mem_cons.mp h with h | h
      · exact Or.inr (h ▸ List.mem_cons_self)
      · exact (ih h).imp_right (List.mem_cons_of_mem _)

theorem increasing_insertMember {name : String} {v : Json} {members : Members}
    (h : Increasing members) : Increasing (insertMember name v members) := by
  induction members with
  | nil => exact List.pairwise_singleton _ _
  | cons other rest ih =>
    obtain ⟨hhead, hrest⟩ := List.pairwise_cons.mp h
    rw [insertMember]
    split_ifs with hlt heq
    · refine List.pairwise_cons.mpr ⟨fun m hm ↦ ?_, h⟩
      rcases List.mem_cons.mp hm with rfl | hm
      · exact hlt
      · exact hlt.trans (hhead m hm)
    · exact List.pairwise_cons.mpr ⟨fun m hm ↦ heq ▸ hhead m hm, hrest⟩
    · refine List.pairwise_cons.mpr ⟨fun m hm ↦ ?_, ih hrest⟩
      rcases insertMember_names hm with rfl | hm
      · exact lt_of_le_of_ne (not_lt.mp hlt) (Ne.symm heq)
      · exact hhead m hm

/-- A member whose name is greater than every name of the map goes to its end. -/
theorem insertMember_last {name : String} {v : Json} {members : Members}
    (h : ∀ m ∈ members, m.1 < name) : insertMember name v members = members ++ [(name, v)] := by
  induction members with
  | nil => rfl
  | cons other rest ih =>
    have hother := h other List.mem_cons_self
    rw [insertMember, if_neg (not_lt.mpr hother.le), if_neg hother.ne',
      ih fun m hm ↦ h m (List.mem_cons_of_mem _ hm)]
    rfl

theorem sortedMembers_insertMember {name : String} {v : Json} {members : Members}
    (hv : v.Sorted) (h : SortedMembers members) : SortedMembers (insertMember name v members) := by
  induction members with
  | nil => exact ⟨hv, trivial⟩
  | cons other rest ih =>
    rw [insertMember]
    split_ifs
    · exact ⟨hv, h⟩
    · exact ⟨hv, h.2⟩
    · exact ⟨h.1, ih h.2⟩

/-- The names of a map that an insertion at its end keeps increasing. -/
theorem Increasing.lt_of_append {values rest : Members} {m : String × Json}
    (h : Increasing (values ++ m :: rest)) : ∀ other ∈ values, other.1 < m.1 :=
  fun other hother ↦ (List.pairwise_append.mp h).2.2 other hother m List.mem_cons_self

mutual

/-- The plain reading yields sorted maps throughout. -/
theorem Json.collect_sorted (renew : Number → Number) : ∀ v : Json, (v.collect renew).Sorted
  | .null => trivial
  | .bool _ => trivial
  | .num _ => trivial
  | .str _ => trivial
  | .arr items => collectItems_sorted renew items
  | .obj members => collectMembers_sorted renew members [] List.Pairwise.nil trivial

theorem collectItems_sorted (renew : Number → Number) :
    ∀ items : List Json, SortedItems (collectItems renew items)
  | [] => trivial
  | v :: rest => ⟨Json.collect_sorted renew v, collectItems_sorted renew rest⟩

theorem collectMembers_sorted (renew : Number → Number) :
    ∀ members values : Members, Increasing values → SortedMembers values →
      Increasing (collectMembers renew values members) ∧
        SortedMembers (collectMembers renew values members)
  | [], _, hinc, hsorted => ⟨hinc, hsorted⟩
  | (_, v) :: rest, _, hinc, hsorted =>
    collectMembers_sorted renew rest _ (increasing_insertMember hinc)
      (sortedMembers_insertMember (Json.collect_sorted renew v) hsorted)

end

/-- Reading the members of a sorted map appends them one by one. -/
theorem collectMembers_of_increasing (renew : Number → Number) {values members : Members}
    (h : Increasing (values ++ members)) :
    collectMembers renew values members =
      values ++ members.map fun m ↦ (m.1, m.2.collect renew) := by
  induction members generalizing values with
  | nil => simp [collectMembers]
  | cons m rest ih =>
    rw [collectMembers, insertMember_last h.lt_of_append, ih, List.append_assoc]
    · rfl
    · have hsame : ((values ++ m :: rest).map Prod.fst).Pairwise (· < ·) :=
        List.pairwise_map.mpr h
      have : ((values ++ [(m.1, m.2.collect renew)] ++ rest).map Prod.fst).Pairwise (· < ·) := by
        simpa using hsame
      exact List.pairwise_map.mp this

theorem collectItems_eq_map (renew : Number → Number) (items : List Json) :
    collectItems renew items = items.map fun v ↦ v.collect renew := by
  induction items with
  | nil => rfl
  | cons v rest ih => rw [collectItems, ih, List.map_cons]

theorem Json.collect_arr (renew : Number → Number) (items : List Json) :
    (Json.arr items).collect renew = .arr (items.map fun v ↦ v.collect renew) := by
  rw [Json.collect, collectItems_eq_map]

theorem Json.collect_obj (renew : Number → Number) {members : Members} (h : Increasing members) :
    (Json.obj members).collect renew =
      .obj (members.map fun m ↦ (m.1, m.2.collect renew)) := by
  rw [Json.collect, collectMembers_of_increasing renew (by simpa using h), List.nil_append]

mutual

/-- The plain reading gives a sorted value back unchanged. -/
theorem Json.collect_of_sorted : ∀ v : Json, v.Sorted → v.collect id = v
  | .null, _ => rfl
  | .bool _, _ => rfl
  | .num _, _ => rfl
  | .str _, _ => rfl
  | .arr items, h => by rw [Json.collect_arr, mapItems_of_sorted items h]
  | .obj members, h => by rw [Json.collect_obj id h.1, mapMembers_of_sorted members h.2]

theorem mapItems_of_sorted :
    ∀ items : List Json, SortedItems items → (items.map fun v ↦ v.collect id) = items
  | [], _ => rfl
  | v :: rest, h => by
    rw [List.map_cons, Json.collect_of_sorted v h.1, mapItems_of_sorted rest h.2]

theorem mapMembers_of_sorted :
    ∀ members : Members, SortedMembers members →
      (members.map fun m ↦ (m.1, m.2.collect id)) = members
  | [], _ => rfl
  | (name, v) :: rest, h => by
    rw [List.map_cons, Json.collect_of_sorted v h.1, mapMembers_of_sorted rest h.2]

end

mutual

/-- The strict reading accepts a sorted value and gives it back unchanged. -/
theorem Json.strict_of_sorted : ∀ v : Json, v.Sorted → v.strict = .ok v
  | .null, _ => rfl
  | .bool _, _ => rfl
  | .num _, _ => rfl
  | .str _, _ => rfl
  | .arr items, h => by rw [Json.strict, strictItems_of_sorted items h, ok_bind]
  | .obj members, h => by
    rw [Json.strict, strictMembers_of_sorted members [] [] h.1 h.2 (by simp), ok_bind]
    rfl

theorem strictItems_of_sorted :
    ∀ items : List Json, SortedItems items → strictItems items = .ok items
  | [], _ => rfl
  | v :: rest, h => by
    rw [strictItems, Json.strict_of_sorted v h.1, ok_bind, strictItems_of_sorted rest h.2,
      ok_bind]

theorem strictMembers_of_sorted :
    ∀ (members : Members) (keys : List String) (values : Members),
      Increasing (values ++ members) → SortedMembers members →
      (∀ name ∈ keys, ∃ v ∈ values, v.1 = name) →
        strictMembers keys values members = .ok (values ++ members)
  | [], _, values, _, _, _ => by rw [strictMembers, List.append_nil]
  | (name, v) :: rest, keys, values, hinc, hsorted, hkeys => by
    have hfresh : name ∉ keys := fun hmem ↦ by
      obtain ⟨w, hw, heq⟩ := hkeys name hmem
      exact (hinc.lt_of_append w hw).ne heq
    rw [strictMembers, ensure_true hfresh, ok_bind, Json.strict_of_sorted v hsorted.1, ok_bind,
      insertMember_last hinc.lt_of_append, strictMembers_of_sorted rest (name :: keys)
        (values ++ [(name, v)]) (by simpa using hinc) hsorted.2 ?_, List.append_assoc]
    · rfl
    · intro other hother
      rcases List.mem_cons.mp hother with rfl | hother
      · exact ⟨(other, v), by simp, rfl⟩
      · obtain ⟨w, hw, heq⟩ := hkeys other hother
        exact ⟨w, List.mem_append_left _ hw, heq⟩

end

theorem map_insertMember (f : Json → Json) (name : String) (v : Json) (members : Members) :
    (insertMember name v members).map (fun m ↦ (m.1, f m.2)) =
      insertMember name (f v) (members.map fun m ↦ (m.1, f m.2)) := by
  induction members with
  | nil => rfl
  | cons other rest ih =>
    obtain ⟨key, w⟩ := other
    simp only [insertMember, List.map_cons]
    split_ifs
    · rfl
    · rfl
    · rw [List.map_cons, ih]

mutual

/-- Reading twice renews every number twice. -/
theorem Json.collect_collect (f g : Number → Number) :
    ∀ v : Json, (v.collect f).collect g = v.collect (g ∘ f)
  | .null => rfl
  | .bool _ => rfl
  | .num _ => rfl
  | .str _ => rfl
  | .arr items => by
    rw [Json.collect, Json.collect_arr, Json.collect, collectItems_collect f g items]
  | .obj members => by
    rw [Json.collect, Json.collect_obj g (collectMembers_sorted f members [] .nil trivial).1,
      Json.collect, collectMembers_collect f g members []]
    rfl

theorem collectItems_collect (f g : Number → Number) :
    ∀ items : List Json,
      ((collectItems f items).map fun v ↦ v.collect g) = collectItems (g ∘ f) items
  | [] => rfl
  | v :: rest => by
    rw [collectItems, List.map_cons, Json.collect_collect f g v, collectItems_collect f g rest,
      collectItems]

theorem collectMembers_collect (f g : Number → Number) :
    ∀ members values : Members,
      ((collectMembers f values members).map fun m ↦ (m.1, m.2.collect g)) =
        collectMembers (g ∘ f) (values.map fun m ↦ (m.1, m.2.collect g)) members
  | [], _ => rfl
  | (name, v) :: rest, values => by
    rw [collectMembers, collectMembers_collect f g rest,
      map_insertMember (fun v ↦ v.collect g), Json.collect_collect f g v, collectMembers]

end

/-- A value read once is read again without change, strictly and plainly. -/
theorem Json.strict_collect (renew : Number → Number) (v : Json) :
    (v.collect renew).strict = .ok (v.collect renew) :=
  Json.strict_of_sorted _ (Json.collect_sorted renew v)

theorem Json.collect_id_collect (renew : Number → Number) (v : Json) :
    (v.collect renew).collect id = v.collect renew :=
  Json.collect_of_sorted _ (Json.collect_sorted renew v)

mutual

/-- A document that is read strictly repeats no member name, and its value is that of the plain
reading. -/
theorem Json.strict_plain :
    ∀ v w : Json, v.strict = .ok w → v.Distinct ∧ w = v.collect id
  | .null, w, h => by
    rw [Json.strict, Except.ok.injEq] at h
    exact ⟨trivial, h.symm⟩
  | .bool _, w, h => by
    rw [Json.strict, Except.ok.injEq] at h
    exact ⟨trivial, h.symm⟩
  | .num _, w, h => by
    rw [Json.strict, Except.ok.injEq] at h
    exact ⟨trivial, h.symm⟩
  | .str _, w, h => by
    rw [Json.strict, Except.ok.injEq] at h
    exact ⟨trivial, h.symm⟩
  | .arr items, w, h => by
    rw [Json.strict] at h
    obtain ⟨values, hvalues, hw⟩ := bind_eq_ok.mp h
    obtain ⟨hdistinct, hplain⟩ := strictItems_plain items values hvalues
    rw [Except.ok.injEq] at hw
    exact ⟨hdistinct, by rw [← hw, hplain, Json.collect]⟩
  | .obj members, w, h => by
    rw [Json.strict] at h
    obtain ⟨values, hvalues, hw⟩ := bind_eq_ok.mp h
    obtain ⟨hnodup, -, hdistinct, hplain⟩ := strictMembers_plain members [] [] values hvalues
    rw [Except.ok.injEq] at hw
    exact ⟨⟨hnodup, hdistinct⟩, by rw [← hw, hplain, Json.collect]⟩

theorem strictItems_plain :
    ∀ items values : List Json, strictItems items = .ok values →
      DistinctItems items ∧ values = collectItems id items
  | [], values, h => by
    rw [strictItems, Except.ok.injEq] at h
    exact ⟨trivial, h.symm⟩
  | v :: rest, values, h => by
    rw [strictItems] at h
    obtain ⟨w, hw, h⟩ := bind_eq_ok.mp h
    obtain ⟨ws, hws, h⟩ := bind_eq_ok.mp h
    obtain ⟨hv, hplain⟩ := Json.strict_plain v w hw
    obtain ⟨hrest, hplains⟩ := strictItems_plain rest ws hws
    rw [Except.ok.injEq] at h
    exact ⟨⟨hv, hrest⟩, by rw [← h, hplain, hplains, collectItems]⟩

theorem strictMembers_plain :
    ∀ (members : Members) (keys : List String) (values out : Members),
      strictMembers keys values members = .ok out →
        (members.map Prod.fst).Nodup ∧ (∀ m ∈ members, m.1 ∉ keys) ∧ DistinctMembers members ∧
          out = collectMembers id values members
  | [], keys, values, out, h => by
    rw [strictMembers, Except.ok.injEq] at h
    exact ⟨List.nodup_nil, by simp, trivial, h.symm⟩
  | (name, v) :: rest, keys, values, out, h => by
    rw [strictMembers] at h
    obtain ⟨hfresh, h⟩ := unit_bind_eq_ok.mp h
    rw [ensure_eq_ok] at hfresh
    obtain ⟨w, hw, h⟩ := bind_eq_ok.mp h
    obtain ⟨hv, hplain⟩ := Json.strict_plain v w hw
    obtain ⟨hnodup, hkeys, hdistinct, hout⟩ :=
      strictMembers_plain rest (name :: keys) (insertMember name w values) out h
    refine ⟨List.nodup_cons.mpr ⟨fun hmem ↦ ?_, hnodup⟩, fun m hm ↦ ?_, ⟨hv, hdistinct⟩, ?_⟩
    · obtain ⟨m, hm, hname⟩ := List.mem_map.mp hmem
      exact hkeys m hm (hname ▸ List.mem_cons_self)
    · rcases List.mem_cons.mp hm with rfl | hm
      · exact hfresh
      · exact fun hmem ↦ hkeys m hm (List.mem_cons_of_mem _ hmem)
    · rw [hout, hplain, collectMembers]

end

/-! ### Depth of renewed values -/

theorem depthMembers_le {members : Members} {n : ℕ} :
    depthMembers members ≤ n ↔ ∀ m ∈ members, m.2.depth ≤ n := by
  induction members with
  | nil => simp [depthMembers]
  | cons m rest ih =>
    rw [depthMembers, max_le_iff, ih, List.forall_mem_cons]

mutual

/-- The plain reading nests no deeper than the document. -/
theorem Json.depth_collect_le (renew : Number → Number) : ∀ v : Json,
    (v.collect renew).depth ≤ v.depth
  | .null => le_rfl
  | .bool _ => le_rfl
  | .num _ => le_rfl
  | .str _ => le_rfl
  | .arr items => by
    rw [Json.collect, Json.depth, Json.depth]
    exact Nat.succ_le_succ (depthItems_collect_le renew items)
  | .obj members => by
    rw [Json.collect, Json.depth, Json.depth]
    refine Nat.succ_le_succ (depthMembers_le.mpr ?_)
    exact depthMembers_collect_le renew members [] _ le_rfl (by simp)

theorem depthItems_collect_le (renew : Number → Number) : ∀ items : List Json,
    depthItems (collectItems renew items) ≤ depthItems items
  | [] => le_rfl
  | v :: rest => by
    rw [collectItems, depthItems, depthItems]
    exact max_le_max (Json.depth_collect_le renew v) (depthItems_collect_le renew rest)

theorem depthMembers_collect_le (renew : Number → Number) : ∀ (members values : Members) (n : ℕ),
    depthMembers members ≤ n → (∀ m ∈ values, m.2.depth ≤ n) →
      ∀ m ∈ collectMembers renew values members, m.2.depth ≤ n
  | [], _, _, _, hvalues => hvalues
  | (name, v) :: rest, values, n, h, hvalues => by
    rw [depthMembers, max_le_iff] at h
    rw [collectMembers]
    refine depthMembers_collect_le renew rest _ n h.2 fun m hm ↦ ?_
    rcases insertMember_names hm with rfl | hm
    · exact (Json.depth_collect_le renew v).trans h.1
    · exact hvalues m hm

end

/-! ### Validity of renewed values -/

theorem validateMembers_eq_ok {members : Members} {depth : ℕ} :
    validateMembers members depth = .ok () ↔
      ∀ m ∈ members, validateJsonValue m.2 depth = .ok () := by
  induction members with
  | nil => simp [validateMembers]
  | cons m rest ih =>
    rw [validateMembers, unit_bind_eq_ok, ih, List.forall_mem_cons]

mutual

/-- A valid value stays valid when its numbers are renewed by valid ones. -/
theorem validateJsonValue_collect {renew : Number → Number}
    (hrenew : ∀ n, validateNumber n = .ok () → validateNumber (renew n) = .ok ()) :
    ∀ (v : Json) (depth : ℕ), validateJsonValue v depth = .ok () →
      validateJsonValue (v.collect renew) depth = .ok ()
  | .null, _, h => h
  | .bool _, _, h => h
  | .num n, depth, h => by
    obtain ⟨hdepth, hn⟩ := unit_bind_eq_ok.mp h
    rw [Json.collect, validateJsonValue]
    exact unit_bind_eq_ok.mpr ⟨hdepth, hrenew n hn⟩
  | .str _, _, h => h
  | .arr items, depth, h => by
    obtain ⟨hdepth, hitems⟩ := unit_bind_eq_ok.mp h
    rw [Json.collect, validateJsonValue]
    exact unit_bind_eq_ok.mpr ⟨hdepth, validateItems_collect hrenew items (depth + 1) hitems⟩
  | .obj members, depth, h => by
    obtain ⟨hdepth, hmembers⟩ := unit_bind_eq_ok.mp h
    rw [Json.collect, validateJsonValue]
    refine unit_bind_eq_ok.mpr ⟨hdepth, validateMembers_eq_ok.mpr ?_⟩
    exact validateMembers_collect hrenew members [] (depth + 1) hmembers (by simp)

theorem validateItems_collect {renew : Number → Number}
    (hrenew : ∀ n, validateNumber n = .ok () → validateNumber (renew n) = .ok ()) :
    ∀ (items : List Json) (depth : ℕ), validateItems items depth = .ok () →
      validateItems (collectItems renew items) depth = .ok ()
  | [], _, h => h
  | v :: rest, depth, h => by
    obtain ⟨hv, hrest⟩ := unit_bind_eq_ok.mp h
    rw [collectItems, validateItems]
    exact unit_bind_eq_ok.mpr
      ⟨validateJsonValue_collect hrenew v depth hv, validateItems_collect hrenew rest depth hrest⟩

theorem validateMembers_collect {renew : Number → Number}
    (hrenew : ∀ n, validateNumber n = .ok () → validateNumber (renew n) = .ok ()) :
    ∀ (members values : Members) (depth : ℕ), validateMembers members depth = .ok () →
      (∀ m ∈ values, validateJsonValue m.2 depth = .ok ()) →
        ∀ m ∈ collectMembers renew values members, validateJsonValue m.2 depth = .ok ()
  | [], _, _, _, hvalues => hvalues
  | (name, v) :: rest, values, depth, h, hvalues => by
    obtain ⟨hv, hrest⟩ := unit_bind_eq_ok.mp h
    rw [collectMembers]
    refine validateMembers_collect hrenew rest _ depth hrest fun m hm ↦ ?_
    rcases insertMember_names hm with rfl | hm
    · exact validateJsonValue_collect hrenew v depth hv
    · exact hvalues m hm

end

end ContextMesh.Contract
