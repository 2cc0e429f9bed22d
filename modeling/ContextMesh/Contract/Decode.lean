import ContextMesh.Contract.Boundary

/-!
Typed reading of JSON documents, as a derived reader does it: a structure is read from an object
by the names of its fields, or from an array by their places. Members of other names are passed
over, a repeated field is refused. A document without repeats is read like its plain value.
-/

set_option autoImplicit false
set_option relaxedAutoImplicit false

namespace ContextMesh.Contract

open Checked

variable {α : Type}

/-- The value of a field, which has to be there once. -/
def field (members : Members) (name : String) : Except JsonFault Json := do
  ensure ((members.map Prod.fst).count name ≤ 1) .malformed
  required (member members name) .malformed

/-- The values of the fields of a structure. -/
def fields (names : List String) : Json → Except JsonFault (List Json)
  | .obj members => mapEach (field members) names
  | .arr items => ensure (items.length = names.length) .malformed >>= fun _ ↦ .ok items
  | _ => .error .malformed

def decodeText : Json → Except JsonFault String
  | .str text => .ok text
  | _ => .error .malformed

def decodeUInt64 : Json → Except JsonFault UInt64
  | .num (.posInt n) => ensure (n < UInt64.size) .malformed >>= fun _ ↦ .ok (UInt64.ofNat n)
  | _ => .error .malformed

def decodeList (decode : Json → Except JsonFault α) : Json → Except JsonFault (List α)
  | .arr items => mapEach decode items
  | _ => .error .malformed

/-- Reads a whole text. -/
def decodeSlice (B : Boundary) (decode : Json → Except JsonFault α) (input : Bytes) :
    Except JsonFault α :=
  B.deserialize input >>= decode

/-- A document without repeats is read like its plain value. -/
def Plain (decode : Json → Except JsonFault α) : Prop :=
  ∀ v : Json, v.Distinct → ∀ a, decode (v.collect id) = .ok a ↔ decode v = .ok a

/-! ### Members -/

theorem member_insertMember {values : Members} {name other : String} {v : Json} :
    member (insertMember other v values) name =
      if other = name then some v else member values name := by
  induction values with
  | nil =>
    by_cases heq : other = name
    · simp [insertMember, member, heq]
    · simp [insertMember, member, heq]
  | cons m rest ih =>
    unfold member at ih ⊢
    rw [insertMember]
    by_cases hlt : other < m.1
    · rw [if_pos hlt]
      by_cases heq : other = name
      · simp [heq]
      · simp [List.find?_cons, heq]
    · rw [if_neg hlt]
      by_cases hsame : other = m.1
      · rw [if_pos hsame]
        by_cases heq : other = name
        · simp [heq]
        · have hne : ¬ m.1 = name := fun hname ↦ heq (hsame.trans hname)
          simp [heq, hne]
      · rw [if_neg hsame]
        by_cases hname : m.1 = name
        · have hne : ¬ other = name := fun heq ↦ hsame (heq.trans hname.symm)
          simp [hname, hne]
        · simpa [List.find?_cons, hname] using ih

theorem member_eq_none {members : Members} {name : String} :
    member members name = none ↔ name ∉ members.map Prod.fst := by
  rw [member, Option.map_eq_none_iff, List.find?_eq_none, List.mem_map]
  simp only [decide_eq_true_eq, not_exists, not_and]

/-- The plain reading of members without repeats keeps the member of every name. -/
theorem member_collectMembers {renew : Number → Number} {members values : Members} {name : String}
    (h : (members.map Prod.fst).Nodup) :
    member (collectMembers renew values members) name =
      ((member members name).map (Json.collect renew)).or (member values name) := by
  induction members generalizing values with
  | nil => rfl
  | cons m rest ih =>
    obtain ⟨hfresh, hrest⟩ := List.nodup_cons.mp h
    rw [collectMembers, ih hrest, member_insertMember]
    by_cases hname : m.1 = name
    · have hnone : member rest name = none := member_eq_none.mpr (hname ▸ hfresh)
      have hfound : member (m :: rest) name = some m.2 := by simp [member, hname]
      rw [hnone, hfound, if_pos hname]
      rfl
    · have hpassed : member (m :: rest) name = member rest name := by
        simp [member, hname]
      rw [if_neg hname, hpassed]

theorem field_of_nodup {members : Members} (h : (members.map Prod.fst).Nodup) (name : String) :
    field members name = required (member members name) .malformed := by
  rw [field, ensure_true (List.nodup_iff_count.mp h name), ok_bind]

theorem Increasing.nodup_names {members : Members} (h : Increasing members) :
    (members.map Prod.fst).Nodup :=
  List.pairwise_map.mpr (h.imp fun hlt ↦ hlt.ne)

theorem field_collect {members : Members} (h : (members.map Prod.fst).Nodup) {name : String}
    {w : Json} : field (collectMembers id [] members) name = .ok w ↔
      ∃ v, field members name = .ok v ∧ v.collect id = w := by
  have hsorted : Increasing (collectMembers id [] members) :=
    (collectMembers_sorted id members [] List.Pairwise.nil trivial).1
  rw [field_of_nodup hsorted.nodup_names, field_of_nodup h, required_eq_ok,
    member_collectMembers h]
  have hnil : member [] name = none := rfl
  rw [hnil, Option.or_none, Option.map_eq_some_iff]
  simp only [required_eq_ok]

theorem DistinctMembers.of_member {members : Members} (h : DistinctMembers members) {name : String}
    {v : Json} (hv : member members name = some v) : v.Distinct := by
  induction members with
  | nil => cases hv
  | cons m rest ih =>
    by_cases hname : m.1 = name
    · have hfound : member (m :: rest) name = some m.2 := by simp [member, hname]
      rw [hfound] at hv
      exact Option.some.inj hv ▸ h.1
    · have hpassed : member (m :: rest) name = member rest name := by
        simp [member, hname]
      exact ih h.2 (hpassed ▸ hv)

theorem DistinctItems.of_mem {items : List Json} (h : DistinctItems items) :
    ∀ v ∈ items, v.Distinct := by
  induction items with
  | nil => exact List.forall_mem_nil _
  | cons v rest ih => exact List.forall_mem_cons.mpr ⟨h.1, ih h.2⟩

theorem fields_collect {members : Members} (h : (members.map Prod.fst).Nodup)
    {names : List String} {values : List Json} :
    fields names ((Json.obj members).collect id) = .ok values ↔
      ∃ found, fields names (.obj members) = .ok found ∧ found.map (Json.collect id) = values := by
  rw [Json.collect]
  unfold fields
  dsimp only
  induction names generalizing values with
  | nil =>
    rw [mapEach, mapEach]
    constructor
    · exact fun hvalues ↦ ⟨[], rfl, Except.ok.inj hvalues⟩
    · rintro ⟨found, hfound, rfl⟩
      rw [← Except.ok.inj hfound]
      rfl
  | cons name rest ih =>
    rw [mapEach, mapEach]
    simp only [bind_eq_ok, field_collect h, ih]
    constructor
    · rintro ⟨w, ⟨v, hv, rfl⟩, ws, ⟨vs, hvs, rfl⟩, hvalues⟩
      exact ⟨v :: vs, ⟨v, hv, vs, hvs, rfl⟩, Except.ok.inj hvalues⟩
    · rintro ⟨found, ⟨v, hv, vs, hvs, hfound⟩, rfl⟩
      rw [← Except.ok.inj hfound]
      exact ⟨_, ⟨v, hv, rfl⟩, _, ⟨vs, hvs, rfl⟩, rfl⟩

theorem distinct_of_fields {members : Members} (h : DistinctMembers members) {names : List String}
    {found : List Json} (hok : fields names (.obj members) = .ok found) :
    ∀ v ∈ found, v.Distinct := by
  intro v hv
  obtain ⟨name, -, hfield⟩ := (mem_mapEach hok).mp hv
  obtain ⟨-, hfield⟩ := unit_bind_eq_ok.mp hfield
  exact h.of_member (required_eq_ok.mp hfield)

/-! ### Plain readers -/

theorem plain_decodeText : Plain decodeText := by
  intro v _ a
  cases v <;> rw [Json.collect] <;> rfl

theorem plain_decodeUInt64 : Plain decodeUInt64 := by
  intro v _ a
  cases v <;> rw [Json.collect] <;> rfl

theorem plain_decodeList {decode : Json → Except JsonFault α} (h : Plain decode) :
    Plain (decodeList decode) := by
  intro v hdistinct out
  cases v with
  | arr items =>
    have hitems : ∀ v ∈ items, v.Distinct := DistinctItems.of_mem hdistinct
    rw [Json.collect_arr, decodeList, decodeList, mapEach_eq_ok, mapEach_eq_ok,
      List.forall₂_map_left_iff]
    constructor
    · intro hread
      refine ((List.forall₂_and_left _ _).mpr ⟨hitems, hread⟩).imp fun v a hboth ↦ ?_
      exact (h v hboth.1 a).mp hboth.2
    · intro hread
      refine ((List.forall₂_and_left _ _).mpr ⟨hitems, hread⟩).imp fun v a hboth ↦ ?_
      exact (h v hboth.1 a).mpr hboth.2
  | _ => exact Iff.rfl

/-- A structure is read plainly when its fields are. -/
theorem plain_fields {names : List String} {build : List Json → Except JsonFault α}
    (h : ∀ values : List Json, (∀ v ∈ values, v.Distinct) → ∀ a,
      build (values.map (Json.collect id)) = .ok a ↔ build values = .ok a) :
    Plain fun v ↦ fields names v >>= build := by
  intro v hdistinct a
  cases v with
  | arr items =>
    have hitems : ∀ v ∈ items, v.Distinct := DistinctItems.of_mem hdistinct
    dsimp only
    rw [Json.collect_arr, fields, fields, List.length_map]
    by_cases hlength : items.length = names.length
    · rw [ensure_true hlength]
      exact h items hitems a
    · rw [ensure_false hlength]
      exact Iff.rfl
  | obj members =>
    have hfound {found : List Json} (hok : fields names (.obj members) = .ok found) :
        ∀ v ∈ found, v.Distinct := distinct_of_fields hdistinct.2 hok
    dsimp only
    rw [bind_eq_ok, bind_eq_ok]
    constructor
    · rintro ⟨values, hvalues, hbuilt⟩
      obtain ⟨found, hok, rfl⟩ := (fields_collect hdistinct.1).mp hvalues
      exact ⟨found, hok, (h found (hfound hok) a).mp hbuilt⟩
    · rintro ⟨found, hok, hbuilt⟩
      exact ⟨found.map (Json.collect id), (fields_collect hdistinct.1).mpr ⟨found, hok, rfl⟩,
        (h found (hfound hok) a).mpr hbuilt⟩
  | _ => exact Iff.rfl

/-- Canonical bytes are read like the value they render, with its numbers as they are rendered. -/
theorem decodeSlice_canonicalize {B : Boundary} {decode : Json → Except JsonFault α}
    (hplain : Plain decode) {v : Json} {bytes : Bytes} (h : canonicalize B v = .ok bytes)
    (hdepth : v.depth ≤ MAX_NESTING) (a : α) :
    decodeSlice B decode bytes = .ok a ↔ decode (v.collect B.reread) = .ok a := by
  rw [canonicalize_eq_ok] at h
  obtain ⟨document, hdocument⟩ := B.deserialize_toVec h hdepth
  obtain ⟨hstrict, hcollect, -⟩ := B.toVec_inverse h hdocument
  rw [decodeSlice, hdocument, ok_bind, ← hcollect]
  exact (hplain document (Json.strict_plain document _ hstrict).1 a).symm

end ContextMesh.Contract
