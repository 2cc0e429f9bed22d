import ContextMesh.Client.Recording
import ContextMesh.Contract.Strictness

/-!
What a command provider may answer. Its output is collected until a line is complete, the first
line is read as a JSON object, and the object is an answer when its members are exactly those of a
response or of a declared failure. What follows the first line is never looked at.
-/

set_option autoImplicit false
set_option relaxedAutoImplicit false

namespace ContextMesh.Store

open Checked Contract

/-- Maximum line bytes including the newline. -/
def JSONL_LINE_LIMIT : ℕ := 2 * 1024 * 1024

/-- The byte that ends a line. -/
def NEWLINE : UInt8 := 10

/-- A frozen failure code with its detail. -/
structure ProviderFault where
  code : String
  detail : String
  deriving DecidableEq

/-- Collects the chunks of the output until it ends or a line is complete. -/
def collectOutput (collected : Bytes) : List Bytes → Except ProviderFault Bytes
  | [] => .ok collected
  | chunk :: rest =>
    if chunk.length = 0 then .ok collected
    else do
      let collected := collected ++ chunk
      ensure (collected.length ≤ JSONL_LINE_LIMIT + 1)
        ⟨"limit_exceeded", "provider output exceeds the JSONL line limit"⟩
      if NEWLINE ∈ collected then .ok collected else collectOutput collected rest

def asStr : Json → Option String
  | .str text => some text
  | _ => none

def asBool : Json → Option Bool
  | .bool value => some value
  | _ => none

/-- The bytes before the first newline. -/
def firstLine (collected : Bytes) : Bytes := collected.takeWhile (· ≠ NEWLINE)

def malformed : ProviderFault := ⟨"provider_malformed", "provider response fields are invalid"⟩

variable (B : Boundary)

/-- Reads the answer to an invocation. -/
def parseProviderLine (collected : Bytes) (expectedInvocation : String) :
    Except ProviderFault ProviderOutcome := do
  let line := firstLine collected
  ensure (line ≠ []) ⟨"provider_malformed", "provider emitted no response line"⟩
  let value ← required (fromSlice B line) ⟨"provider_malformed", "provider response is not JSON"⟩
  let object ← (intoObject value).mapError fun _ ↦
    ⟨"provider_malformed", "provider response is not an object"⟩
  ensure ((member object "protocol_version").bind asU64 = some 1) malformed
  let suppliedId ← required ((member object "invocation_id").bind asStr) malformed
  ensure (suppliedId = expectedInvocation) malformed
  match (member object "ok").bind asBool with
  | some true =>
    ensure (object.length = 4) malformed
    let response ← required (member object "response") malformed
    let wire ← (canonicalize B response).mapError fun _ ↦
      ⟨"provider_malformed", "provider response is not canonicalizable"⟩
    ensure (wire.length ≤ PROVIDER_RESPONSE_LIMIT)
      ⟨"limit_exceeded", "provider response exceeds its bound"⟩
    .ok (.response response)
  | some false =>
    ensure (object.length = 5) malformed
    let detail ← required ((member object "detail").bind asStr) malformed
    let code ← required ((member object "error_code").bind asStr) malformed
    .ok (.failure "provider_declared" (sanitizeDetail (code ++ ": " ++ detail)))
  | none => .error malformed

/-! ### The frozen lines -/

/-- The members of a response. -/
def responseMembers (expectedInvocation : String) (response : Json) : Members :=
  [("invocation_id", .str expectedInvocation), ("ok", .bool true),
    ("protocol_version", .num (.posInt 1)), ("response", response)]

/-- The members of a declared failure. -/
def failureMembers (expectedInvocation code detail : String) : Members :=
  [("detail", .str detail), ("error_code", .str code), ("invocation_id", .str expectedInvocation),
    ("ok", .bool false), ("protocol_version", .num (.posInt 1))]

/-- The line holds an object of exactly these members, in any order. -/
def Holds (line : Bytes) (expected : Members) : Prop :=
  line ≠ [] ∧ ∃ members, B.deserialize line = .ok (.obj members) ∧ members.Perm expected

/-- The line is a response, within its bound. -/
def ResponseLine (line : Bytes) (expectedInvocation : String) (response : Json) : Prop :=
  ∃ document, Holds B line (responseMembers expectedInvocation document) ∧
    document.collect id = response ∧ canonicalLength B response ≤ PROVIDER_RESPONSE_LIMIT

/-- The line is a declared failure. -/
def FailureLine (line : Bytes) (expectedInvocation code detail : String) : Prop :=
  Holds B line (failureMembers expectedInvocation code detail)

/-- The collected bytes are the line alone, with or without the newline that ends it. -/
def Exactly (collected line : Bytes) : Prop :=
  NEWLINE ∉ line ∧ (collected = line ∨ collected = line ++ [NEWLINE])

/-- The line is read as it stands: no object on it begins with the raw token, and the object that it
holds, if it holds one, repeats no name. -/
def Straight (line : Bytes) : Prop :=
  ∀ document, B.deserialize line = .ok document →
    document.Unmarked ∧ ∀ members, document = .obj members → (members.map Prod.fst).Nodup

variable {B}

/-! ### The collected output -/

/-- The collected bytes are the beginning of the output, and no more than a line and one byte. -/
theorem collectOutput_bounded {chunks : List Bytes} {collected out : Bytes}
    (hbound : collected.length ≤ JSONL_LINE_LIMIT + 1)
    (h : collectOutput collected chunks = .ok out) :
    out <+: collected ++ chunks.flatten ∧ out.length ≤ JSONL_LINE_LIMIT + 1 := by
  induction chunks generalizing collected with
  | nil =>
    obtain rfl := Except.ok.inj h
    exact ⟨List.prefix_append _ _, hbound⟩
  | cons chunk rest ih =>
    rw [collectOutput] at h
    split_ifs at h with hend
    · obtain rfl := Except.ok.inj h
      exact ⟨List.prefix_append _ _, hbound⟩
    · obtain ⟨hroom, h⟩ := unit_bind_eq_ok.mp h
      have hnext := ensure_eq_ok.mp hroom
      rw [List.flatten_cons, ← List.append_assoc]
      split_ifs at h with hcomplete
      · obtain rfl := Except.ok.inj h
        exact ⟨List.prefix_append _ _, hnext⟩
      · exact ih hnext h

/-! ### Members of the read object -/

theorem collect_eq_str {v : Json} {text : String} : v.collect id = .str text ↔ v = .str text := by
  cases v <;> simp [Json.collect]

theorem collect_eq_bool {v : Json} {value : Bool} :
    v.collect id = .bool value ↔ v = .bool value := by
  cases v <;> simp [Json.collect]

theorem collect_eq_num {v : Json} {n : Number} : v.collect id = .num n ↔ v = .num n := by
  cases v <;> simp [Json.collect]

theorem asStr_eq_some {v : Json} {text : String} : asStr v = some text ↔ v = .str text := by
  cases v <;> simp [asStr]

theorem asBool_eq_some {v : Json} {value : Bool} : asBool v = some value ↔ v = .bool value := by
  cases v <;> simp [asBool]

theorem asU64_eq_some {v : Json} {n : ℕ} : asU64 v = some n ↔ v = .num (.posInt n) := by
  unfold asU64
  split <;> simp_all

section Object

variable {members : Members} {name : String}

/-- A member of the object that is read is a member of the document. -/
theorem member_read (h : (members.map Prod.fst).Nodup) :
    member (collectMembers id [] members) name = (member members name).map (Json.collect id) := by
  rw [member_collectMembers h]
  exact Option.or_none

/-- A scalar of the object that is read is that of the document. -/
theorem read_scalar {α : Type} {read : Json → Option α} {write : α → Json}
    (hread : ∀ v a, read v = some a ↔ v = write a)
    (hscalar : ∀ v a, v.collect id = write a ↔ v = write a)
    (h : (members.map Prod.fst).Nodup) {a : α} :
    (member (collectMembers id [] members) name).bind read = some a ↔
      member members name = some (write a) := by
  rw [member_read h]
  cases member members name with
  | none => simp
  | some v => simp [hread, hscalar]

/-- The object that is read has as many members as the document without repeats. -/
theorem length_read (h : (members.map Prod.fst).Nodup) :
    (collectMembers id [] members).length = members.length := by
  have hsorted : Increasing (collectMembers id [] members) :=
    (collectMembers_sorted id members [] List.Pairwise.nil trivial).1
  have hperm : ((collectMembers id [] members).map Prod.fst).Perm (members.map Prod.fst) := by
    refine (List.perm_ext_iff_of_nodup hsorted.nodup_names h).mpr fun name ↦ ?_
    rw [mem_names, mem_names, member_read h]
    simp
  simpa using hperm.length_eq

/-- Members without repeats are the expected ones when they are as many and hold each of them. -/
theorem perm_iff_members (h : (members.map Prod.fst).Nodup) {expected : Members}
    (hexpected : (expected.map Prod.fst).Nodup) : members.Perm expected ↔
      members.length = expected.length ∧ ∀ m ∈ expected, member members m.1 = some m.2 := by
  constructor
  · exact fun hperm ↦ ⟨hperm.length_eq, fun m hm ↦ member_of_nodup h (hperm.mem_iff.mpr hm)⟩
  · rintro ⟨hlength, hfound⟩
    have hsub := List.subperm_of_subset (List.Nodup.of_map _ hexpected) fun m hm ↦
      mem_of_member (hfound m hm)
    exact (hsub.perm_of_length_le hlength.le).symm

end Object

/-! ### The parser -/

section Parser

variable {collected : Bytes} {expectedInvocation : String}

theorem fromSlice_eq_obj {line : Bytes} (h : Straight B line) {object : Members} :
    fromSlice B line = some (.obj object) ↔
      ∃ members, B.deserialize line = .ok (.obj members) ∧
        collectMembers id [] members = object := by
  rw [fromSlice_eq]
  cases hdocument : B.deserialize line with
  | error fault => simp
  | ok document =>
    dsimp only
    rw [Json.plain_of_unmarked _ _ (h document hdocument).1]
    cases document <;> simp [Json.collect]

theorem canonicalize_within {response : Json} {first second : ProviderFault} {bound : ℕ}
    {outcome other : ProviderOutcome} :
    ((canonicalize B response).mapError (fun _ ↦ first) >>= fun wire ↦
      ensure (wire.length ≤ bound) second >>= fun _ ↦ .ok outcome) = .ok other ↔
        canonicalLength B response ≤ bound ∧ outcome = other := by
  obtain ⟨wire, hwire⟩ := canonicalize_total (B := B) response
  rw [hwire, mapError_ok, ok_bind, unit_bind_eq_ok, ensure_eq_ok, canonicalize_length hwire,
    Except.ok.injEq]

/-- What the parser asks of a line it accepts. -/
theorem parseProviderLine_eq_ok {outcome : ProviderOutcome} :
    parseProviderLine B collected expectedInvocation = .ok outcome ↔ firstLine collected ≠ [] ∧
      ∃ object, fromSlice B (firstLine collected) = some (.obj object) ∧
        (member object "protocol_version").bind asU64 = some 1 ∧
        (member object "invocation_id").bind asStr = some expectedInvocation ∧
        (((member object "ok").bind asBool = some true ∧ object.length = 4 ∧
            ∃ response, member object "response" = some response ∧
              canonicalLength B response ≤ PROVIDER_RESPONSE_LIMIT ∧
              .response response = outcome) ∨
          ((member object "ok").bind asBool = some false ∧ object.length = 5 ∧
            ∃ detail code, (member object "detail").bind asStr = some detail ∧
              (member object "error_code").bind asStr = some code ∧
              .failure "provider_declared" (sanitizeDetail (code ++ ": " ++ detail)) =
                outcome)) := by
  unfold parseProviderLine
  dsimp only
  constructor
  · intro h
    obtain ⟨hline, h⟩ := unit_bind_eq_ok.mp h
    obtain ⟨value, hvalue, h⟩ := bind_eq_ok.mp h
    obtain ⟨object, hobject, h⟩ := bind_eq_ok.mp h
    obtain ⟨hversion, h⟩ := unit_bind_eq_ok.mp h
    obtain ⟨suppliedId, hsupplied, h⟩ := bind_eq_ok.mp h
    obtain ⟨hid, hanswer⟩ := unit_bind_eq_ok.mp h
    obtain rfl := ensure_eq_ok.mp hid
    obtain rfl := intoObject_eq_ok.mp (mapError_eq_ok.mp hobject)
    refine ⟨ensure_eq_ok.mp hline, object, required_eq_ok.mp hvalue, ensure_eq_ok.mp hversion,
      required_eq_ok.mp hsupplied, ?_⟩
    cases hok : (member object "ok").bind asBool with
    | none =>
      rw [hok] at hanswer
      exact nomatch hanswer
    | some value =>
      rw [hok] at hanswer
      cases value with
      | true =>
        obtain ⟨hlength, h⟩ := unit_bind_eq_ok.mp hanswer
        obtain ⟨response, hresponse, h⟩ := bind_eq_ok.mp h
        exact Or.inl ⟨rfl, ensure_eq_ok.mp hlength, response, required_eq_ok.mp hresponse,
          canonicalize_within.mp h⟩
      | false =>
        obtain ⟨hlength, h⟩ := unit_bind_eq_ok.mp hanswer
        obtain ⟨detail, hdetail, h⟩ := bind_eq_ok.mp h
        obtain ⟨code, hcode, h⟩ := bind_eq_ok.mp h
        exact Or.inr ⟨rfl, ensure_eq_ok.mp hlength, detail, code, required_eq_ok.mp hdetail,
          required_eq_ok.mp hcode, Except.ok.inj h⟩
  · rintro ⟨hline, object, hvalue, hversion, hid, h⟩
    rw [ensure_true hline, ok_bind, hvalue, required_some, ok_bind, intoObject, mapError_ok,
      ok_bind, ensure_true hversion, ok_bind, hid, required_some, ok_bind, ensure_true rfl, ok_bind]
    rcases h with ⟨hok, hlength, response, hresponse, houtcome⟩ |
      ⟨hok, hlength, detail, code, hdetail, hcode, houtcome⟩
    · rw [hok]
      dsimp only
      rw [ensure_true hlength, ok_bind, hresponse, required_some, ok_bind]
      exact canonicalize_within.mpr houtcome
    · rw [hok]
      dsimp only
      rw [ensure_true hlength, ok_bind, hdetail, required_some, ok_bind, hcode, required_some,
        ok_bind, houtcome]

/-- The parser has no other faults. -/
theorem parseProviderLine_fault {fault : ProviderFault}
    (h : parseProviderLine B collected expectedInvocation = .error fault) :
    fault.code = "provider_malformed" ∨ fault.code = "limit_exceeded" := by
  by_contra hother
  obtain ⟨hmalformed, hlimit⟩ := not_or.mp hother
  have hshape {detail : String} : (⟨"provider_malformed", detail⟩ : ProviderFault) ≠ fault := by
    rintro rfl
    exact hmalformed rfl
  have hbound {detail : String} : (⟨"limit_exceeded", detail⟩ : ProviderFault) ≠ fault := by
    rintro rfl
    exact hlimit rfl
  refine absurd h ?_
  unfold parseProviderLine
  refine bind_ne_error (ensure_ne_error hshape) fun _ _ ↦ ?_
  refine bind_ne_error (required_ne_error hshape) fun value _ ↦ ?_
  refine bind_ne_error (mapError_ne_error fun _ ↦ hshape) fun object _ ↦ ?_
  refine bind_ne_error (ensure_ne_error hshape) fun _ _ ↦ ?_
  refine bind_ne_error (required_ne_error hshape) fun suppliedId _ ↦ ?_
  refine bind_ne_error (ensure_ne_error hshape) fun _ _ ↦ ?_
  split
  · refine bind_ne_error (ensure_ne_error hshape) fun _ _ ↦ ?_
    refine bind_ne_error (required_ne_error hshape) fun response _ ↦ ?_
    refine bind_ne_error (mapError_ne_error fun _ ↦ hshape) fun wire _ ↦ ?_
    exact bind_ne_error (ensure_ne_error hbound) fun _ _ ↦ ok_ne_error
  · refine bind_ne_error (ensure_ne_error hshape) fun _ _ ↦ ?_
    refine bind_ne_error (required_ne_error hshape) fun detail _ ↦ ?_
    exact bind_ne_error (required_ne_error hshape) fun code _ ↦ ok_ne_error
  · exact error_ne_error hshape

theorem perm_responseMembers {members : Members} (h : (members.map Prod.fst).Nodup)
    {document : Json} : members.Perm (responseMembers expectedInvocation document) ↔
      members.length = 4 ∧ member members "invocation_id" = some (.str expectedInvocation) ∧
        member members "ok" = some (.bool true) ∧
        member members "protocol_version" = some (.num (.posInt 1)) ∧
        member members "response" = some document := by
  have hnames : ((responseMembers expectedInvocation document).map Prod.fst).Nodup := by
    change ["invocation_id", "ok", "protocol_version", "response"].Nodup
    decide
  rw [perm_iff_members h hnames]
  simp [responseMembers]

theorem perm_failureMembers {members : Members} (h : (members.map Prod.fst).Nodup)
    {code detail : String} : members.Perm (failureMembers expectedInvocation code detail) ↔
      members.length = 5 ∧ member members "detail" = some (.str detail) ∧
        member members "error_code" = some (.str code) ∧
        member members "invocation_id" = some (.str expectedInvocation) ∧
        member members "ok" = some (.bool false) ∧
        member members "protocol_version" = some (.num (.posInt 1)) := by
  have hnames : ((failureMembers expectedInvocation code detail).map Prod.fst).Nodup := by
    change ["detail", "error_code", "invocation_id", "ok", "protocol_version"].Nodup
    decide
  rw [perm_iff_members h hnames]
  simp [failureMembers]

/-- What the parser accepts, over the members of the object on the line. -/
theorem parseProviderLine_members {members : Members} (hline : firstLine collected ≠ [])
    (hstraight : Straight B (firstLine collected))
    (hdocument : B.deserialize (firstLine collected) = .ok (.obj members))
    {outcome : ProviderOutcome} :
    parseProviderLine B collected expectedInvocation = .ok outcome ↔
      (∃ document, members.Perm (responseMembers expectedInvocation document) ∧
        canonicalLength B (document.collect id) ≤ PROVIDER_RESPONSE_LIMIT ∧
        .response (document.collect id) = outcome) ∨
      ∃ code detail, members.Perm (failureMembers expectedInvocation code detail) ∧
        .failure "provider_declared" (sanitizeDetail (code ++ ": " ++ detail)) = outcome := by
  have hnodup : (members.map Prod.fst).Nodup := (hstraight _ hdocument).2 members rfl
  have hread : ∀ object, fromSlice B (firstLine collected) = some (.obj object) ↔
      collectMembers id [] members = object := by
    intro object
    rw [fromSlice_eq_obj hstraight, hdocument]
    simp
  have hversion := @read_scalar members "protocol_version" _ asU64 (fun n ↦ .num (.posInt n))
    (fun _ _ ↦ asU64_eq_some) (fun _ _ ↦ collect_eq_num) hnodup
  have htext {name text : String} := @read_scalar members name _ asStr .str
    (fun _ _ ↦ asStr_eq_some) (fun _ _ ↦ collect_eq_str) hnodup text
  have hok := @read_scalar members "ok" _ asBool .bool
    (fun _ _ ↦ asBool_eq_some) (fun _ _ ↦ collect_eq_bool) hnodup
  have hresponse {response : Json} :
      member (collectMembers id [] members) "response" = some response ↔
        ∃ document, member members "response" = some document ∧ document.collect id = response := by
    rw [member_read hnodup, Option.map_eq_some_iff]
  rw [parseProviderLine_eq_ok]
  simp only [hread, exists_eq_left', hversion, htext, hok, length_read hnodup, hresponse,
    perm_responseMembers hnodup, perm_failureMembers hnodup]
  constructor
  · rintro ⟨-, hversion, hid, ⟨hok, hlength, _, ⟨document, hdocument, rfl⟩, hrest⟩ |
      ⟨hok, hlength, detail, code, hdetail, hcode, houtcome⟩⟩
    · exact Or.inl ⟨document, ⟨hlength, hid, hok, hversion, hdocument⟩, hrest⟩
    · exact Or.inr ⟨code, detail, ⟨hlength, hdetail, hcode, hid, hok, hversion⟩, houtcome⟩
  · rintro (⟨document, ⟨hlength, hid, hok, hversion, hdocument⟩, hrest⟩ |
      ⟨code, detail, ⟨hlength, hdetail, hcode, hid, hok, hversion⟩, houtcome⟩)
    · exact ⟨hline, hversion, hid, Or.inl ⟨hok, hlength, _, ⟨document, hdocument, rfl⟩, hrest⟩⟩
    · exact ⟨hline, hversion, hid, Or.inr ⟨hok, hlength, detail, code, hdetail, hcode, houtcome⟩⟩

/-- What the parser accepts: the frozen lines, when the first line is read as it stands. -/
theorem parseProviderLine_iff (hstraight : Straight B (firstLine collected))
    {outcome : ProviderOutcome} :
    parseProviderLine B collected expectedInvocation = .ok outcome ↔
      (∃ response, ResponseLine B (firstLine collected) expectedInvocation response ∧
        .response response = outcome) ∨
      ∃ code detail, FailureLine B (firstLine collected) expectedInvocation code detail ∧
        .failure "provider_declared" (sanitizeDetail (code ++ ": " ++ detail)) = outcome := by
  by_cases hobject : firstLine collected ≠ [] ∧
      ∃ members, B.deserialize (firstLine collected) = .ok (.obj members)
  · obtain ⟨hline, members, hdocument⟩ := hobject
    have hholds {expected : Members} :
        Holds B (firstLine collected) expected ↔ members.Perm expected := by
      constructor
      · rintro ⟨-, other, hother, hperm⟩
        rw [hdocument, Except.ok.injEq, Json.obj.injEq] at hother
        exact hother ▸ hperm
      · exact fun hperm ↦ ⟨hline, members, hdocument, hperm⟩
    rw [parseProviderLine_members hline hstraight hdocument]
    unfold ResponseLine FailureLine
    simp only [hholds]
    constructor
    · rintro (⟨document, hperm, hsize, rfl⟩ | hfailure)
      · exact Or.inl ⟨_, ⟨document, hperm, rfl, hsize⟩, rfl⟩
      · exact Or.inr hfailure
    · rintro (⟨_, ⟨document, hperm, rfl, hsize⟩, rfl⟩ | hfailure)
      · exact Or.inl ⟨document, hperm, hsize, rfl⟩
      · exact Or.inr hfailure
  · have hnone {expected : Members} : ¬ Holds B (firstLine collected) expected := by
      rintro ⟨hline, members, hdocument, -⟩
      exact hobject ⟨hline, members, hdocument⟩
    refine iff_of_false ?_ ?_
    · intro h
      obtain ⟨hline, object, hread, -⟩ := parseProviderLine_eq_ok.mp h
      obtain ⟨members, hdocument, -⟩ := (fromSlice_eq_obj hstraight).mp hread
      exact hobject ⟨hline, members, hdocument⟩
    · rintro (⟨response, ⟨document, hholds, -⟩, -⟩ | ⟨code, detail, hholds, -⟩)
      · exact hnone hholds
      · exact hnone hholds

/-- Of a first line that is read as it stands, the parser accepts the responses and the declared
failures, and refuses every other with one of its two codes. -/
theorem parseProviderLine_exact (hstraight : Straight B (firstLine collected)) :
    (∀ response, parseProviderLine B collected expectedInvocation = .ok (.response response) ↔
      ResponseLine B (firstLine collected) expectedInvocation response) ∧
    (∀ code detail, parseProviderLine B collected expectedInvocation = .ok (.failure code detail) ↔
      code = "provider_declared" ∧ ∃ errorCode errorDetail,
        FailureLine B (firstLine collected) expectedInvocation errorCode errorDetail ∧
        detail = sanitizeDetail (errorCode ++ ": " ++ errorDetail)) ∧
    ((¬ ∃ response, ResponseLine B (firstLine collected) expectedInvocation response) →
      (¬ ∃ errorCode errorDetail,
        FailureLine B (firstLine collected) expectedInvocation errorCode errorDetail) →
      ∃ fault, parseProviderLine B collected expectedInvocation = .error fault ∧
        (fault.code = "provider_malformed" ∨ fault.code = "limit_exceeded")) := by
  refine ⟨fun response ↦ ?_, fun code detail ↦ ?_, fun hresponse hfailure ↦ ?_⟩
  · rw [parseProviderLine_iff hstraight]
    constructor
    · rintro (⟨_, hline, ⟨⟩⟩ | ⟨_, _, -, ⟨⟩⟩)
      exact hline
    · exact fun hline ↦ Or.inl ⟨response, hline, rfl⟩
  · rw [parseProviderLine_iff hstraight]
    constructor
    · rintro (⟨_, -, ⟨⟩⟩ | ⟨errorCode, errorDetail, hline, ⟨⟩⟩)
      exact ⟨rfl, errorCode, errorDetail, hline, rfl⟩
    · rintro ⟨rfl, errorCode, errorDetail, hline, rfl⟩
      exact Or.inr ⟨errorCode, errorDetail, hline, rfl⟩
  · cases hparse : parseProviderLine B collected expectedInvocation with
    | error fault => exact ⟨fault, rfl, parseProviderLine_fault hparse⟩
    | ok outcome =>
      rcases (parseProviderLine_iff hstraight).mp hparse with ⟨response, hline, -⟩ |
        ⟨code, detail, hline, -⟩
      · exact absurd ⟨response, hline⟩ hresponse
      · exact absurd ⟨code, detail, hline⟩ hfailure

end Parser

/-! ### A line and more -/

theorem firstLine_append {line rest : Bytes} (h : NEWLINE ∉ line) :
    firstLine (line ++ NEWLINE :: rest) = line := by
  have hall : ∀ byte ∈ line, (decide (byte ≠ NEWLINE)) = true := by
    intro byte hbyte
    refine decide_eq_true ?_
    rintro rfl
    exact h hbyte
  rw [firstLine, List.takeWhile_append_of_pos hall, List.takeWhile_cons_of_neg (by simp),
    List.append_nil]

/-- The line of a response that is null. -/
def nullLine : Bytes := Reference.toVec (.obj (responseMembers "inv1_a" .null))

theorem nullLine_unbroken : NEWLINE ∉ nullLine := by decide +kernel

theorem nullLine_document : Reference.silent.deserialize nullLine =
    .ok (.obj (responseMembers "inv1_a" .null)) := by
  have hincreasing : Increasing (responseMembers "inv1_a" .null) :=
    increasing_of_names ["invocation_id", "ok", "protocol_version", "response"] rfl (by decide)
  have hplain : (Json.obj (responseMembers "inv1_a" .null)).collect Reference.spelled =
      .obj (responseMembers "inv1_a" .null) := by
    rw [Json.collect_obj _ hincreasing]
    rfl
  have hdocument := silent_deserialize (.obj (responseMembers "inv1_a" .null))
  rwa [hplain] at hdocument

theorem nullLine_straight {rest : Bytes} :
    Straight Reference.silent (firstLine (nullLine ++ NEWLINE :: rest)) := by
  intro document hdocument
  rw [firstLine_append nullLine_unbroken, nullLine_document, Except.ok.injEq] at hdocument
  rw [← hdocument]
  refine ⟨⟨not_beginsRaw (by decide), trivial, trivial, trivial, trivial, trivial⟩, ?_⟩
  rintro members ⟨⟩
  change ["invocation_id", "ok", "protocol_version", "response"].Nodup
  decide

theorem nullLine_response {rest : Bytes} :
    ResponseLine Reference.silent (firstLine (nullLine ++ NEWLINE :: rest)) "inv1_a" .null := by
  rw [firstLine_append nullLine_unbroken]
  refine ⟨.null, ⟨?_, _, nullLine_document, List.Perm.refl _⟩, rfl, ?_⟩
  · rintro hnil
    have hread := nullLine_document
    rw [hnil] at hread
    exact nomatch hread
  · rw [canonicalLength, Reference.silent.toVec_null_length]
    decide

theorem parseProviderLine_exact_null :
    parseProviderLine Reference.silent (nullLine ++ [NEWLINE]) "inv1_a" =
      .ok (.response .null) :=
  ((parseProviderLine_exact nullLine_straight).1 .null).mpr nullLine_response

/-- One read collects the line with what comes after it, and the rest is ignored. -/
theorem parseProviderLine_ignores_rest :
    collectOutput [] [nullLine ++ [NEWLINE, 120]] = .ok (nullLine ++ [NEWLINE, 120]) ∧
    parseProviderLine Reference.silent (nullLine ++ [NEWLINE, 120]) "inv1_a" =
      .ok (.response .null) ∧
    ¬ ∃ line, Exactly (nullLine ++ [NEWLINE, 120]) line ∧
      ResponseLine Reference.silent line "inv1_a" .null := by
  refine ⟨?_, ?_, ?_⟩
  · have hlength : (nullLine ++ [NEWLINE, 120]).length ≤ JSONL_LINE_LIMIT + 1 := by decide +kernel
    have hcomplete : NEWLINE ∈ nullLine ++ [NEWLINE, 120] :=
      List.mem_append_right _ List.mem_cons_self
    rw [collectOutput, if_neg (by simp), List.nil_append]
    dsimp only
    rw [ensure_true hlength, ok_bind, if_pos hcomplete]
  · exact (parseProviderLine_iff nullLine_straight).mpr (Or.inl ⟨_, nullLine_response, rfl⟩)
  · rintro ⟨line, ⟨hline, hcollected⟩, -⟩
    rcases hcollected with hcollected | hcollected
    · exact hline (hcollected ▸ List.mem_append_right _ List.mem_cons_self)
    · have hlast := congrArg List.getLast? hcollected
      rw [List.getLast?_append_of_ne_nil _ (List.cons_ne_nil _ _), List.getLast?_concat] at hlast
      exact absurd hlast (by decide)

end ContextMesh.Store
