import ContextMesh.Foundation.Ascii
import ContextMesh.Sync.HeaderGuard
import ContextMesh.Sync.Server

/-!
HTTP messages as the server and the client see them: a parsed head, and a body that arrives in
chunks and may break off or stall. The checks of the header fields, and the bounded reading of a
body.
-/

set_option autoImplicit false
set_option relaxedAutoImplicit false

namespace ContextMesh.Transport

open Checked Contract Store Sync

/-! ### Header fields -/

/-- Hard parsed HTTP header-count limit. -/
def MAX_HTTP_HEADERS : ℕ := 96

/-- Hard single parsed header-value byte limit. -/
def MAX_HTTP_HEADER_VALUE_BYTES : ℕ := 8 * 1024

/-- Hard request-target byte limit. -/
def MAX_REQUEST_TARGET_BYTES : ℕ := 2 * 1024

def AUTHORIZATION : String := "authorization"

def CONNECTION : String := "connection"

def CONTENT_LENGTH : String := "content-length"

def CONTENT_TYPE : String := "content-type"

/-- The fields of a head in order, under lower-case names. A name may repeat. -/
abbrev HeaderMap := List (String × Bytes)

/-- The bytes of an ASCII text. -/
def ascii (text : String) : Bytes := Ascii.encode text.toList

namespace HeaderMap

def getAll (headers : HeaderMap) (name : String) : List Bytes :=
  (headers.filter fun field ↦ field.1 = name).map Prod.snd

def get (headers : HeaderMap) (name : String) : Option Bytes := (headers.getAll name).head?

/-- Sets the one value of a name. -/
def insert (headers : HeaderMap) (name : String) (value : Bytes) : HeaderMap :=
  headers.filter (fun field ↦ field.1 ≠ name) ++ [(name, value)]

end HeaderMap

/-- A value as text, when all of it is visible ASCII. -/
def toStr (value : Bytes) : Option Bytes :=
  if value.all fun byte ↦ 32 ≤ byte.toNat ∧ byte.toNat < 127 ∨ byte = 9 then some value else none

/-- The value of decimal digits; nothing when a byte is no digit. -/
def readDigits (acc : ℕ) : Bytes → Option ℕ
  | [] => some acc
  | byte :: rest =>
    if Ascii.isDigit byte then readDigits (acc * 10 + (byte.toNat - 48)) rest else none

/-- Parses an unsigned 64-bit number: an optional plus sign and at least one digit. -/
def parseUnsigned (text : Bytes) : Option ℕ := do
  let digits := if text.head? = some 43 then text.tail else text
  if digits = [] then none
  else
    let n ← readDigits 0 digits
    if n < 2 ^ 64 then some n else none

/-- The number that a field value states. -/
def statedNumber (value : Bytes) : Option ℕ := toStr value >>= parseUnsigned

/-- Sums the sizes of the fields; the sum is nothing once a value is too long. -/
def headerTotal (total : ℕ) : HeaderMap → Option ℕ
  | [] => some total
  | (name, value) :: rest =>
    if value.length > MAX_HTTP_HEADER_VALUE_BYTES then none
    else do
      let next ← checkedAdd total name.utf8ByteSize
      let next ← checkedAdd next value.length
      headerTotal next rest

def headersExceed (headers : HeaderMap) : Bool :=
  if headers.length > MAX_HTTP_HEADERS then true
  else
    match headerTotal 0 headers with
    | none => true
    | some total => total > MAX_HTTP_HEADER_BYTES

/-- The head announces a body. -/
def hasBody (headers : HeaderMap) : Bool :=
  ((headers.get CONTENT_LENGTH >>= statedNumber).any fun n ↦ n ≠ 0) ||
    headers.any fun field ↦ field.1 = "transfer-encoding"

/-- There is one content type, and it is JSON. -/
def jsonContentType (headers : HeaderMap) : Bool :=
  headers.getAll CONTENT_TYPE = [ascii "application/json"]

/-- The stated length is over the limit, ambiguous or no number. -/
def contentLengthOver (headers : HeaderMap) (limit : ℕ) : Bool :=
  match headers.getAll CONTENT_LENGTH with
  | [] => false
  | [value] => (statedNumber value).all fun size ↦ size > limit
  | _ => true

/-! ### Bodies -/

/-- How the chunks of a body end. -/
inductive BodyEnd
  | complete
  | broken
  | stalled
  deriving DecidableEq

/-- A body as it arrives. -/
structure Body where
  chunks : List Bytes
  last : BodyEnd

/-- Why a body was not read. -/
inductive ReadFault
  | tooLong
  | broken
  | stalled
  deriving DecidableEq

/-- Collects chunks as long as they fit. -/
def collect (limit : ℕ) (last : BodyEnd) (acc : Bytes) : List Bytes → Except ReadFault Bytes
  | [] =>
    match last with
    | .complete => .ok acc
    | .broken => .error .broken
    | .stalled => .error .stalled
  | chunk :: rest =>
    if acc.length + chunk.length > limit then .error .tooLong
    else collect limit last (acc ++ chunk) rest

/-- Reads a whole body within a limit. -/
def toBytes (body : Body) (limit : ℕ) : Except ReadFault Bytes :=
  collect limit body.last [] body.chunks

/-! ### Messages -/

inductive Method
  | get
  | head
  | post
  | other (name : String)
  deriving DecidableEq

/-- A request with a parsed head. The target is its path and query. -/
structure Request where
  method : Method
  target : Option String
  headers : HeaderMap
  body : Body

structure Response where
  status : ℕ
  headers : HeaderMap
  body : Bytes
  deriving DecidableEq

/-! ### What the checks say -/

theorem getAll_insert_other (headers : HeaderMap) {name other : String} (h : other ≠ name)
    (value : Bytes) : (headers.insert name value).getAll other = headers.getAll other := by
  rw [HeaderMap.getAll, HeaderMap.insert, List.filter_append, List.filter_filter, HeaderMap.getAll]
  have hsame : headers.filter (fun field ↦ decide (field.1 = other) && decide (field.1 ≠ name)) =
      headers.filter fun field ↦ field.1 = other := by
    refine List.filter_congr fun field _ ↦ ?_
    by_cases hfield : field.1 = other
    · simp [hfield, h]
    · simp [hfield]
  rw [hsame]
  simp [h.symm]

/-- The bytes of the fields in all. -/
def headerBytes (headers : HeaderMap) : ℕ :=
  (headers.map fun field ↦ field.1.utf8ByteSize + field.2.length).sum

theorem headerTotal_eq {headers : HeaderMap} {total : ℕ}
    (hshort : ∀ field ∈ headers, field.2.length ≤ MAX_HTTP_HEADER_VALUE_BYTES)
    (hword : total + headerBytes headers < 2 ^ 64) :
    headerTotal total headers = some (total + headerBytes headers) := by
  induction headers generalizing total with
  | nil => rfl
  | cons field rest ih =>
    obtain ⟨name, value⟩ := field
    obtain ⟨hvalue, hrest⟩ := List.forall_mem_cons.mp hshort
    have hsum : headerBytes ((name, value) :: rest) =
        name.utf8ByteSize + value.length + headerBytes rest := by
      rw [headerBytes, List.map_cons, List.sum_cons, headerBytes]
    rw [hsum] at hword ⊢
    have hname : checkedAdd total name.utf8ByteSize = some (total + name.utf8ByteSize) :=
      if_pos (by omega)
    have hboth : checkedAdd (total + name.utf8ByteSize) value.length =
        some (total + name.utf8ByteSize + value.length) := if_pos (by omega)
    rw [headerTotal, if_neg (Nat.not_lt.mpr hvalue), hname]
    show (checkedAdd (total + name.utf8ByteSize) value.length >>= fun next ↦ _) = _
    rw [hboth]
    show headerTotal _ rest = _
    rw [ih hrest (by omega)]
    congr 1
    omega

/-- A sum that is found is the sum of the fields, all of whose values are short. -/
theorem headerTotal_eq_some {headers : HeaderMap} {total sum : ℕ}
    (h : headerTotal total headers = some sum) : sum = total + headerBytes headers ∧
      ∀ field ∈ headers, field.2.length ≤ MAX_HTTP_HEADER_VALUE_BYTES := by
  induction headers generalizing total with
  | nil =>
    rw [headerTotal, Option.some.injEq] at h
    exact ⟨h.symm, List.forall_mem_nil _⟩
  | cons field rest ih =>
    obtain ⟨name, value⟩ := field
    rw [headerTotal] at h
    by_cases hlong : value.length > MAX_HTTP_HEADER_VALUE_BYTES
    · rw [if_pos hlong] at h
      cases h
    · rw [if_neg hlong, Option.bind_eq_bind, Option.bind_eq_some_iff] at h
      obtain ⟨first, hfirst, h⟩ := h
      obtain ⟨second, hsecond, h⟩ := Option.bind_eq_some_iff.mp h
      have hadd {a b c : ℕ} (hsum : checkedAdd a b = some c) : c = a + b := by
        unfold checkedAdd at hsum
        split_ifs at hsum
        exact (Option.some.inj hsum).symm
      obtain ⟨hsum, hshort⟩ := ih h
      refine ⟨?_, List.forall_mem_cons.mpr ⟨Nat.not_lt.mp hlong, hshort⟩⟩
      rw [hsum, hadd hsecond, hadd hfirst, headerBytes, headerBytes, List.map_cons, List.sum_cons]
      dsimp only
      omega

/-- The bound of the fields: their count, each value, and all bytes together. -/
theorem headersExceed_eq_false {headers : HeaderMap} : headersExceed headers = false ↔
    headers.length ≤ MAX_HTTP_HEADERS ∧
      (∀ field ∈ headers, field.2.length ≤ MAX_HTTP_HEADER_VALUE_BYTES) ∧
      headerBytes headers ≤ MAX_HTTP_HEADER_BYTES := by
  have hword : MAX_HTTP_HEADER_BYTES < 2 ^ 64 := by decide
  unfold headersExceed
  by_cases hmany : headers.length > MAX_HTTP_HEADERS
  · rw [if_pos hmany]
    simp only [Bool.true_eq_false, false_iff, not_and]
    exact fun hfew ↦ absurd hfew (Nat.not_le.mpr hmany)
  · rw [if_neg hmany]
    constructor
    · intro h
      cases htotal : headerTotal 0 headers with
      | none =>
        rw [htotal] at h
        cases h
      | some total =>
        rw [htotal] at h
        obtain ⟨hsum, hshort⟩ := headerTotal_eq_some htotal
        refine ⟨Nat.not_lt.mp hmany, hshort, ?_⟩
        have := of_decide_eq_false h
        omega
    · rintro ⟨-, hshort, hbytes⟩
      rw [headerTotal_eq hshort (by omega)]
      exact decide_eq_false (by omega)

/-- A body that fits is read whole, however it is cut into chunks. -/
theorem collect_flatten {limit : ℕ} {chunks : List Bytes} {acc : Bytes}
    (h : (acc ++ chunks.flatten).length ≤ limit) :
    collect limit .complete acc chunks = .ok (acc ++ chunks.flatten) := by
  induction chunks generalizing acc with
  | nil => rw [collect, List.flatten_nil, List.append_nil]
  | cons chunk rest ih =>
    rw [List.flatten_cons, ← List.append_assoc] at h ⊢
    have hfits : ¬ acc.length + chunk.length > limit := by
      rw [List.length_append, List.length_append] at h
      omega
    rw [collect, if_neg hfits, ih h]

end ContextMesh.Transport
