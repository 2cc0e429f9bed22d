import ContextMesh.Contract.Boundary
import ContextMesh.Foundation.Ordered
import Mathlib.Order.Lattice

/-!
Typed identifiers with a canonical text form, and the dotted-name grammar of event kinds, branch
names and peer names. Every identifier type is one construction at its own prefix and size.
-/

set_option autoImplicit false
set_option relaxedAutoImplicit false

namespace ContextMesh.Contract

open Checked

variable (B : Boundary)

/-- The text after a prefix. -/
def stripPrefix (lead text : String) : Option String :=
  if lead.toList <+: text.toList then some (String.ofList (text.toList.drop lead.toList.length))
  else none

/-- The canonical text of fixed bytes: the prefix and the unpadded base64. -/
def fixedText (lead : String) {size : ℕ} (bytes : Fixed size) : String :=
  lead ++ B.encode64 bytes.1

/-- Parses the canonical text of fixed bytes: prefix, exact length, alphabet, decoded size, and the
canonical form of the last digit. -/
def parseFixed (lead : String) (size : ℕ) (text : String) :
    Except ContractError (Fixed size) := do
  let encoded ← required (stripPrefix lead text) .invalidEncoding
  ensure (text.utf8ByteSize = lead.utf8ByteSize + (size * 8 + 5) / 6) .invalidEncoding
  let decoded ← required (B.decode64 encoded) .invalidEncoding
  if h : decoded.length = size then do
    ensure (fixedText B lead (⟨decoded, h⟩ : Fixed size) = text) .invalidEncoding
    .ok ⟨decoded, h⟩
  else .error .invalidEncoding

/-- A BLAKE3-derived immutable event identifier. -/
structure EventId where
  bytes : Fixed 32
  deriving DecidableEq

/-- An opaque context identifier. -/
structure ContextId where
  bytes : Fixed 32
  deriving DecidableEq

/-- An Ed25519 verifying-key identity. -/
structure AuthorId where
  bytes : Fixed 32
  deriving DecidableEq

/-- An Ed25519 event signature. -/
structure EventSignature where
  bytes : Fixed 64
  deriving DecidableEq

/-- Allowlist entries are compared by equality. -/
instance lawfulEntry : LawfulBEq (ContextId × AuthorId) := inferInstance

namespace EventId
def text (id : EventId) : String := fixedText B "evt1_" id.bytes
def parse (text : String) : Except ContractError EventId :=
  parseFixed B "evt1_" 32 text >>= fun bytes ↦ .ok ⟨bytes⟩
end EventId

namespace ContextId
def text (id : ContextId) : String := fixedText B "ctx1_" id.bytes
def parse (text : String) : Except ContractError ContextId :=
  parseFixed B "ctx1_" 32 text >>= fun bytes ↦ .ok ⟨bytes⟩
end ContextId

namespace AuthorId
def text (id : AuthorId) : String := fixedText B "ed25519_" id.bytes
def parse (text : String) : Except ContractError AuthorId :=
  parseFixed B "ed25519_" 32 text >>= fun bytes ↦ .ok ⟨bytes⟩
end AuthorId

namespace EventSignature
def text (id : EventSignature) : String := fixedText B "sig1_" id.bytes
def parse (text : String) : Except ContractError EventSignature :=
  parseFixed B "sig1_" 64 text >>= fun bytes ↦ .ok ⟨bytes⟩
end EventSignature

/-- Parses an identifier out of a JSON string. -/
def parseText {α : Type} (parse : String → Except ContractError α) (v : Json) :
    Except ContractError α := intoString v >>= parse

section Text

variable {B}

@[simp] theorem stripPrefix_append (lead rest : String) :
    stripPrefix lead (lead ++ rest) = some rest := by
  simp [stripPrefix, String.toList_append]

/-- Parsing inverts the canonical text. -/
theorem parseFixed_fixedText (lead : String) {size : ℕ} (bytes : Fixed size) :
    parseFixed B lead size (fixedText B lead bytes) = .ok bytes := by
  have hsize : (fixedText B lead bytes).utf8ByteSize = lead.utf8ByteSize + (size * 8 + 5) / 6 := by
    rw [fixedText, String.utf8ByteSize_append, B.encode64_size, bytes.2]
  rw [parseFixed, ensure_true hsize]
  simp [fixedText, B.decode64_encode64, bytes.2]

/-- Only the canonical text of a value parses to it. -/
theorem fixedText_of_parseFixed {lead text : String} {size : ℕ} {bytes : Fixed size}
    (h : parseFixed B lead size text = .ok bytes) : fixedText B lead bytes = text := by
  obtain ⟨encoded, -, h⟩ := bind_eq_ok.mp h
  obtain ⟨-, h⟩ := unit_bind_eq_ok.mp h
  obtain ⟨decoded, -, h⟩ := bind_eq_ok.mp h
  split_ifs at h with hlength
  obtain ⟨htext, h⟩ := unit_bind_eq_ok.mp h
  rw [Except.ok.injEq] at h
  exact h ▸ ensure_eq_ok.mp htext

theorem fixedText_injective (lead : String) (size : ℕ) :
    Function.Injective (fixedText B lead : Fixed size → String) := by
  intro first second h
  have := parseFixed_fixedText (B := B) lead first
  rw [h, parseFixed_fixedText] at this
  exact (Except.ok.inj this).symm

/-- The canonical text of fixed bytes is plain, so its rendered length is known. -/
theorem canonicalLength_fixedText {lead : String} {size : ℕ} (bytes : Fixed size)
    (hlead : lead.toList.all plainChar) : canonicalLength B (.str (fixedText B lead bytes)) =
      lead.utf8ByteSize + (size * 8 + 5) / 6 + 2 := by
  rw [canonicalLength_plain, fixedText, String.utf8ByteSize_append, B.encode64_size, bytes.2]
  rw [fixedText, String.toList_append, List.all_append, hlead, B.encode64_plain]
  rfl

/-- Parsing a wrapped identifier type accepts exactly the canonical text of the value. -/
theorem parse_wrapped_eq_ok {α : Type} {lead text : String} {size : ℕ} {wrap : Fixed size → α}
    (bytes : α → Fixed size) (hwrap : ∀ a, wrap (bytes a) = a) (hbytes : ∀ b, bytes (wrap b) = b)
    {a : α} : (parseFixed B lead size text >>= fun b ↦ .ok (wrap b)) = .ok a ↔
      fixedText B lead (bytes a) = text := by
  constructor
  · intro h
    obtain ⟨b, hb, h⟩ := bind_eq_ok.mp h
    rw [Except.ok.injEq] at h
    rw [← h, hbytes]
    exact fixedText_of_parseFixed hb
  · rintro rfl
    exact bind_eq_ok.mpr ⟨bytes a, parseFixed_fixedText _ _, congrArg Except.ok (hwrap a)⟩

theorem EventId.parse_eq_ok {text : String} {id : EventId} :
    EventId.parse B text = .ok id ↔ id.text B = text :=
  parse_wrapped_eq_ok EventId.bytes (fun _ ↦ rfl) fun _ ↦ rfl

theorem ContextId.parse_eq_ok {text : String} {id : ContextId} :
    ContextId.parse B text = .ok id ↔ id.text B = text :=
  parse_wrapped_eq_ok ContextId.bytes (fun _ ↦ rfl) fun _ ↦ rfl

theorem AuthorId.parse_eq_ok {text : String} {id : AuthorId} :
    AuthorId.parse B text = .ok id ↔ id.text B = text :=
  parse_wrapped_eq_ok AuthorId.bytes (fun _ ↦ rfl) fun _ ↦ rfl

theorem EventSignature.parse_eq_ok {text : String} {id : EventSignature} :
    EventSignature.parse B text = .ok id ↔ id.text B = text :=
  parse_wrapped_eq_ok EventSignature.bytes (fun _ ↦ rfl) fun _ ↦ rfl

/-- The text of an event identifier, which orders event identifiers, determines it. -/
theorem EventId.text_injective : Function.Injective (EventId.text B) := by
  rintro ⟨first⟩ ⟨second⟩ h
  exact congrArg EventId.mk (fixedText_injective _ _ h)

theorem ContextId.text_injective : Function.Injective (ContextId.text B) := by
  rintro ⟨first⟩ ⟨second⟩ h
  exact congrArg ContextId.mk (fixedText_injective _ _ h)

theorem parseText_eq_ok {α : Type} {parse : String → Except ContractError α} {v : Json} {a : α} :
    parseText parse v = .ok a ↔ ∃ text, v = .str text ∧ parse text = .ok a := by
  simp only [parseText, bind_eq_ok, intoString_eq_ok]

end Text

/-! ### Dotted names -/

/-- Maximum byte length of an event kind. -/
def MAX_KIND_BYTES : ℕ := 64

/-- Maximum byte length of a branch or peer name. -/
def MAX_REF_NAME_BYTES : ℕ := 64

section Names

variable {ε : Type} (error : ε)

/-- Scans the bytes after the first: letters, digits, and separators that stand alone. A byte
outside ASCII is none of these, so the scan goes by characters. -/
def scanName : List Char → Bool → Except ε Unit
  | [], separator => ensure (separator = false) error
  | c :: rest, separator =>
    if c.isLower || c.isDigit then scanName rest false
    else if (c = '.' ∨ c = '_' ∨ c = '-') ∧ separator = false then scanName rest true
    else .error error

/-- The dotted-name grammar within a byte bound. -/
def dottedName (bound : ℕ) (text : String) : Except ε Unit :=
  match text.toList with
  | [] => .error error
  | first :: rest => do
    ensure (text.utf8ByteSize ≤ bound ∧ first.isLower) error
    scanName error rest false

end Names

def validateKind (kind : String) : Except ContractError Unit :=
  dottedName .invalidKind MAX_KIND_BYTES kind

theorem scanName_plain {ε : Type} {error : ε} {chars : List Char} {separator : Bool} {u : Unit}
    (h : scanName error chars separator = .ok u) : chars.all plainChar := by
  induction chars generalizing separator with
  | nil => rfl
  | cons c rest ih =>
    rw [scanName] at h
    rw [List.all_cons, Bool.and_eq_true]
    split_ifs at h with hname hseparator
    · refine ⟨?_, ih h⟩
      rw [Bool.or_eq_true] at hname
      rw [plainChar, Bool.or_eq_true, Bool.or_eq_true, Bool.or_eq_true]
      refine Or.inl (Or.inl (Or.inl ?_))
      change ((c.isUpper || c.isLower) || c.isDigit) = true
      rw [Bool.or_eq_true, Bool.or_eq_true]
      exact hname.imp Or.inr id
    · refine ⟨?_, ih h⟩
      rcases hseparator.1 with rfl | rfl | rfl <;> rfl

/-- A valid name is plain text. -/
theorem dottedName_plain {ε : Type} {error : ε} {bound : ℕ} {text : String} {u : Unit}
    (h : dottedName error bound text = .ok u) :
    text.utf8ByteSize ≤ bound ∧ text.toList.all plainChar := by
  unfold dottedName at h
  split at h
  · cases h
  · next first rest htext =>
    obtain ⟨hguard, h⟩ := unit_bind_eq_ok.mp h
    obtain ⟨hsize, hfirst⟩ := ensure_eq_ok.mp hguard
    refine ⟨hsize, ?_⟩
    rw [htext, List.all_cons, Bool.and_eq_true]
    refine ⟨?_, scanName_plain h⟩
    have hletter : first.isAlphanum = true := by
      change ((first.isUpper || first.isLower) || first.isDigit) = true
      rw [hfirst, Bool.or_true, Bool.true_or]
    rw [plainChar, hletter]
    rfl

end ContextMesh.Contract
