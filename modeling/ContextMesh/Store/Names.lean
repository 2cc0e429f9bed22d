import ContextMesh.Foundation.Ascii
import ContextMesh.Store.Tables
import Mathlib.Computability.Language

/-!
The language of the two name validators. Both are byte loops that carry whether the last byte was a
separator; the language is given apart from them, by a regular expression. A loop is a machine with
two states, and the equations of these states are those of the expression.
-/

set_option autoImplicit false
set_option relaxedAutoImplicit false

namespace ContextMesh.Store

open Checked Contract Ascii Computability

/-! ### The language -/

/-- The words of one symbol that satisfies a predicate. -/
def oneOf (holds : Char → Prop) : Language Char := {word | ∃ c, holds c ∧ word = [c]}

/-- `[a-z]` -/
def lowerLetter : Language Char := oneOf fun c ↦ 'a' ≤ c ∧ c ≤ 'z'

/-- `[a-z0-9]` -/
def letterOrDigit : Language Char := oneOf fun c ↦ ('a' ≤ c ∧ c ≤ 'z') ∨ ('0' ≤ c ∧ c ≤ '9')

/-- `[._-]` -/
def separatorSymbol : Language Char := oneOf fun c ↦ c = '.' ∨ c = '_' ∨ c = '-'

/-- `[a-z0-9]*([._-][a-z0-9]+)*` -/
def nameTail : Language Char :=
  letterOrDigit∗ * (separatorSymbol * (letterOrDigit * letterOrDigit∗))∗

/-- `[a-z][a-z0-9]*([._-][a-z0-9]+)*` -/
def nameLanguage : Language Char := lowerLetter * nameTail

theorem nil_notMem_oneOf_mul (holds : Char → Prop) (L : Language Char) : [] ∉ oneOf holds * L := by
  intro h
  obtain ⟨word, ⟨c, -, rfl⟩, rest, -, heq⟩ := Language.mem_mul.mp h
  exact List.cons_ne_nil _ _ heq

theorem cons_mem_oneOf_mul {holds : Char → Prop} {L : Language Char} {c : Char}
    {rest : List Char} : c :: rest ∈ oneOf holds * L ↔ holds c ∧ rest ∈ L := by
  rw [Language.mem_mul]
  constructor
  · rintro ⟨word, ⟨d, hd, rfl⟩, tail, htail, heq⟩
    obtain ⟨rfl, rfl⟩ := List.cons.inj heq
    exact ⟨hd, htail⟩
  · rintro ⟨hc, hrest⟩
    exact ⟨[c], ⟨c, hc, rfl⟩, rest, hrest, rfl⟩

/-- A tail ends, begins with a separator and a letter or digit, or begins with one of these. -/
theorem nameTail_eq : nameTail =
    1 + separatorSymbol * (letterOrDigit * nameTail) + letterOrDigit * nameTail := by
  have hblocks := Language.one_add_self_mul_kstar_eq_kstar
    (separatorSymbol * (letterOrDigit * letterOrDigit∗))
  have hword := Language.one_add_self_mul_kstar_eq_kstar letterOrDigit
  calc nameTail = (1 + letterOrDigit * letterOrDigit∗) *
        (separatorSymbol * (letterOrDigit * letterOrDigit∗))∗ := by rw [hword]; rfl
    _ = (separatorSymbol * (letterOrDigit * letterOrDigit∗))∗ + letterOrDigit * nameTail := by
        rw [add_mul, one_mul, mul_assoc]
        rfl
    _ = 1 + separatorSymbol * (letterOrDigit * nameTail) + letterOrDigit * nameTail := by
        rw [← hblocks]
        simp only [nameTail, mul_assoc]

theorem nil_mem_nameTail : [] ∈ nameTail := by
  rw [nameTail_eq, Language.mem_add, Language.mem_add]
  exact Or.inl (Or.inl Language.nil_mem_one)

theorem cons_mem_nameTail {c : Char} {rest : List Char} : c :: rest ∈ nameTail ↔
    ((c = '.' ∨ c = '_' ∨ c = '-') ∧ rest ∈ letterOrDigit * nameTail) ∨
      ((('a' ≤ c ∧ c ≤ 'z') ∨ ('0' ≤ c ∧ c ≤ '9')) ∧ rest ∈ nameTail) := by
  conv_lhs => rw [nameTail_eq]
  rw [Language.mem_add, Language.mem_add, Language.mem_one, separatorSymbol, cons_mem_oneOf_mul,
    letterOrDigit, cons_mem_oneOf_mul]
  simp only [List.cons_ne_nil, false_or]

/-! ### The loop over characters -/

variable {ε : Type} {error : ε}

theorem lower_iff {c : Char} : c.isLower = true ↔ 'a' ≤ c ∧ c ≤ 'z' := isLower_iff

theorem letterOrDigit_iff {c : Char} : (c.isLower || c.isDigit) = true ↔
    ('a' ≤ c ∧ c ≤ 'z') ∨ ('0' ≤ c ∧ c ≤ '9') := by
  rw [Bool.or_eq_true, isLower_iff, isDigit_iff]
  exact Iff.rfl

/-- The two states of the loop: after a separator a letter or digit has to follow. -/
theorem scanName_iff (chars : List Char) :
    (scanName error chars false = .ok () ↔ chars ∈ nameTail) ∧
      (scanName error chars true = .ok () ↔ chars ∈ letterOrDigit * nameTail) := by
  induction chars with
  | nil =>
    refine ⟨iff_of_true rfl nil_mem_nameTail, iff_of_false ?_ (nil_notMem_oneOf_mul _ _)⟩
    rw [scanName, ensure_false (by decide)]
    intro h
    cases h
  | cons c rest ih =>
    obtain ⟨hopen, hafter⟩ := ih
    constructor
    · rw [scanName, cons_mem_nameTail]
      by_cases hword : (c.isLower || c.isDigit) = true
      · rw [if_pos hword, hopen]
        have hplain : ¬ (c = '.' ∨ c = '_' ∨ c = '-') := by
          rintro (rfl | rfl | rfl) <;> exact absurd hword (by decide)
        rw [← letterOrDigit_iff]
        simp only [hword, hplain, true_and, false_and, false_or]
      · rw [if_neg hword, ← letterOrDigit_iff]
        by_cases hseparator : c = '.' ∨ c = '_' ∨ c = '-'
        · rw [if_pos ⟨hseparator, rfl⟩, hafter]
          simp only [hword, hseparator, true_and, Bool.false_eq_true, false_and, or_false]
        · rw [if_neg fun h ↦ hseparator h.1]
          simp only [hword, hseparator, false_and, or_false, reduceCtorEq]
    · rw [scanName, letterOrDigit, cons_mem_oneOf_mul, ← letterOrDigit_iff]
      by_cases hword : (c.isLower || c.isDigit) = true
      · rw [if_pos hword, hopen]
        simp only [hword, true_and]
      · rw [if_neg hword, if_neg fun h ↦ Bool.noConfusion h.2]
        simp only [hword, false_and, reduceCtorEq]

theorem dottedName_iff {bound : ℕ} {text : String} : dottedName error bound text = .ok () ↔
    text.utf8ByteSize ≤ bound ∧ text.toList ∈ nameLanguage := by
  rw [dottedName, nameLanguage]
  cases text.toList with
  | nil => exact iff_of_false (by simp) fun h ↦ nil_notMem_oneOf_mul _ _ h.2
  | cons first rest =>
    dsimp only
    rw [unit_bind_eq_ok, ensure_eq_ok, (scanName_iff rest).1, lowerLetter, cons_mem_oneOf_mul,
      lower_iff, and_assoc]

/-! ### The loop over bytes -/

/-- The loop as the program runs it, over the bytes after the first. -/
def scanBytes (error : ε) : List UInt8 → Bool → Except ε Unit
  | [], separator => ensure (separator = false) error
  | byte :: rest, separator =>
    if isLowercase byte || isDigit byte then scanBytes error rest false
    else if (byte = byteOf '.' ∨ byte = byteOf '_' ∨ byte = byteOf '-') ∧ separator = false then
      scanBytes error rest true
    else .error error

/-- The checks of a name over its bytes. -/
def nameBytes (error : ε) (bound : ℕ) : List UInt8 → Except ε Unit
  | [] => .error error
  | first :: rest => do
    ensure ((first :: rest).length ≤ bound ∧ isLowercase first) error
    scanBytes error rest false

/-- A byte from 128 on is in no class of the grammar. -/
theorem scanBytes_wide {byte : UInt8} (h : 128 ≤ byte.toNat) (rest : List UInt8)
    (separator : Bool) : scanBytes error (byte :: rest) separator = .error error := by
  have hword : (isLowercase byte || isDigit byte) = false := by
    rw [isLowercase, isDigit, Bool.or_eq_false_iff, Bool.and_eq_false_iff, Bool.and_eq_false_iff,
      decide_eq_false_iff_not, decide_eq_false_iff_not, decide_eq_false_iff_not,
      decide_eq_false_iff_not]
    omega
  have hseparator : ¬ ((byte = byteOf '.' ∨ byte = byteOf '_' ∨ byte = byteOf '-') ∧
      separator = false) := by
    rintro ⟨rfl | rfl | rfl, -⟩ <;> exact absurd h (by decide)
  rw [scanBytes, hword, if_neg Bool.false_ne_true, if_neg hseparator]

theorem scanBytes_encode (chars : List Char) (separator : Bool) :
    scanBytes error (encode chars) separator = scanName error chars separator := by
  induction chars generalizing separator with
  | nil => rfl
  | cons c rest ih =>
    by_cases hascii : c.toNat < 128
    · have hseparator : (byteOf c = byteOf '.' ∨ byteOf c = byteOf '_' ∨ byteOf c = byteOf '-') ↔
          (c = '.' ∨ c = '_' ∨ c = '-') := by
        rw [byteOf_eq_iff hascii (by decide), byteOf_eq_iff hascii (by decide),
          byteOf_eq_iff hascii (by decide)]
      rw [encode_cons_ascii hascii, scanBytes, scanName, isLowercase_byteOf hascii,
        isDigit_byteOf hascii, ih, ih]
      simp only [hseparator]
    · obtain ⟨first, more, hencoded, hwide⟩ := utf8EncodeChar_wide (Nat.le_of_not_lt hascii)
      have hword : ¬ (c.isLower || c.isDigit) = true := by
        rw [Bool.or_eq_true, isLower_iff, isDigit_iff]
        omega
      have hseparator : ¬ ((c = '.' ∨ c = '_' ∨ c = '-') ∧ separator = false) := by
        rintro ⟨rfl | rfl | rfl, -⟩ <;> exact hascii (by decide)
      rw [encode_cons, hencoded, List.cons_append, scanBytes_wide hwide, scanName, if_neg hword,
        if_neg hseparator]

/-- Reading a name by characters is reading it by bytes. -/
theorem dottedName_eq_nameBytes (bound : ℕ) (text : String) :
    dottedName error bound text = nameBytes error bound (encode text.toList) := by
  rw [dottedName, ← length_encode]
  cases text.toList with
  | nil => rfl
  | cons first rest =>
    dsimp only
    by_cases hascii : first.toNat < 128
    · rw [encode_cons_ascii hascii, nameBytes, isLowercase_byteOf hascii, scanBytes_encode]
    · obtain ⟨byte, more, hencoded, hwide⟩ := utf8EncodeChar_wide (Nat.le_of_not_lt hascii)
      have hfirst : ¬ first.isLower = true := by
        rw [isLower_iff]
        omega
      have hbyte : ¬ isLowercase byte = true := by
        rw [isLowercase, Bool.and_eq_true, decide_eq_true_eq, decide_eq_true_eq]
        omega
      rw [encode_cons, hencoded, List.cons_append, nameBytes, ensure_false fun h ↦ hfirst h.2,
        ensure_false fun h ↦ hbyte h.2]
      rfl

/-- Both validators, run over the bytes of a text, accept the names of at most 64 bytes in the same
regular language. -/
theorem validators_language (text : String) :
    (validateKind text = nameBytes .invalidKind MAX_KIND_BYTES (encode text.toList) ∧
      validateName text = nameBytes .invalidRefName MAX_REF_NAME_BYTES (encode text.toList)) ∧
    (validateKind text = .ok () ↔ (encode text.toList).length ≤ 64 ∧ text.toList ∈ nameLanguage) ∧
    (validateName text = .ok () ↔ (encode text.toList).length ≤ 64 ∧ text.toList ∈ nameLanguage) ∧
    (validateKind text = .ok () ↔ validateName text = .ok ()) := by
  have hkind : validateKind text = .ok () ↔
      (encode text.toList).length ≤ 64 ∧ text.toList ∈ nameLanguage := by
    rw [length_encode]
    exact dottedName_iff
  have hname : validateName text = .ok () ↔
      (encode text.toList).length ≤ 64 ∧ text.toList ∈ nameLanguage := by
    rw [length_encode]
    exact dottedName_iff
  exact ⟨⟨dottedName_eq_nameBytes _ _, dottedName_eq_nameBytes _ _⟩, hkind, hname,
    hkind.trans hname.symm⟩

end ContextMesh.Store
