import Mathlib.Data.String.Basic
import Mathlib.Tactic.Common

/-!
The bytes of a text and the bytes of ASCII classes. A character outside ASCII begins with a byte
that no class holds, so a text whose bytes are ASCII is read character by character.
-/

set_option autoImplicit false
set_option relaxedAutoImplicit false

namespace ContextMesh.Ascii

/-- The UTF-8 bytes of characters. -/
def encode (chars : List Char) : List UInt8 := chars.flatMap String.utf8EncodeChar

def isLowercase (byte : UInt8) : Bool := 97 ≤ byte.toNat && byte.toNat ≤ 122

def isDigit (byte : UInt8) : Bool := 48 ≤ byte.toNat && byte.toNat ≤ 57

/-- The byte of an ASCII character. -/
def byteOf (c : Char) : UInt8 := c.toNat.toUInt8

theorem toByteArray_encode (chars : List Char) :
    (encode chars).toByteArray = (String.ofList chars).toByteArray := by
  rw [String.toByteArray_ofList, List.utf8Encode, encode]

theorem encode_injective : Function.Injective encode := by
  intro first second h
  apply String.ofList_injective
  apply String.toByteArray_inj.mp
  rw [← toByteArray_encode, ← toByteArray_encode, h]

theorem length_encode (text : String) : (encode text.toList).length = text.utf8ByteSize := by
  rw [← List.size_toByteArray, toByteArray_encode, String.ofList_toList]
  rfl

theorem encode_cons (c : Char) (rest : List Char) :
    encode (c :: rest) = String.utf8EncodeChar c ++ encode rest := rfl

theorem utf8EncodeChar_ascii {c : Char} (h : c.toNat < 128) :
    String.utf8EncodeChar c = [byteOf c] := by
  have hle : c.toNat ≤ 127 := Nat.lt_succ_iff.mp h
  simp [String.utf8EncodeChar, byteOf, hle]

theorem encode_cons_ascii {c : Char} (h : c.toNat < 128) (rest : List Char) :
    encode (c :: rest) = byteOf c :: encode rest := by
  rw [encode_cons, utf8EncodeChar_ascii h]
  rfl

theorem encode_ascii {chars : List Char} (h : ∀ c ∈ chars, c.toNat < 128) :
    encode chars = chars.map byteOf := by
  induction chars with
  | nil => rfl
  | cons c rest ih =>
    obtain ⟨hc, hrest⟩ := List.forall_mem_cons.mp h
    rw [encode_cons_ascii hc, ih hrest, List.map_cons]

theorem byteOf_toNat {c : Char} (h : c.toNat < 128) : (byteOf c).toNat = c.toNat := by
  rw [byteOf, UInt8.toNat_ofNat', Nat.mod_eq_of_lt (by omega)]

/-- A character outside ASCII takes only bytes from 128 on to begin with. -/
theorem utf8EncodeChar_wide {c : Char} (h : 128 ≤ c.toNat) :
    ∃ first rest, String.utf8EncodeChar c = first :: rest ∧ 128 ≤ first.toNat := by
  have hvalue : c.val.toNat = c.toNat := rfl
  have hnarrow : ¬ c.val.toNat ≤ 0x7f := by omega
  unfold String.utf8EncodeChar
  dsimp only
  rw [if_neg hnarrow]
  by_cases htwo : c.val.toNat ≤ 0x7ff
  · rw [if_pos htwo]
    refine ⟨_, _, rfl, ?_⟩
    rw [UInt8.toNat_ofNat']
    omega
  · rw [if_neg htwo]
    by_cases hthree : c.val.toNat ≤ 0xffff
    · rw [if_pos hthree]
      refine ⟨_, _, rfl, ?_⟩
      rw [UInt8.toNat_ofNat']
      omega
    · rw [if_neg hthree]
      refine ⟨_, _, rfl, ?_⟩
      rw [UInt8.toNat_ofNat']
      omega

theorem isLower_iff {c : Char} : c.isLower = true ↔ 97 ≤ c.toNat ∧ c.toNat ≤ 122 := by
  change (decide (('a').val ≤ c.val) && decide (c.val ≤ ('z').val)) = true ↔ _
  rw [Bool.and_eq_true, decide_eq_true_eq, decide_eq_true_eq]
  exact Iff.rfl

theorem isDigit_iff {c : Char} : c.isDigit = true ↔ 48 ≤ c.toNat ∧ c.toNat ≤ 57 := by
  change (decide (('0').val ≤ c.val) && decide (c.val ≤ ('9').val)) = true ↔ _
  rw [Bool.and_eq_true, decide_eq_true_eq, decide_eq_true_eq]
  exact Iff.rfl

theorem isLowercase_byteOf {c : Char} (h : c.toNat < 128) :
    isLowercase (byteOf c) = c.isLower := by
  rw [Bool.eq_iff_iff, isLowercase, byteOf_toNat h, Bool.and_eq_true, decide_eq_true_eq,
    decide_eq_true_eq, isLower_iff]

theorem isDigit_byteOf {c : Char} (h : c.toNat < 128) : isDigit (byteOf c) = c.isDigit := by
  rw [Bool.eq_iff_iff, isDigit, byteOf_toNat h, Bool.and_eq_true, decide_eq_true_eq,
    decide_eq_true_eq, isDigit_iff]

/-- Bytes of ASCII characters are told apart like the characters. -/
theorem byteOf_eq_iff {c d : Char} (hc : c.toNat < 128) (hd : d.toNat < 128) :
    byteOf c = byteOf d ↔ c = d := by
  constructor
  · intro h
    have hvalue := congrArg UInt8.toNat h
    rw [byteOf_toNat hc, byteOf_toNat hd] at hvalue
    exact Char.toNat_inj.mp hvalue
  · exact congrArg byteOf

end ContextMesh.Ascii
