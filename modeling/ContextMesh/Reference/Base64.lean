import Mathlib.Data.List.Basic
import Mathlib.Tactic.Common

/-!
Unpadded URL-safe base64 over lists of bytes and characters, and its round trip.
-/

set_option autoImplicit false
set_option relaxedAutoImplicit false

namespace ContextMesh.Reference

/-- The digit of a value below 64. -/
def digit (n : ℕ) : Char :=
  if n < 26 then Char.ofNat (65 + n)
  else if n < 52 then Char.ofNat (71 + n)
  else if n < 62 then Char.ofNat (n - 4)
  else if n = 62 then '-' else '_'

def digitValue (c : Char) : Option ℕ :=
  if 'A' ≤ c ∧ c ≤ 'Z' then some (c.toNat - 65)
  else if 'a' ≤ c ∧ c ≤ 'z' then some (c.toNat - 71)
  else if '0' ≤ c ∧ c ≤ '9' then some (c.toNat + 4)
  else if c = '-' then some 62
  else if c = '_' then some 63
  else none

/-- Three bytes become four digits; the last group may be shorter. -/
def encodeDigits : List UInt8 → List Char
  | a :: b :: c :: rest =>
    digit (a.toNat / 4) :: digit (a.toNat % 4 * 16 + b.toNat / 16) ::
      digit (b.toNat % 16 * 4 + c.toNat / 64) :: digit (c.toNat % 64) :: encodeDigits rest
  | [a, b] =>
    [digit (a.toNat / 4), digit (a.toNat % 4 * 16 + b.toNat / 16), digit (b.toNat % 16 * 4)]
  | [a] => [digit (a.toNat / 4), digit (a.toNat % 4 * 16)]
  | [] => []

/-- Decodes groups of four digits; the bits a shorter last group leaves over must be zero. -/
def decodeDigits : List Char → Option (List UInt8)
  | p :: q :: r :: s :: rest => do
    let w ← digitValue p
    let x ← digitValue q
    let y ← digitValue r
    let z ← digitValue s
    let bytes ← decodeDigits rest
    some (.ofNat (w * 4 + x / 16) :: .ofNat (x % 16 * 16 + y / 4) :: .ofNat (y % 4 * 64 + z) ::
      bytes)
  | [p, q, r] => do
    let w ← digitValue p
    let x ← digitValue q
    let y ← digitValue r
    if y % 4 = 0 then some [.ofNat (w * 4 + x / 16), .ofNat (x % 16 * 16 + y / 4)] else none
  | [p, q] => do
    let w ← digitValue p
    let x ← digitValue q
    if x % 16 = 0 then some [.ofNat (w * 4 + x / 16)] else none
  | [_] => none
  | [] => some []

theorem digitValue_digit : ∀ n < 64, digitValue (digit n) = some n := by decide

theorem digit_small : ∀ n < 64, (digit n).toNat < 128 := by decide

theorem digit_plain : ∀ n < 64, ((digit n).isAlphanum || digit n = '-' || digit n = '_') := by
  decide

theorem ofNat_toNat {a : UInt8} {n : ℕ} (h : n = a.toNat) : UInt8.ofNat n = a := by
  rw [h, UInt8.ofNat_toNat]

theorem decodeDigits_encodeDigits (bytes : List UInt8) :
    decodeDigits (encodeDigits bytes) = some bytes := by
  induction bytes using encodeDigits.induct with
  | case1 a b c rest ih =>
    have ha := a.toNat_lt
    have hb := b.toNat_lt
    have hc := c.toNat_lt
    rw [encodeDigits, decodeDigits, digitValue_digit _ (by omega), digitValue_digit _ (by omega),
      digitValue_digit _ (by omega), digitValue_digit _ (by omega), ih]
    simp only [Option.bind_eq_bind, Option.bind_some, Option.some.injEq]
    rw [ofNat_toNat (a := a) (by omega), ofNat_toNat (a := b) (by omega),
      ofNat_toNat (a := c) (by omega)]
  | case2 a b =>
    have ha := a.toNat_lt
    have hb := b.toNat_lt
    rw [encodeDigits, decodeDigits, digitValue_digit _ (by omega), digitValue_digit _ (by omega),
      digitValue_digit _ (by omega)]
    simp only [Option.bind_eq_bind, Option.bind_some]
    rw [if_pos (by omega), ofNat_toNat (a := a) (by omega), ofNat_toNat (a := b) (by omega)]
  | case3 a =>
    have ha := a.toNat_lt
    rw [encodeDigits, decodeDigits, digitValue_digit _ (by omega), digitValue_digit _ (by omega)]
    simp only [Option.bind_eq_bind, Option.bind_some]
    rw [if_pos (by omega), ofNat_toNat (a := a) (by omega)]
  | case4 => rfl

/-- Every digit of an encoding is the digit of some value. -/
theorem mem_encodeDigits {bytes : List UInt8} {c : Char} (h : c ∈ encodeDigits bytes) :
    ∃ n < 64, c = digit n := by
  induction bytes using encodeDigits.induct with
  | case1 a b c rest ih =>
    have ha := a.toNat_lt
    have hb := b.toNat_lt
    have hc := c.toNat_lt
    simp only [encodeDigits, List.mem_cons] at h
    rcases h with rfl | rfl | rfl | rfl | h
    · exact ⟨_, by omega, rfl⟩
    · exact ⟨_, by omega, rfl⟩
    · exact ⟨_, by omega, rfl⟩
    · exact ⟨_, by omega, rfl⟩
    · exact ih h
  | case2 a b =>
    have ha := a.toNat_lt
    have hb := b.toNat_lt
    simp only [encodeDigits, List.mem_cons, List.not_mem_nil, or_false] at h
    rcases h with rfl | rfl | rfl
    · exact ⟨_, by omega, rfl⟩
    · exact ⟨_, by omega, rfl⟩
    · exact ⟨_, by omega, rfl⟩
  | case3 a =>
    have ha := a.toNat_lt
    simp only [encodeDigits, List.mem_cons, List.not_mem_nil, or_false] at h
    rcases h with rfl | rfl
    · exact ⟨_, by omega, rfl⟩
    · exact ⟨_, by omega, rfl⟩
  | case4 => simp [encodeDigits] at h

theorem length_encodeDigits (bytes : List UInt8) :
    (encodeDigits bytes).length = (bytes.length * 8 + 5) / 6 := by
  induction bytes using encodeDigits.induct with
  | case1 a b c rest ih =>
    simp only [encodeDigits, List.length_cons, ih]
    omega
  | case2 a b => simp [encodeDigits]
  | case3 a => simp [encodeDigits]
  | case4 => simp [encodeDigits]

end ContextMesh.Reference
