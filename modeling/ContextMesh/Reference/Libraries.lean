import ContextMesh.Reference.Base64
import ContextMesh.Reference.JsonText
import ContextMesh.Contract.Boundary

/-!
The libraries on concrete text: compact JSON, UTF-8 and base64, over any choice of the cryptographic
functions.
-/

set_option autoImplicit false
set_option relaxedAutoImplicit false

namespace ContextMesh.Reference

open Contract

/-! ### UTF-8 -/

def utf8 (chars : List Char) : Bytes := (String.ofList chars).toByteArray.data.toList

def ofUtf8 (bytes : Bytes) : Option (List Char) :=
  (String.fromUTF8? ⟨bytes.toArray⟩).map String.toList

theorem ofUtf8_utf8 (chars : List Char) : ofUtf8 (utf8 chars) = some chars := by
  have hbytes : (⟨(utf8 chars).toArray⟩ : ByteArray) = (String.ofList chars).toByteArray := by
    rw [utf8, Array.toArray_toList]
  rw [ofUtf8, hbytes, String.fromUTF8?, dif_pos (String.ofList chars).isValidUTF8]
  exact congrArg some String.toList_ofList

theorem asBytes_eq (text : String) : asBytes text = utf8 text.toList := by
  rw [utf8, String.toByteArray_ofList, List.utf8Encode, List.data_toByteArray]
  rfl

theorem length_utf8 (chars : List Char) :
    (utf8 chars).length = (String.ofList chars).utf8ByteSize :=
  rfl

theorem length_utf8_append (first second : List Char) :
    (utf8 (first ++ second)).length = (utf8 first).length + (utf8 second).length := by
  rw [length_utf8, String.ofList_append, String.utf8ByteSize_append]
  rfl

theorem utf8EncodeChar_ascii {c : Char} (h : c.toNat < 128) :
    String.utf8EncodeChar c = [c.toNat.toUInt8] := by
  have hle : c.toNat ≤ 127 := Nat.lt_succ_iff.mp h
  simp [String.utf8EncodeChar, hle]

/-- The first byte of an ASCII character is the character. -/
theorem utf8_cons {c : Char} (h : c.toNat < 128) (rest : List Char) :
    utf8 (c :: rest) = c.toNat.toUInt8 :: utf8 rest := by
  rw [utf8, utf8, String.toByteArray_ofList, String.toByteArray_ofList, List.utf8Encode,
    List.utf8Encode, List.data_toByteArray, List.data_toByteArray, List.flatMap_cons,
    utf8EncodeChar_ascii h]
  rfl

theorem length_utf8_cons {c : Char} (h : c.toNat < 128) (rest : List Char) :
    (utf8 (c :: rest)).length = (utf8 rest).length + 1 := by
  rw [utf8_cons h, List.length_cons]

/-- ASCII characters take one byte each. -/
theorem length_utf8_ascii {chars : List Char} (h : ∀ c ∈ chars, c.toNat < 128) :
    (utf8 chars).length = chars.length := by
  induction chars with
  | nil => rfl
  | cons c rest ih =>
    obtain ⟨hc, hrest⟩ := List.forall_mem_cons.mp h
    rw [length_utf8_cons hc, ih hrest, List.length_cons]

/-! ### Canonical text -/

theorem spelled_idem : spelled ∘ spelled = spelled := by
  funext n
  cases n <;> rfl

def toVec (v : Json) : Bytes := utf8 (writeValue (v.collect spelled))

def deserialize (bytes : Bytes) : Except JsonFault Json :=
  match ofUtf8 bytes with
  | none => .error .malformed
  | some chars =>
    match readValue chars.length chars with
    | some (v, []) => .ok v
    | _ => .error .malformed

theorem deserialize_toVec (v : Json) : deserialize (toVec v) = .ok (v.collect spelled) := by
  have hread := readValue_writeValue _ (v.collect_sorted spelled)
    (writeValue (v.collect spelled)).length [] le_rfl rfl
  rw [List.append_nil, Json.collect_collect, spelled_idem] at hread
  rw [deserialize, toVec, ofUtf8_utf8]
  dsimp only
  rw [hread]

theorem toVec_collect (v : Json) : toVec (v.collect spelled) = toVec v := by
  rw [toVec, toVec, Json.collect_collect, spelled_idem]

theorem toVec_unmarked (v : Json) : ¬ byteOrderMark <+: toVec v := by
  obtain ⟨c, cs, hwrite, hc, -⟩ := writeValue_first (v.collect spelled)
  rintro ⟨rest, hrest⟩
  rw [toVec, hwrite, utf8_cons hc, byteOrderMark, List.cons_append, List.cons.injEq] at hrest
  have := congrArg UInt8.toNat hrest.1
  rw [show (0xef : UInt8).toNat = 239 from rfl, Nat.toUInt8, UInt8.toNat_ofNat'] at this
  omega

/-! ### Lengths -/

theorem writeChar_plain {c : Char} (h : plainChar c = true) : writeChar c = [c] := by
  have hnot (d : Char) (hd : plainChar d = false) : c ≠ d := fun heq ↦ by
    rw [heq, hd] at h
    cases h
  have hshort : shortEscape c = none := by
    rw [shortEscape, if_neg (not_or.mpr ⟨hnot _ (by decide), hnot _ (by decide)⟩),
      if_neg (hnot _ (by decide)), if_neg (hnot _ (by decide)), if_neg (hnot _ (by decide)),
      if_neg (hnot _ (by decide)), if_neg (hnot _ (by decide))]
  have hcontrol : ¬ c.toNat < 32 := fun hlt ↦ by
    have hall : ∀ n < 32, plainChar (Char.ofNat n) = false := by decide
    have := hall c.toNat hlt
    rw [Char.ofNat_toNat, h] at this
    cases this
  rw [writeChar, hshort]
  exact if_neg hcontrol

theorem length_toVec_plain {text : String} (h : text.toList.all plainChar) :
    (toVec (.str text)).length = text.utf8ByteSize + 2 := by
  have hchars : text.toList.flatMap writeChar = text.toList := by
    have hall : ∀ chars : List Char, (∀ c ∈ chars, plainChar c = true) →
        chars.flatMap writeChar = chars := by
      intro chars
      induction chars with
      | nil => exact fun _ ↦ rfl
      | cons c rest ih =>
        intro hplain
        obtain ⟨hc, hrest⟩ := List.forall_mem_cons.mp hplain
        rw [List.flatMap_cons, writeChar_plain hc, ih hrest]
        rfl
    exact hall _ (List.all_eq_true.mp h)
  rw [toVec, Json.collect, writeValue, writeText, hchars, List.cons_append,
    length_utf8_cons (by decide), length_utf8_append, length_utf8 text.toList,
    String.ofList_toList]
  rfl

/-- A character is written in at most six bytes for each of its own. -/
theorem length_writeChar_le (c : Char) : (utf8 (writeChar c)).length ≤ 6 * c.utf8Size := by
  have hpos : 0 < c.utf8Size := c.utf8Size_pos
  have hsize (chars : List Char) (h : ∀ d ∈ chars, d.toNat < 128) (hfew : chars.length ≤ 6) :
      (utf8 chars).length ≤ 6 * c.utf8Size := by
    rw [length_utf8_ascii h]
    omega
  have hdigits : ∀ n < 16, (Nat.digitChar n).toNat < 128 := by decide
  have hshort : ∀ e, shortEscape c = some e → e.toNat < 128 := by
    intro e he
    unfold shortEscape at he
    split_ifs at he with hsame
    · obtain rfl := Option.some.inj he
      rcases hsame with rfl | rfl <;> decide
    all_goals
      obtain rfl := Option.some.inj he
      decide
  have hslash : '\\'.toNat < 128 := by decide
  unfold writeChar
  split
  case h_1 e he =>
    refine hsize _ ?_ (by simp)
    exact List.forall_mem_cons.mpr ⟨hslash, List.forall_mem_singleton.mpr (hshort e he)⟩
  case h_2 =>
    split_ifs with hcontrol
    · refine hsize _ ?_ (by simp)
      have hu : 'u'.toNat < 128 ∧ '0'.toNat < 128 := by decide
      simp only [List.forall_mem_cons]
      exact ⟨hslash, hu.1, hu.2, hu.2, hdigits _ (by omega), hdigits _ (by omega),
        fun _ h ↦ absurd h List.not_mem_nil⟩
    · rw [length_utf8, ← String.singleton_eq_ofList, String.utf8ByteSize_singleton]
      omega

theorem length_toVec_str_le (text : String) :
    (toVec (.str text)).length ≤ 6 * text.utf8ByteSize + 2 := by
  have hchars : ∀ chars : List Char, (utf8 (chars.flatMap writeChar)).length ≤
      6 * (String.ofList chars).utf8ByteSize := by
    intro chars
    induction chars with
    | nil => exact Nat.zero_le _
    | cons c rest ih =>
      have hc := length_writeChar_le c
      rw [List.flatMap_cons, length_utf8_append, String.ofList_cons, String.utf8ByteSize_append,
        String.utf8ByteSize_singleton]
      omega
  have htext := hchars text.toList
  rw [String.ofList_toList] at htext
  rw [toVec, Json.collect, writeValue, writeText, List.cons_append, length_utf8_cons (by decide),
    length_utf8_append, length_utf8_cons (by decide)]
  exact Nat.succ_le_succ (Nat.succ_le_succ htext)

theorem length_toVec_posInt {n : ℕ} (h : n ≤ MAX_SAFE_INTEGER) :
    (toVec (.num (.posInt n))).length ≤ 16 := by
  have hascii : ∀ c ∈ Nat.toDigits 10 n, c.toNat < 128 := fun c hc ↦ by
    have hdigit := Nat.isDigit_of_mem_toDigits (by decide) (by decide) hc
    rw [Char.isDigit, Bool.and_eq_true, decide_eq_true_eq, decide_eq_true_eq] at hdigit
    have := UInt32.le_iff_toNat_le.mp hdigit.2
    have hnine : ('9' : Char).val.toNat = 57 := rfl
    have hc' : c.toNat = c.val.toNat := rfl
    omega
  have hwrite : toVec (.num (.posInt n)) = utf8 (Nat.toDigits 10 n) := rfl
  rw [hwrite, length_utf8_ascii hascii, Nat.length_toDigits_le_iff (by decide) (by decide)]
  exact h.trans_lt (by decide)

theorem length_writeItems (items : List Json) :
    (utf8 (writeItems items)).length =
      (items.map fun v ↦ (utf8 (writeValue v)).length + 1).sum + 1 := by
  induction items with
  | nil => rfl
  | cons v rest ih =>
    rw [writeItems, length_utf8_cons (by decide), length_utf8_append, ih, List.map_cons,
      List.sum_cons]
    omega

theorem length_writeMembers (members : Members) :
    (utf8 (writeMembers members)).length = (members.map fun m ↦
      (utf8 (writeText m.1)).length + 1 + (utf8 (writeValue m.2)).length + 1).sum + 1 := by
  induction members with
  | nil => rfl
  | cons m rest ih =>
    obtain ⟨name, v⟩ := m
    rw [writeMembers, length_utf8_cons (by decide), length_utf8_append, length_utf8_append,
      length_utf8_cons (by decide), ih, List.map_cons, List.sum_cons]
    dsimp only
    omega

theorem sum_map_add_one {α : Type} (f : α → ℕ) (items : List α) :
    (items.map fun a ↦ f a + 1).sum = (items.map f).sum + items.length := by
  induction items with
  | nil => rfl
  | cons a rest ih =>
    rw [List.map_cons, List.sum_cons, ih, List.map_cons, List.sum_cons, List.length_cons]
    omega

theorem length_toVec_arr (items : List Json) : (toVec (.arr items)).length =
    (items.map fun v ↦ (toVec v).length).sum + (items.length - 1) + 2 := by
  rw [toVec, Json.collect_arr]
  cases items with
  | nil => rfl
  | cons v rest =>
    rw [List.map_cons, writeValue, length_utf8_cons (by decide), length_utf8_append,
      length_writeItems, sum_map_add_one, List.map_map, List.length_map, List.map_cons,
      List.sum_cons, List.length_cons]
    simp only [Function.comp_def, toVec]
    omega

theorem length_toVec_obj {members : Members} (h : Increasing members) :
    (toVec (.obj members)).length = (members.map fun m ↦
      (toVec (.str m.1)).length + 1 + (toVec m.2).length).sum + (members.length - 1) + 2 := by
  rw [toVec, Json.collect_obj _ h]
  have hname (name : String) : toVec (.str name) = utf8 (writeText name) := rfl
  cases members with
  | nil => rfl
  | cons m rest =>
    obtain ⟨name, v⟩ := m
    rw [List.map_cons, writeValue, length_utf8_cons (by decide), length_utf8_append,
      length_utf8_append, length_utf8_cons (by decide), length_writeMembers, sum_map_add_one,
      List.map_map, List.length_map, List.map_cons, List.sum_cons, List.length_cons]
    simp only [Function.comp_def, hname]
    simp only [toVec]
    omega

/-! ### The libraries -/

/-- The cryptographic functions the program calls. -/
structure Cryptography where
  deriveKey : String → Bytes → Fixed 32
  verifyingKey : Fixed 32 → Fixed 32
  sign : Fixed 32 → Bytes → Fixed 64
  isVerifyingKey : Fixed 32 → Bool
  verifyStrict : Fixed 32 → Bytes → Fixed 64 → Bool

def Cryptography.boundary (c : Cryptography) : Boundary where
  deserialize := deserialize
  toVec v := some (toVec v)
  reread := spelled
  encode64 bytes := String.ofList (encodeDigits bytes)
  decode64 text := decodeDigits text.toList
  deriveKey := c.deriveKey
  verifyingKey := c.verifyingKey
  sign := c.sign
  isVerifyingKey := c.isVerifyingKey
  verifyStrict := c.verifyStrict
  toVec_finite v := ⟨_, rfl⟩
  deserialize_toVec := by
    rintro v bytes ⟨⟩ -
    exact ⟨_, deserialize_toVec v⟩
  toVec_inverse := by
    rintro v bytes document ⟨⟩ hdocument
    rw [deserialize_toVec, Except.ok.injEq] at hdocument
    rw [← hdocument]
    exact ⟨Json.strict_collect _ _, Json.collect_id_collect _ _, fun _ ↦ rfl⟩
  toVec_collect v := congrArg some (toVec_collect v)
  toVec_unmarked := by
    rintro v bytes ⟨⟩
    exact toVec_unmarked v
  reread_posInt _ := rfl
  decode64_encode64 bytes := by
    rw [String.toList_ofList]
    exact decodeDigits_encodeDigits bytes
  encode64_size bytes := by
    have hascii : ∀ c ∈ encodeDigits bytes, c.toNat < 128 := fun c hc ↦ by
      obtain ⟨n, hn, rfl⟩ := mem_encodeDigits hc
      exact digit_small n hn
    rw [← length_encodeDigits, ← length_utf8_ascii hascii, length_utf8]
  encode64_plain bytes := by
    rw [String.toList_ofList, List.all_eq_true]
    intro c hc
    obtain ⟨n, hn, rfl⟩ := mem_encodeDigits hc
    rw [plainChar, Bool.or_eq_true]
    exact Or.inl (digit_plain n hn)
  toVec_null_length := rfl
  toVec_posInt_length := length_toVec_posInt
  toVec_plain_length := length_toVec_plain
  toVec_arr_length := length_toVec_arr
  toVec_obj_length := length_toVec_obj

end ContextMesh.Reference
