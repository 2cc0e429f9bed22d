import ContextMesh.Contract.Json

/-!
Compact JSON text: a writer in the form of RFC 8785 and a reader of what it writes. The reader takes
no blanks and no fractions, which the writer never makes; a double is written as `0`.
-/

set_option autoImplicit false
set_option relaxedAutoImplicit false

namespace ContextMesh.Reference

open Contract

/-! ### Writing -/

/-- The number as the writer spells it. -/
def spelled : Number → Number
  | .float _ => .posInt 0
  | n => n

def writeNumber : Number → List Char
  | .posInt n => Nat.toDigits 10 n
  | .negInt n => '-' :: Nat.toDigits 10 (n + 1)
  | .float _ => ['0']

/-- The short name of an escaped character. -/
def shortEscape (c : Char) : Option Char :=
  if c = '"' ∨ c = '\\' then some c
  else if c = '\x08' then some 'b'
  else if c = '\t' then some 't'
  else if c = '\n' then some 'n'
  else if c = '\x0c' then some 'f'
  else if c = '\r' then some 'r'
  else none

def writeChar (c : Char) : List Char :=
  match shortEscape c with
  | some e => ['\\', e]
  | none =>
    if c.toNat < 32 then
      ['\\', 'u', '0', '0', Nat.digitChar (c.toNat / 16), Nat.digitChar (c.toNat % 16)]
    else [c]

def writeText (text : String) : List Char := '"' :: text.toList.flatMap writeChar ++ ['"']

mutual

def writeValue : Json → List Char
  | .null => ['n', 'u', 'l', 'l']
  | .bool true => ['t', 'r', 'u', 'e']
  | .bool false => ['f', 'a', 'l', 's', 'e']
  | .num n => writeNumber n
  | .str text => writeText text
  | .arr [] => ['[', ']']
  | .arr (v :: rest) => '[' :: (writeValue v ++ writeItems rest)
  | .obj [] => ['\x7b', '\x7d']
  | .obj ((name, v) :: rest) =>
    '\x7b' :: (writeText name ++ ':' :: writeValue v ++ writeMembers rest)

/-- The items after the first, and the closing bracket. -/
def writeItems : List Json → List Char
  | [] => [']']
  | v :: rest => ',' :: (writeValue v ++ writeItems rest)

def writeMembers : Members → List Char
  | [] => ['\x7d']
  | (name, v) :: rest => ',' :: (writeText name ++ ':' :: writeValue v ++ writeMembers rest)

end

/-! ### Reading -/

/-- The character a short escape stands for. -/
def longEscape (e : Char) : Option Char :=
  if e = '"' ∨ e = '\\' ∨ e = '/' then some e
  else if e = 'b' then some '\x08'
  else if e = 't' then some '\t'
  else if e = 'n' then some '\n'
  else if e = 'f' then some '\x0c'
  else if e = 'r' then some '\r'
  else none

def hexValue (c : Char) : Option ℕ :=
  if c.isDigit then some (c.toNat - 48)
  else if 'a' ≤ c ∧ c ≤ 'f' then some (c.toNat - 87)
  else if 'A' ≤ c ∧ c ≤ 'F' then some (c.toNat - 55)
  else none

/-- Reads a text up to its closing quote. -/
def readText : List Char → Option (List Char × List Char)
  | [] => none
  | '"' :: rest => some ([], rest)
  | '\\' :: 'u' :: p :: q :: r :: s :: rest => do
    let p ← hexValue p
    let q ← hexValue q
    let r ← hexValue r
    let s ← hexValue s
    let (text, rest) ← readText rest
    some (Char.ofNat (((p * 16 + q) * 16 + r) * 16 + s) :: text, rest)
  | '\\' :: e :: rest => do
    let c ← longEscape e
    let (text, rest) ← readText rest
    some (c :: text, rest)
  | c :: rest =>
    if c.toNat < 32 ∨ c = '\\' then none
    else do
      let (text, rest) ← readText rest
      some (c :: text, rest)

def readNumber (input : List Char) : Option (Number × List Char) :=
  match input with
  | '-' :: rest =>
    match rest.takeWhile Char.isDigit with
    | [] => none
    | digits =>
      match Nat.ofDigitChars 10 digits 0 with
      | 0 => none
      | n + 1 => some (.negInt n, rest.dropWhile Char.isDigit)
  | rest =>
    match rest.takeWhile Char.isDigit with
    | [] => none
    | digits => some (.posInt (Nat.ofDigitChars 10 digits 0), rest.dropWhile Char.isDigit)

mutual

/-- Reads a value; the fuel bounds the length of its text. -/
def readValue : ℕ → List Char → Option (Json × List Char)
  | 0, _ => none
  | _ + 1, 'n' :: 'u' :: 'l' :: 'l' :: rest => some (.null, rest)
  | _ + 1, 't' :: 'r' :: 'u' :: 'e' :: rest => some (.bool true, rest)
  | _ + 1, 'f' :: 'a' :: 'l' :: 's' :: 'e' :: rest => some (.bool false, rest)
  | _ + 1, '"' :: rest => (readText rest).map fun p ↦ (.str (.ofList p.1), p.2)
  | _ + 1, '[' :: ']' :: rest => some (.arr [], rest)
  | fuel + 1, '[' :: rest => do
    let (v, rest) ← readValue fuel rest
    let (vs, rest) ← readItems fuel rest
    some (.arr (v :: vs), rest)
  | _ + 1, '\x7b' :: '\x7d' :: rest => some (.obj [], rest)
  | fuel + 1, '\x7b' :: rest => do
    let (m, rest) ← readMember fuel rest
    let (ms, rest) ← readMembers fuel rest
    some (.obj (m :: ms), rest)
  | _ + 1, rest => (readNumber rest).map fun p ↦ (.num p.1, p.2)

def readItems : ℕ → List Char → Option (List Json × List Char)
  | _ + 1, ']' :: rest => some ([], rest)
  | fuel + 1, ',' :: rest => do
    let (v, rest) ← readValue fuel rest
    let (vs, rest) ← readItems fuel rest
    some (v :: vs, rest)
  | _, _ => none

def readMember : ℕ → List Char → Option ((String × Json) × List Char)
  | fuel + 1, '"' :: rest => do
    let (name, rest) ← readText rest
    match rest with
    | ':' :: rest => do
      let (v, rest) ← readValue fuel rest
      some ((.ofList name, v), rest)
    | _ => none
  | _, _ => none

def readMembers : ℕ → List Char → Option (Members × List Char)
  | _ + 1, '\x7d' :: rest => some ([], rest)
  | fuel + 1, ',' :: rest => do
    let (m, rest) ← readMember fuel rest
    let (ms, rest) ← readMembers fuel rest
    some (m :: ms, rest)
  | _, _ => none

end

/-! ### Round trip -/

/-- What follows a number does not begin with a digit. -/
def Stops (rest : List Char) : Prop := rest.takeWhile Char.isDigit = []

theorem hexValue_digitChar : ∀ n < 16, hexValue (Nat.digitChar n) = some n := by decide

theorem longEscape_shortEscape {c e : Char} (h : shortEscape c = some e) :
    longEscape e = some c ∧ e ≠ 'u' := by
  unfold shortEscape at h
  split_ifs at h with h1 h2 h3 h4 h5 h6
  · rw [Option.some.injEq] at h
    subst h
    rcases h1 with rfl | rfl <;> decide
  all_goals
    rw [Option.some.injEq] at h
    subst_vars
    decide

theorem readText_writeChar (c : Char) (rest : List Char) :
    readText (writeChar c ++ rest) = (readText rest).map fun p ↦ (c :: p.1, p.2) := by
  unfold writeChar
  split
  · next e he =>
    obtain ⟨hlong, hu⟩ := longEscape_shortEscape he
    simp only [List.cons_append, List.nil_append]
    rw [readText.eq_4 _ _ fun _ _ _ _ _ heq _ ↦ hu heq, hlong]
    cases readText rest <;> rfl
  · next he =>
    have hplain : c ≠ '"' ∧ c ≠ '\\' := by
      unfold shortEscape at he
      split_ifs at he with h1
      exact not_or.mp h1
    split_ifs with hcontrol
    · simp only [List.cons_append, List.nil_append]
      rw [readText.eq_3, show hexValue '0' = some 0 from rfl, hexValue_digitChar _ (by omega),
        hexValue_digitChar _ (by omega)]
      have hc : ((0 * 16 + 0) * 16 + c.toNat / 16) * 16 + c.toNat % 16 = c.toNat := by omega
      simp only [Option.bind_eq_bind, Option.bind_some, hc, Char.ofNat_toNat]
      cases readText rest <;> rfl
    · rw [List.singleton_append, readText.eq_5 _ _ (fun h ↦ hplain.1 h)
        (fun _ _ _ _ _ h _ ↦ hplain.2 h) (fun _ _ h _ ↦ hplain.2 h),
        if_neg (not_or.mpr ⟨hcontrol, hplain.2⟩)]
      cases readText rest <;> rfl

theorem readText_writeText (chars rest : List Char) :
    readText (chars.flatMap writeChar ++ '"' :: rest) = some (chars, rest) := by
  induction chars with
  | nil => rw [List.flatMap_nil, List.nil_append, readText]
  | cons c chars ih =>
    rw [List.flatMap_cons, List.append_assoc, readText_writeChar, ih, Option.map_some]

theorem takeWhile_digits (n : ℕ) {rest : List Char} (h : Stops rest) :
    (Nat.toDigits 10 n ++ rest).takeWhile Char.isDigit = Nat.toDigits 10 n ∧
      (Nat.toDigits 10 n ++ rest).dropWhile Char.isDigit = rest := by
  have hall : ∀ c ∈ Nat.toDigits 10 n, c.isDigit = true := fun c hc ↦
    Nat.isDigit_of_mem_toDigits (by decide) (by decide) hc
  have hdrop : rest.dropWhile Char.isDigit = rest := by
    have := List.takeWhile_append_dropWhile (p := Char.isDigit) (l := rest)
    rwa [h, List.nil_append] at this
  rw [List.takeWhile_append_of_pos hall, List.dropWhile_append_of_pos hall, h, hdrop,
    List.append_nil]
  exact ⟨rfl, rfl⟩

/-- The digits of a number begin with a digit. -/
theorem exists_digits (n : ℕ) : ∃ d ds, Nat.toDigits 10 n = d :: ds ∧ d.isDigit = true := by
  cases h : Nat.toDigits 10 n with
  | nil => exact absurd h Nat.toDigits_ne_nil
  | cons d ds =>
    refine ⟨d, ds, rfl, Nat.isDigit_of_mem_toDigits (b := 10) (n := n) (by decide) (by decide) ?_⟩
    rw [h]
    exact List.mem_cons_self

theorem readNumber_writeNumber (n : Number) {rest : List Char} (h : Stops rest) :
    readNumber (writeNumber n ++ rest) = some (spelled n, rest) := by
  have hpos (m : ℕ) : readNumber (Nat.toDigits 10 m ++ rest) = some (.posInt m, rest) := by
    obtain ⟨d, ds, hdigits, hd⟩ := exists_digits m
    obtain ⟨htake, hdrop⟩ := takeWhile_digits m h
    have hvalue : Nat.ofDigitChars 10 (d :: ds) 0 = m :=
      hdigits ▸ Nat.ofDigitChars_ten_toDigits
    rw [readNumber.eq_2, htake, hdrop, hdigits]
    · dsimp only
      rw [hvalue]
    intro rest' heq
    rw [hdigits, List.cons_append, List.cons.injEq] at heq
    rw [heq.1] at hd
    exact absurd hd (by decide)
  cases n with
  | posInt m => exact hpos m
  | negInt m =>
    obtain ⟨d, ds, hdigits, -⟩ := exists_digits (m + 1)
    obtain ⟨htake, hdrop⟩ := takeWhile_digits (m + 1) h
    have hvalue : Nat.ofDigitChars 10 (d :: ds) 0 = m + 1 :=
      hdigits ▸ Nat.ofDigitChars_ten_toDigits
    rw [writeNumber, List.cons_append, readNumber.eq_1, htake, hdrop, hdigits]
    dsimp only
    rw [hvalue]
    rfl
  | float x => exact hpos 0

/-- A value is written with an ASCII character first that closes nothing. -/
theorem writeValue_first (v : Json) :
    ∃ c cs, writeValue v = c :: cs ∧ c.toNat < 128 ∧ c ≠ ']' := by
  have hdigit {d : Char} (hd : d.isDigit = true) : d.toNat < 128 ∧ d ≠ ']' := by
    refine ⟨?_, fun heq ↦ by rw [heq] at hd; exact absurd hd (by decide)⟩
    rw [Char.isDigit, Bool.and_eq_true, decide_eq_true_eq, decide_eq_true_eq] at hd
    have := UInt32.le_iff_toNat_le.mp hd.2
    have hnine : ('9' : Char).val.toNat = 57 := rfl
    have hd' : d.toNat = d.val.toNat := rfl
    omega
  match v with
  | .null => exact ⟨_, _, rfl, by decide, by decide⟩
  | .bool true => exact ⟨_, _, rfl, by decide, by decide⟩
  | .bool false => exact ⟨_, _, rfl, by decide, by decide⟩
  | .num (.posInt n) =>
    obtain ⟨d, ds, hdigits, hd⟩ := exists_digits n
    exact ⟨d, ds, hdigits, hdigit hd⟩
  | .num (.negInt n) => exact ⟨_, _, rfl, by decide, by decide⟩
  | .num (.float x) => exact ⟨_, _, rfl, by decide, by decide⟩
  | .str text => exact ⟨_, _, rfl, by decide, by decide⟩
  | .arr [] => exact ⟨_, _, rfl, by decide, by decide⟩
  | .arr (_ :: _) => exact ⟨_, _, rfl, by decide, by decide⟩
  | .obj [] => exact ⟨_, _, rfl, by decide, by decide⟩
  | .obj ((_, _) :: _) => exact ⟨_, _, rfl, by decide, by decide⟩

theorem readValue_num (fuel : ℕ) (n : Number) {rest : List Char} (h : Stops rest) :
    readValue (fuel + 1) (writeNumber n ++ rest) = some (.num (spelled n), rest) := by
  have hfirst : ∃ c cs, writeNumber n = c :: cs ∧ (c = '-' ∨ c.isDigit = true) := by
    cases n with
    | posInt m =>
      obtain ⟨d, ds, hdigits, hd⟩ := exists_digits m
      exact ⟨d, ds, hdigits, Or.inr hd⟩
    | negInt m => exact ⟨_, _, rfl, Or.inl rfl⟩
    | float x => exact ⟨_, _, rfl, Or.inr (by decide)⟩
  obtain ⟨c, cs, hwrite, hc⟩ := hfirst
  have hnot (first : Char) (hno : ¬ (first = '-' ∨ first.isDigit = true)) (tail : List Char) :
      writeNumber n ++ rest ≠ first :: tail := by
    intro heq
    rw [hwrite, List.cons_append, List.cons.injEq] at heq
    exact hno (heq.1 ▸ hc)
  rw [readValue.eq_10 _ _ (fun _ ↦ hnot 'n' (by decide) _) (fun _ ↦ hnot 't' (by decide) _)
    (fun _ ↦ hnot 'f' (by decide) _) (fun _ ↦ hnot '"' (by decide) _)
    (fun _ ↦ hnot '[' (by decide) _) (fun _ ↦ hnot '[' (by decide) _)
    (fun _ ↦ hnot '\x7b' (by decide) _) (fun _ ↦ hnot '\x7b' (by decide) _),
    readNumber_writeNumber n h]
  rfl

mutual

/-- Reading inverts writing, up to the spelling of numbers. -/
theorem readValue_writeValue : ∀ (v : Json), v.Sorted → ∀ (fuel : ℕ) (rest : List Char),
    (writeValue v).length ≤ fuel → Stops rest →
      readValue fuel (writeValue v ++ rest) = some (v.collect spelled, rest)
  | .null, _, 0, _, hfuel, _ => by simp [writeValue] at hfuel
  | .null, _, fuel + 1, rest, _, _ => by
    simp only [writeValue, List.cons_append, List.nil_append, readValue, Json.collect]
  | .bool true, _, 0, _, hfuel, _ => by simp [writeValue] at hfuel
  | .bool true, _, fuel + 1, rest, _, _ => by
    simp only [writeValue, List.cons_append, List.nil_append, readValue, Json.collect]
  | .bool false, _, 0, _, hfuel, _ => by simp [writeValue] at hfuel
  | .bool false, _, fuel + 1, rest, _, _ => by
    simp only [writeValue, List.cons_append, List.nil_append, readValue, Json.collect]
  | .num n, _, 0, rest, hfuel, _ => by
    obtain ⟨c, cs, hwrite, -⟩ := writeValue_first (.num n)
    rw [hwrite] at hfuel
    simp at hfuel
  | .num n, _, fuel + 1, rest, _, hrest => by
    rw [writeValue, readValue_num fuel n hrest, Json.collect]
  | .str text, _, 0, _, hfuel, _ => by simp [writeValue, writeText] at hfuel
  | .str text, _, fuel + 1, rest, _, _ => by
    rw [writeValue, writeText, List.cons_append, List.cons_append, List.append_assoc,
      List.singleton_append, readValue, readText_writeText, Json.collect]
    simp
  | .arr [], _, 0, _, hfuel, _ => by simp [writeValue] at hfuel
  | .arr [], _, fuel + 1, rest, _, _ => by
    simp only [writeValue, List.cons_append, List.nil_append, readValue, Json.collect, collectItems]
  | .arr (v :: items), _, 0, _, hfuel, _ => by simp [writeValue] at hfuel
  | .arr (v :: items), hsorted, fuel + 1, rest, hfuel, _ => by
    obtain ⟨c, cs, hwrite, -, hc⟩ := writeValue_first v
    have hlength : (writeValue v).length + (writeItems items).length ≤ fuel := by
      simpa [writeValue] using hfuel
    have hstops : Stops (writeItems items ++ rest) := by cases items <;> rfl
    rw [writeValue, List.cons_append, List.append_assoc, readValue.eq_7 _ _ fun tail heq ↦ by
        rw [hwrite, List.cons_append, List.cons.injEq] at heq
        exact hc heq.1,
      readValue_writeValue v hsorted.1 fuel _ (by omega) hstops, Option.bind_eq_bind,
      Option.bind_some]
    dsimp only
    rw [readItems_writeItems items hsorted.2 fuel rest (by omega), Json.collect_arr]
    rfl
  | .obj [], _, 0, _, hfuel, _ => by simp [writeValue] at hfuel
  | .obj [], _, fuel + 1, rest, _, _ => by
    simp only [writeValue, List.cons_append, List.nil_append, readValue, Json.collect,
      collectMembers]
  | .obj ((name, v) :: members), _, 0, _, hfuel, _ => by simp [writeValue] at hfuel
  | .obj ((name, v) :: members), hsorted, fuel + 1, rest, hfuel, _ => by
    have hlength : (writeText name).length + (writeValue v).length + 1 +
        (writeMembers members).length ≤ fuel := by
      simp only [writeValue, List.length_cons, List.length_append] at hfuel
      omega
    have hstops : Stops (writeMembers members ++ rest) := by cases members <;> rfl
    have hmember := readMember_writeMember name v hsorted.2.1 fuel _ (by omega) hstops
    rw [writeValue, List.cons_append, List.append_assoc, List.append_assoc, List.cons_append,
      readValue.eq_9 _ _ fun tail heq ↦ by
        rw [writeText, List.cons_append, List.cons_append, List.cons.injEq] at heq
        exact absurd heq.1 (by decide)]
    rw [List.append_assoc, List.cons_append] at hmember
    rw [hmember, Option.bind_eq_bind, Option.bind_some]
    dsimp only
    rw [readMembers_writeMembers members hsorted.2.2 fuel rest (by omega),
      Json.collect_obj _ hsorted.1]
    rfl

theorem readItems_writeItems : ∀ (items : List Json), SortedItems items →
    ∀ (fuel : ℕ) (rest : List Char), (writeItems items).length ≤ fuel →
      readItems fuel (writeItems items ++ rest) =
        some (items.map fun v ↦ v.collect spelled, rest)
  | [], _, 0, _, hfuel => by simp [writeItems] at hfuel
  | [], _, fuel + 1, rest, _ => by
    rw [writeItems, List.singleton_append, readItems]
    rfl
  | v :: items, _, 0, _, hfuel => by simp [writeItems] at hfuel
  | v :: items, hsorted, fuel + 1, rest, hfuel => by
    have hlength : (writeValue v).length + (writeItems items).length ≤ fuel := by
      simpa [writeItems] using hfuel
    have hstops : Stops (writeItems items ++ rest) := by cases items <;> rfl
    rw [writeItems, List.cons_append, List.append_assoc, readItems,
      readValue_writeValue v hsorted.1 fuel _ (by omega) hstops, Option.bind_eq_bind,
      Option.bind_some]
    dsimp only
    rw [readItems_writeItems items hsorted.2 fuel rest (by omega)]
    rfl

theorem readMember_writeMember : ∀ (name : String) (v : Json), v.Sorted →
    ∀ (fuel : ℕ) (rest : List Char),
      (writeText name).length + (writeValue v).length + 1 ≤ fuel → Stops rest →
        readMember fuel (writeText name ++ ':' :: writeValue v ++ rest) =
          some ((name, v.collect spelled), rest)
  | _, _, _, 0, _, hfuel, _ => by omega
  | name, v, hsorted, fuel + 1, rest, hfuel, hrest => by
    rw [writeText, List.cons_append, List.append_assoc, List.cons_append, List.append_assoc,
      List.singleton_append, readMember, List.cons_append, readText_writeText, Option.bind_eq_bind,
      Option.bind_some]
    have hquoted : 0 < (writeText name).length := by simp [writeText]
    simp only [readValue_writeValue v hsorted fuel rest (by omega) hrest, Option.bind_eq_bind,
      Option.bind_some, String.ofList_toList]

theorem readMembers_writeMembers : ∀ (members : Members), SortedMembers members →
    ∀ (fuel : ℕ) (rest : List Char), (writeMembers members).length ≤ fuel →
      readMembers fuel (writeMembers members ++ rest) =
        some (members.map fun m ↦ (m.1, m.2.collect spelled), rest)
  | [], _, 0, _, hfuel => by simp [writeMembers] at hfuel
  | [], _, fuel + 1, rest, _ => by
    rw [writeMembers, List.singleton_append, readMembers]
    rfl
  | (name, v) :: members, _, 0, _, hfuel => by simp [writeMembers] at hfuel
  | (name, v) :: members, hsorted, fuel + 1, rest, hfuel => by
    have hlength : (writeText name).length + (writeValue v).length + 1 +
        (writeMembers members).length ≤ fuel := by
      simp only [writeMembers, List.length_cons, List.length_append] at hfuel
      omega
    have hstops : Stops (writeMembers members ++ rest) := by cases members <;> rfl
    have hmember := readMember_writeMember name v hsorted.1 fuel _ (by omega) hstops
    rw [List.append_assoc] at hmember
    rw [writeMembers, List.cons_append, List.append_assoc, List.append_assoc, readMembers,
      List.cons_append]
    rw [List.cons_append] at hmember
    rw [hmember, Option.bind_eq_bind, Option.bind_some]
    dsimp only
    rw [readMembers_writeMembers members hsorted.2 fuel rest (by omega)]
    rfl

end

end ContextMesh.Reference
