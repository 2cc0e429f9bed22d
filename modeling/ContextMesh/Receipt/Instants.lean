import ContextMesh.Foundation.Ascii
import ContextMesh.Receipt.Record
import ContextMesh.Receipt.Timestamp

/-!
The texts that pass as creation times. The check accepts every text of the fixed form whose fields
are in range, where each month has 31 days; the printed times are those whose date exists.
-/

set_option autoImplicit false
set_option relaxedAutoImplicit false

namespace ContextMesh.Receipt

open Contract Calendar Ascii

/-! ### Fields of fixed width -/

/-- The decimal digits of a number below `10 ^ width`. -/
def fixedDigits : ℕ → ℕ → List Char
  | 0, _ => []
  | width + 1, n => fixedDigits width (n / 10) ++ [Nat.digitChar (n % 10)]

theorem zeroPadded_eq {width n : ℕ} (h : n < 10 ^ (width + 1)) :
    zeroPadded (width + 1) n = fixedDigits (width + 1) n := by
  induction width generalizing n with
  | zero =>
    rw [zeroPadded, Nat.toDigits_of_lt_base (by simpa using h), fixedDigits, fixedDigits,
      Nat.mod_eq_of_lt (by simpa using h)]
    rfl
  | succ width ih =>
    have hrest : n / 10 < 10 ^ (width + 1) := by
      rw [pow_succ] at h
      omega
    rw [fixedDigits, ← ih hrest, zeroPadded, zeroPadded, List.leftpad, List.leftpad]
    by_cases hsmall : n < 10
    · have hzero : n / 10 = 0 := Nat.div_eq_of_lt hsmall
      rw [Nat.toDigits_of_lt_base hsmall, hzero, Nat.toDigits_zero, Nat.mod_eq_of_lt hsmall]
      change List.replicate (width + 1) '0' ++ _ = (List.replicate width '0' ++ ['0']) ++ _
      rw [List.replicate_succ']
    · rw [Nat.toDigits_of_base_le (by decide) (Nat.le_of_not_lt hsmall), List.length_append,
        List.length_singleton, Nat.add_sub_add_right, List.append_assoc]

theorem length_fixedDigits (width n : ℕ) : (fixedDigits width n).length = width := by
  induction width generalizing n with
  | zero => rfl
  | succ width ih => rw [fixedDigits, List.length_append, ih, List.length_singleton]

theorem digits_concat (bytes : Bytes) (byte : UInt8) : digits (bytes ++ [byte]) =
    if isDigit byte then (digits bytes).map fun value ↦ value * 10 + (byte.toNat - 48)
    else none := by
  have hbyte : (48 ≤ byte && byte ≤ 57) = isDigit byte := rfl
  unfold digits
  rw [List.all_append, List.foldl_append, List.all_cons, List.all_nil, Bool.and_true, hbyte]
  by_cases hdigit : isDigit byte = true
  · rw [hdigit, Bool.and_true, if_pos rfl]
    split_ifs <;> rfl
  · rw [Bool.eq_false_iff.mpr hdigit, Bool.and_false, if_neg Bool.false_ne_true,
      if_neg Bool.false_ne_true]

theorem isDigit_digitChar : ∀ d < 10, (byteOf (Nat.digitChar d)).toNat = 48 + d := by decide

theorem byteOf_digitChar {byte : UInt8} (h : isDigit byte = true) :
    byteOf (Nat.digitChar (byte.toNat - 48)) = byte ∧ byte.toNat - 48 < 10 := by
  rw [isDigit, Bool.and_eq_true, decide_eq_true_eq, decide_eq_true_eq] at h
  have hlt : byte.toNat - 48 < 10 := by omega
  refine ⟨UInt8.toNat_inj.mp ?_, hlt⟩
  rw [isDigit_digitChar _ hlt]
  omega

/-- Bytes are read as a number exactly when they are its digits. -/
theorem digits_eq_some {bytes : Bytes} {n : ℕ} : digits bytes = some n ↔
    n < 10 ^ bytes.length ∧ bytes = (fixedDigits bytes.length n).map byteOf := by
  induction bytes using List.reverseRecOn generalizing n with
  | nil =>
    change some 0 = some n ↔ _
    rw [Option.some.injEq, List.length_nil, pow_zero, Nat.lt_one_iff]
    exact ⟨fun h ↦ ⟨h.symm, rfl⟩, fun h ↦ h.1.symm⟩
  | append_singleton bytes byte ih =>
    rw [digits_concat, List.length_append, List.length_singleton, fixedDigits, List.map_append,
      List.map_singleton, pow_succ]
    constructor
    · intro h
      split_ifs at h with hdigit
      obtain ⟨value, hvalue, hn⟩ := Option.map_eq_some_iff.mp h
      obtain ⟨hlt, hbytes⟩ := ih.mp hvalue
      obtain ⟨hchar, hten⟩ := byteOf_digitChar hdigit
      have hquotient : n / 10 = value := by omega
      have hremainder : n % 10 = byte.toNat - 48 := by omega
      refine ⟨by omega, ?_⟩
      rw [hquotient, ← hbytes, hremainder, hchar]
    · rintro ⟨hlt, hbytes⟩
      obtain ⟨hfront, hlast⟩ := List.append_inj' hbytes rfl
      rw [List.cons.injEq] at hlast
      have hvalue := isDigit_digitChar (n % 10) (Nat.mod_lt _ (by decide))
      rw [← hlast.1] at hvalue
      have hdigit : isDigit byte = true := by
        rw [isDigit, Bool.and_eq_true, decide_eq_true_eq, decide_eq_true_eq]
        omega
      rw [if_pos hdigit, Option.map_eq_some_iff]
      exact ⟨n / 10, ih.mpr ⟨by omega, hfront⟩, by omega⟩

/-! ### The form of a time -/

/-- Fields in the ranges that the check knows. -/
structure InRange (year month day hour minute second : ℕ) : Prop where
  year : 1970 ≤ year ∧ year < 10000
  month : 1 ≤ month ∧ month ≤ 12
  day : 1 ≤ day ∧ day ≤ 31
  time : hour ≤ 23 ∧ minute ≤ 59 ∧ second ≤ 59

/-- The fixed form of a time. -/
def layout (year month day hour minute second : ℕ) : List Char :=
  fixedDigits 4 year ++ '-' :: (fixedDigits 2 month ++ '-' :: (fixedDigits 2 day ++
    'T' :: (fixedDigits 2 hour ++ ':' :: (fixedDigits 2 minute ++ ':' ::
      (fixedDigits 2 second ++ ['Z'])))))

section Fields

variable {year month day hour minute second : ℕ}

theorem InRange.stamp_eq (h : InRange year month day hour minute second) :
    stamp year month day hour minute second =
      String.ofList (layout year month day hour minute second) := by
  obtain ⟨hyear, hmonth, hday, hhour, hminute, hsecond⟩ := h
  change String.ofList (zeroPadded 4 year ++ _) = _
  rw [zeroPadded_eq (by omega), zeroPadded_eq (by omega), zeroPadded_eq (by omega),
    zeroPadded_eq (by omega), zeroPadded_eq (by omega), zeroPadded_eq (by omega)]
  rfl

theorem fixedDigits_ascii {width n : ℕ} : ∀ c ∈ fixedDigits width n, c.toNat < 128 := by
  induction width generalizing n with
  | zero => exact List.forall_mem_nil _
  | succ width ih =>
    have hdigit : ∀ d < 10, (Nat.digitChar d).toNat < 128 := by decide
    rw [fixedDigits, List.forall_mem_append]
    exact ⟨ih, List.forall_mem_singleton.mpr (hdigit _ (Nat.mod_lt _ (by decide)))⟩

theorem asBytes_layout : asBytes (String.ofList (layout year month day hour minute second)) =
    (layout year month day hour minute second).map byteOf := by
  rw [asBytes, String.toList_ofList]
  apply encode_ascii
  unfold layout
  simp only [List.forall_mem_append, List.forall_mem_cons, List.not_mem_nil, false_implies,
    implies_true, and_true]
  exact ⟨fixedDigits_ascii, by decide, fixedDigits_ascii, by decide, fixedDigits_ascii, by decide,
    fixedDigits_ascii, by decide, fixedDigits_ascii, by decide, fixedDigits_ascii, by decide⟩

end Fields

/-! ### Reading the form -/

/-- The bytes of a range. -/
def slice (bytes : Bytes) (start stop : ℕ) : Bytes := (bytes.take stop).drop start

theorem drop_eq_slice {bytes : Bytes} {start stop : ℕ} {mark : UInt8} (hle : start ≤ stop)
    (h : bytes[stop]? = some mark) :
    bytes.drop start = slice bytes start stop ++ mark :: bytes.drop (stop + 1) := by
  obtain ⟨hlt, hmark⟩ := List.getElem?_eq_some_iff.mp h
  have hlength : start ≤ (bytes.take stop).length := by
    rw [List.length_take]
    omega
  calc bytes.drop start = (bytes.take stop ++ bytes.drop stop).drop start := by
        rw [List.take_append_drop]
    _ = slice bytes start stop ++ bytes.drop stop := List.drop_append_of_le_length hlength
    _ = slice bytes start stop ++ mark :: bytes.drop (stop + 1) := by
        rw [List.drop_eq_getElem_cons hlt, hmark]

theorem length_slice {bytes : Bytes} {start stop : ℕ} (h : stop ≤ bytes.length) :
    (slice bytes start stop).length = stop - start := by
  rw [slice, List.length_drop, List.length_take, min_eq_left h]

/-- The field of a range, when its digits spell a number. -/
theorem slice_eq {bytes : Bytes} {start stop n : ℕ} (h : stop ≤ bytes.length)
    (hdigits : digits (slice bytes start stop) = some n) :
    slice bytes start stop = (fixedDigits (stop - start) n).map byteOf ∧
      n < 10 ^ (stop - start) := by
  obtain ⟨hlt, heq⟩ := digits_eq_some.mp hdigits
  rw [length_slice h] at heq hlt
  exact ⟨heq, hlt⟩

theorem digits_fixedDigits (width : ℕ) {n : ℕ} (h : n < 10 ^ width) :
    digits ((fixedDigits width n).map byteOf) = some n := by
  rw [digits_eq_some, List.length_map, length_fixedDigits]
  exact ⟨h, rfl⟩

/-- The check accepts the texts of the fixed form with fields in range. -/
theorem validUtcTimestamp_iff {text : String} : validUtcTimestamp text = true ↔
    ∃ year month day hour minute second, InRange year month day hour minute second ∧
      text = stamp year month day hour minute second := by
  constructor
  · intro h
    unfold validUtcTimestamp at h
    dsimp only at h
    generalize hbytes : asBytes text = bytes at h
    rw [Bool.and_eq_true, decide_eq_true_eq] at h
    obtain ⟨⟨hlength, hfourth, hseventh, htenth, hthirteenth, hsixteenth, hlast⟩, h⟩ := h
    split at h
    · next year month day hour minute second hyear hmonth hday hhour hminute hsecond =>
      rw [decide_eq_true_eq] at h
      obtain ⟨hyear, hyear_lt⟩ := slice_eq (by omega) hyear
      obtain ⟨hmonth, -⟩ := slice_eq (by omega) hmonth
      obtain ⟨hday, -⟩ := slice_eq (by omega) hday
      obtain ⟨hhour, -⟩ := slice_eq (by omega) hhour
      obtain ⟨hminute, -⟩ := slice_eq (by omega) hminute
      obtain ⟨hsecond, -⟩ := slice_eq (by omega) hsecond
      have hfields : InRange year month day hour minute second :=
        ⟨⟨h.1, hyear_lt⟩, ⟨h.2.1, h.2.2.1⟩, ⟨h.2.2.2.1, h.2.2.2.2.1⟩, h.2.2.2.2.2⟩
      refine ⟨year, month, day, hour, minute, second, hfields, ?_⟩
      apply String.toList_injective
      apply encode_injective
      change asBytes text = asBytes _
      have hend : bytes.drop 20 = [] := List.drop_eq_nil_iff.mpr hlength.le
      rw [hfields.stamp_eq, asBytes_layout, hbytes]
      calc bytes = bytes.drop 0 := rfl
        _ = (layout year month day hour minute second).map byteOf := by
          rw [drop_eq_slice (by decide) hfourth, drop_eq_slice (by decide) hseventh,
            drop_eq_slice (by decide) htenth, drop_eq_slice (by decide) hthirteenth,
            drop_eq_slice (by decide) hsixteenth, drop_eq_slice (by decide) hlast, hend, hyear,
            hmonth, hday, hhour, hminute, hsecond]
          simp only [layout, List.map_append, List.map_cons, List.map_nil]
          rfl
    · cases h
  · rintro ⟨year, month, day, hour, minute, second, hfields, rfl⟩
    obtain ⟨hyear, hmonth, hday, hhour, hminute, hsecond⟩ := id hfields
    obtain ⟨bytes, hbytes⟩ : ∃ bytes,
        bytes = (layout year month day hour minute second).map byteOf := ⟨_, rfl⟩
    have hmarks : bytes.length = 20 ∧ bytes[4]? = some 45 ∧ bytes[7]? = some 45 ∧
        bytes[10]? = some 84 ∧ bytes[13]? = some 58 ∧ bytes[16]? = some 58 ∧
        bytes[19]? = some 90 := by
      rw [hbytes]
      exact ⟨rfl, rfl, rfl, rfl, rfl, rfl, rfl⟩
    have hread : digits (slice bytes 0 4) = some year ∧ digits (slice bytes 5 7) = some month ∧
        digits (slice bytes 8 10) = some day ∧ digits (slice bytes 11 13) = some hour ∧
        digits (slice bytes 14 16) = some minute ∧ digits (slice bytes 17 19) = some second := by
      rw [hbytes]
      exact ⟨digits_fixedDigits 4 (by omega), digits_fixedDigits 2 (by omega),
        digits_fixedDigits 2 (by omega), digits_fixedDigits 2 (by omega),
        digits_fixedDigits 2 (by omega), digits_fixedDigits 2 (by omega)⟩
    unfold slice at hread
    unfold validUtcTimestamp
    dsimp only
    rw [hfields.stamp_eq, asBytes_layout, ← hbytes, decide_eq_true hmarks, hread.1, hread.2.1,
      hread.2.2.1, hread.2.2.2.1, hread.2.2.2.2.1, hread.2.2.2.2.2]
    exact decide_eq_true ⟨by omega, by omega, by omega, by omega, by omega, by omega, by omega,
      by omega⟩

/-! ### Printed times -/

/-- The seconds from 1970-01-01T00:00:00Z to the end of year 9999. -/
def lastInstant : ℕ := 253402300799

theorem monthLength_le (year month : ℕ) : monthLength year month ≤ 31 := by
  unfold monthLength
  split_ifs <;> omega

/-- The years from 1970 to 9999 have the days of these instants. -/
theorem year_mem_iff {date : Date} : (1970 ≤ date.year ∧ date.year < 10000) ↔
    epoch.number ≤ date.number ∧ date.number < epoch.number + 2932897 := by
  have hfirst : daysBeforeYear 1970 + 1969 / 100 = 365 * 1970 + 1969 / 4 + 1969 / 400 + 1 :=
    daysBeforeYear_of_succ (by decide)
  have hlast : daysBeforeYear 10000 + 9999 / 100 = 365 * 10000 + 9999 / 4 + 9999 / 400 + 1 :=
    daysBeforeYear_of_succ (by decide)
  have hupper := date.number_lt
  have hlower : daysBeforeYear date.year ≤ date.number := by
    unfold Date.number
    omega
  rw [epoch_number]
  constructor
  · rintro ⟨hyear, hyear_lt⟩
    have := daysBeforeYear_mono hyear
    have : daysBeforeYear (date.year + 1) ≤ daysBeforeYear 10000 := daysBeforeYear_mono hyear_lt
    omega
  · rintro ⟨hnumber, hnumber_lt⟩
    constructor
    · by_contra hearly
      have : daysBeforeYear (date.year + 1) ≤ daysBeforeYear 1970 :=
        daysBeforeYear_mono (Nat.lt_of_not_le hearly)
      omega
    · by_contra hlate
      have := daysBeforeYear_mono (Nat.le_of_not_lt hlate)
      omega

/-- The printed time is the date of the day and the time within the day. -/
theorem utcTimestamp_eq (seconds : UInt64) : ∃ date : Date,
    date.number = epoch.number + dayOf seconds ∧ utcTimestamp seconds = some (stamp date.year
      date.month date.day (seconds.toNat % 86400 / 3600) (seconds.toNat % 86400 % 3600 / 60)
      (seconds.toNat % 86400 % 60)) := by
  obtain ⟨date, hdate, hnumber⟩ := civilFromDays_eq (dayOf_lt seconds)
  have hdays : dayOf seconds < 2 ^ 63 := (dayOf_lt seconds).trans (by decide)
  refine ⟨date, hnumber, ?_⟩
  unfold utcTimestamp
  dsimp only
  unfold dayOf at hdate hdays
  rw [if_pos hdays, hdate]
  rfl

/-- The times printed up to the end of year 9999 are those in range whose date exists. -/
theorem exists_instant_iff {text : String} :
    (∃ seconds : UInt64, seconds.toNat ≤ lastInstant ∧ utcTimestamp seconds = some text) ↔
      ∃ year month day hour minute second, InRange year month day hour minute second ∧
        day ≤ monthLength year month ∧ text = stamp year month day hour minute second := by
  constructor
  · rintro ⟨seconds, hlast, htext⟩
    obtain ⟨date, hnumber, hstamp⟩ := utcTimestamp_eq seconds
    rw [hstamp, Option.some.injEq] at htext
    have hyear : 1970 ≤ date.year ∧ date.year < 10000 := by
      rw [year_mem_iff, hnumber]
      unfold lastInstant at hlast
      unfold dayOf
      omega
    have hday := date.day_mem.2.trans (monthLength_le _ _)
    exact ⟨_, _, _, _, _, _, ⟨hyear, date.month_mem, ⟨date.day_mem.1, hday⟩, by omega⟩,
      date.day_mem.2, htext.symm⟩
  · rintro ⟨year, month, day, hour, minute, second, hfields, hday, rfl⟩
    obtain ⟨date, hdate⟩ : ∃ date : Date, date = ⟨year, month, day, hfields.month,
      ⟨hfields.day.1, hday⟩⟩ := ⟨_, rfl⟩
    have hyear : date.year = year ∧ date.month = month ∧ date.day = day := by
      rw [hdate]
      exact ⟨rfl, rfl, rfl⟩
    obtain ⟨hlower, hupper⟩ := year_mem_iff.mp (hyear.1.symm ▸ hfields.year)
    obtain ⟨days, hdays⟩ := Nat.exists_eq_add_of_le hlower
    obtain ⟨hhour, hminute, hsecond⟩ := hfields.time
    obtain ⟨total, htotal⟩ : ∃ total,
        total = 86400 * days + (3600 * hour + (60 * minute + second)) := ⟨_, rfl⟩
    have hsize : total < 2 ^ 64 := by omega
    have hvalue : (UInt64.ofNat total).toNat = total := by
      rw [UInt64.toNat_ofNat', Nat.mod_eq_of_lt hsize]
    refine ⟨UInt64.ofNat total, ?_, ?_⟩
    · rw [hvalue]
      unfold lastInstant
      omega
    · obtain ⟨printed, hnumber, hstamp⟩ := utcTimestamp_eq (UInt64.ofNat total)
      have hsame : printed = date := by
        apply Date.number_injective
        rw [hnumber, hdays]
        unfold dayOf
        rw [hvalue]
        omega
      have htime : total % 86400 / 3600 = hour ∧ total % 86400 % 3600 / 60 = minute ∧
          total % 86400 % 60 = second := by omega
      rw [hstamp, hsame, hvalue, htime.1, htime.2.1, htime.2.2, hyear.1, hyear.2.1, hyear.2.2]

/-! ### The day of the month -/

/-- A text of the fixed form that names a day after the end of its month. -/
def NamesMissingDay (text : String) : Prop :=
  ∃ year month day hour minute second, InRange year month day hour minute second ∧
    monthLength year month < day ∧ text = stamp year month day hour minute second

theorem fixedDigits_inj {width n m : ℕ} (hn : n < 10 ^ width) (hm : m < 10 ^ width)
    (h : fixedDigits width n = fixedDigits width m) : n = m := by
  have hread := digits_fixedDigits width hn
  rw [h, digits_fixedDigits width hm] at hread
  exact (Option.some.inj hread).symm

/-- The fixed form determines the date. -/
theorem InRange.date_eq {year month day hour minute second year' month' day' hour' minute' second' :
      ℕ} (h : InRange year month day hour minute second)
    (h' : InRange year' month' day' hour' minute' second')
    (heq : stamp year month day hour minute second =
      stamp year' month' day' hour' minute' second') :
    year = year' ∧ month = month' ∧ day = day' := by
  rw [h.stamp_eq, h'.stamp_eq] at heq
  have hlayout := String.ofList_injective heq
  have hlength (width n m : ℕ) : (fixedDigits width n).length = (fixedDigits width m).length :=
    (length_fixedDigits width n).trans (length_fixedDigits width m).symm
  obtain ⟨hyear, hrest⟩ := List.append_inj hlayout (hlength _ _ _)
  obtain ⟨hmonth, hrest⟩ := List.append_inj (List.cons.inj hrest).2 (hlength _ _ _)
  obtain ⟨hday, -⟩ := List.append_inj (List.cons.inj hrest).2 (hlength _ _ _)
  obtain ⟨hyears, hmonths, hdays, -⟩ := h
  obtain ⟨hyears', hmonths', hdays', -⟩ := h'
  exact ⟨fixedDigits_inj (by omega) (by omega) hyear, fixedDigits_inj (by omega) (by omega) hmonth,
    fixedDigits_inj (by omega) (by omega) hday⟩

/-- A text that names a day after the end of its month is no printed time. -/
theorem NamesMissingDay.not_instant {text : String} (h : NamesMissingDay text) :
    ¬ ∃ seconds : UInt64, seconds.toNat ≤ lastInstant ∧ utcTimestamp seconds = some text := by
  rw [exists_instant_iff]
  rintro ⟨_, _, _, _, _, _, hfields, hday, rfl⟩
  obtain ⟨_, _, _, _, _, _, hfields', hmissing, heq⟩ := h
  obtain ⟨rfl, rfl, rfl⟩ := hfields.date_eq hfields' heq
  exact absurd hday (Nat.not_le_of_lt hmissing)

/-- The check accepts exactly the printed times, unless the text names a day after the end of its
month: such a text it accepts. -/
theorem validUtcTimestamp_exact (text : String) :
    (validUtcTimestamp text = true ↔
      ∃ seconds : UInt64, seconds.toNat ≤ lastInstant ∧ utcTimestamp seconds = some text) ↔
    ¬ NamesMissingDay text := by
  constructor
  · intro h hmissing
    have hvalid : validUtcTimestamp text = true := by
      obtain ⟨year, month, day, hour, minute, second, hfields, -, htext⟩ := hmissing
      exact validUtcTimestamp_iff.mpr ⟨year, month, day, hour, minute, second, hfields, htext⟩
    exact hmissing.not_instant (h.mp hvalid)
  · intro hnone
    rw [validUtcTimestamp_iff, exists_instant_iff]
    constructor
    · rintro ⟨year, month, day, hour, minute, second, hfields, htext⟩
      by_cases hday : day ≤ monthLength year month
      · exact ⟨year, month, day, hour, minute, second, hfields, hday, htext⟩
      · exact absurd ⟨year, month, day, hour, minute, second, hfields, Nat.lt_of_not_le hday, htext⟩
          hnone
    · rintro ⟨year, month, day, hour, minute, second, hfields, -, htext⟩
      exact ⟨year, month, day, hour, minute, second, hfields, htext⟩

/-- The 30th of February passes. -/
theorem validUtcTimestamp_february : validUtcTimestamp "2023-02-30T00:00:00Z" = true ∧
    ¬ ∃ seconds : UInt64, seconds.toNat ≤ lastInstant ∧
      utcTimestamp seconds = some "2023-02-30T00:00:00Z" := by
  have hmissing : NamesMissingDay "2023-02-30T00:00:00Z" :=
    ⟨2023, 2, 30, 0, 0, 0, ⟨by decide, by decide, by decide, by decide⟩, by decide, by decide⟩
  exact ⟨by decide, hmissing.not_instant⟩

end ContextMesh.Receipt
