import ContextMesh.Foundation.Calendar
import Mathlib.Tactic.IntervalCases

/-!
The creation time of a receipt. The program computes the date of a day count by era arithmetic on
`i64` and prints it with the time of the day.
-/

set_option autoImplicit false
set_option relaxedAutoImplicit false

namespace ContextMesh.Receipt

open Calendar

/-! ### The date of a day -/

/-- A value that an `i64` operation computes, nothing when it overflows. -/
def i64 (x : ℤ) : Option ℤ := if -(2 ^ 63) ≤ x ∧ x < 2 ^ 63 then some x else none

/-- `u32::try_from(x).unwrap_or(0)` -/
def u32OrZero (x : ℤ) : ℕ := if 0 ≤ x ∧ x < 2 ^ 32 then x.toNat else 0

/-- The year, month and day of a day counted from 1970-01-01. Division on `i64` truncates, and
`div_euclid` and `rem_euclid` round down. -/
def civilFromDays (days : ℤ) : Option (ℤ × ℕ × ℕ) := do
  let z ← i64 (days + 719468)
  let era := z / 146097
  let doe := z % 146097
  let spread ← i64 (doe - doe.tdiv 1460)
  let spread ← i64 (spread + doe.tdiv 36524)
  let spread ← i64 (spread - doe.tdiv 146096)
  let yoe := spread.tdiv 365
  let eras ← i64 (era * 400)
  let y ← i64 (yoe + eras)
  let before ← i64 (365 * yoe)
  let before ← i64 (before + yoe.tdiv 4)
  let before ← i64 (before - yoe.tdiv 100)
  let doy ← i64 (doe - before)
  let fifths ← i64 (5 * doy)
  let fifths ← i64 (fifths + 2)
  let mp := fifths.tdiv 153
  let first ← i64 (153 * mp)
  let first ← i64 (first + 2)
  let offset ← i64 (doy - first.tdiv 5)
  let day ← i64 (offset + 1)
  let month ← if mp < 10 then i64 (mp + 3) else i64 (mp - 9)
  let year ← if month ≤ 2 then i64 (y + 1) else some y
  some (year, u32OrZero month, u32OrZero day)

theorem bind_i64 {α : Type} {x : ℤ} {f : ℤ → Option α} (hlower : -(2 ^ 63) ≤ x)
    (hupper : x < 2 ^ 63) : (i64 x >>= f) = f x := by
  rw [i64, if_pos ⟨hlower, hupper⟩]
  rfl

/-- An era is four centuries of years in fours, but for its last day. -/
theorem era_split {doe : ℕ} (h : doe < 146097) : doe = 146096 ∨
    ∃ c q t, doe = 36524 * c + 1461 * q + t ∧ c ≤ 3 ∧ q ≤ 24 ∧ t ≤ 1460 ∧
      1461 * q + t < 36524 := by
  by_cases hlast : doe = 146096
  · exact Or.inl hlast
  · exact Or.inr ⟨doe / 36524, doe % 36524 / 1461, doe % 36524 % 1461, by omega, by omega,
      by omega, by omega, by omega⟩

/-- The year of a day of an era, and the day in this year, which begins in March. Its last year day
is a leap day. -/
theorem year_of_era {doe yoe : ℕ} (h : doe < 146097)
    (hyoe : yoe = (doe - doe / 1460 + doe / 36524 - doe / 146096) / 365) :
    ∃ doy, doe = 365 * yoe + yoe / 4 - yoe / 100 + doy ∧ yoe < 400 ∧ doy ≤ 365 ∧
      (doy = 365 → yoe % 4 = 3 ∧ (yoe % 100 = 99 → yoe = 399)) := by
  rcases era_split h with rfl | ⟨c, q, t, rfl, hc, hq, ht, hr⟩
  · subst hyoe
    exact ⟨365, by decide⟩
  · have hcenturies : (36524 * c + 1461 * q + t) / 36524 = c := by omega
    have hlast : (36524 * c + 1461 * q + t) / 146096 = 0 := by omega
    obtain ⟨w, doy, hyear, hw, hdoy⟩ : ∃ w doy, t = 365 * w + doy ∧ w ≤ 3 ∧
        (doy ≤ 364 ∨ (doy = 365 ∧ w = 3)) := by
      by_cases hleap : t = 1460
      · exact ⟨3, 365, by omega, le_rfl, Or.inr ⟨rfl, rfl⟩⟩
      · exact ⟨t / 365, t % 365, by omega, by omega, Or.inl (by omega)⟩
    have hyears : yoe = 100 * c + 4 * q + w := by
      rw [hcenturies, hlast] at hyoe
      omega
    have hfours : yoe / 4 = 25 * c + q := by omega
    have hhundreds : yoe / 100 = c := by omega
    exact ⟨doy, by omega, by omega, by omega, by omega⟩

/-- The days before a month of a year, from March on. -/
theorem daysBeforeMonth_march {year mp : ℕ} (h : mp ≤ 9) :
    daysBeforeMonth year (mp + 3) + 365 = yearLength year + 59 + (153 * mp + 2) / 5 := by
  rw [yearLength_eq]
  by_cases hleap : IsLeap year
  · interval_cases mp <;> simp [daysBeforeMonth, Finset.sum_Ico_succ_top, monthLength, hleap]
  · interval_cases mp <;> simp [daysBeforeMonth, Finset.sum_Ico_succ_top, monthLength, hleap]

/-- A day of a month from March on exists when it is before the first day of the next month. -/
theorem monthLength_march {year mp : ℕ} (h : mp ≤ 9) :
    monthLength year (mp + 3) + (153 * mp + 2) / 5 = (153 * (mp + 1) + 2) / 5 := by
  interval_cases mp <;> rfl

/-- The date of a day in a year that begins in March. -/
theorem exists_date {y doy mp : ℕ} (hdoy : doy ≤ 365) (hleap : doy = 365 → IsLeap (y + 1))
    (hmp : mp = (5 * doy + 2) / 153) : ∃ date : Date,
      date.year = (if mp < 10 then y else y + 1) ∧
      date.month = (if mp < 10 then mp + 3 else mp - 9) ∧
      date.day = doy - (153 * mp + 2) / 5 + 1 ∧
      date.number + y / 100 = 365 * y + y / 4 + y / 400 + 60 + doy := by
  have hyears := daysBeforeYear_eq y
  have hsucc : daysBeforeYear (y + 1) = daysBeforeYear y + yearLength y :=
    Finset.sum_range_succ _ _
  have hlower : (153 * mp + 2) / 5 ≤ doy := by omega
  have hupper : doy < (153 * (mp + 1) + 2) / 5 := by omega
  by_cases hmarch : mp < 10
  · have hmonth := @monthLength_march y mp (by omega)
    have hbefore := @daysBeforeMonth_march y mp (by omega)
    refine ⟨⟨y, mp + 3, doy - (153 * mp + 2) / 5 + 1, by omega, by omega⟩, (if_pos hmarch).symm,
      (if_pos hmarch).symm, rfl, ?_⟩
    unfold Date.number
    dsimp only
    omega
  · -- January and February belong to the next year, and begin on days 306 and 337 of this one
    have hcases : mp = 10 ∨ mp = 11 := by omega
    rcases hcases with rfl | rfl
    · have hjanuary : monthLength (y + 1) 1 = 31 := rfl
      have hbefore : daysBeforeMonth (y + 1) 1 = 0 := rfl
      refine ⟨⟨y + 1, 1, doy - 306 + 1, by omega, by omega⟩, rfl, rfl, rfl, ?_⟩
      unfold Date.number
      dsimp only
      omega
    · have hbefore : daysBeforeMonth (y + 1) 2 = 31 := rfl
      have hfebruary : doy - 337 + 1 ≤ monthLength (y + 1) 2 := by
        change _ ≤ if IsLeap (y + 1) then 29 else 28
        split_ifs with hyear
        · omega
        · have : doy ≠ 365 := fun h ↦ hyear (hleap h)
          omega
      refine ⟨⟨y + 1, 2, doy - 337 + 1, by omega, ⟨by omega, hfebruary⟩⟩, rfl, rfl, rfl, ?_⟩
      unfold Date.number
      dsimp only
      omega

theorem u32OrZero_natCast {n : ℕ} (h : n < 2 ^ 32) : u32OrZero n = n := by
  rw [u32OrZero, if_pos ⟨Int.natCast_nonneg n, by exact_mod_cast h⟩, Int.toNat_natCast]

/-- The first day counted from, 1970-01-01. -/
def epoch : Date := .first 1970 1 (by decide)

theorem epoch_number : epoch.number = 719528 := by
  have hyears : daysBeforeYear 1970 + 1969 / 100 = 365 * 1970 + 1969 / 4 + 1969 / 400 + 1 :=
    daysBeforeYear_of_succ (by decide)
  have hbefore : daysBeforeMonth 1970 1 = 0 := rfl
  rw [epoch, Date.number_first]
  omega

/-- The intermediate values of the era arithmetic, none of which leaves `i64`. -/
theorem civilFromDays_steps {days era doe yoe doy mp offset : ℤ}
    (hera : (days + 719468) / 146097 = era) (hdoe : (days + 719468) % 146097 = doe)
    (hyoe : (doe - doe.tdiv 1460 + doe.tdiv 36524 - doe.tdiv 146096).tdiv 365 = yoe)
    (hdoy : doe - (365 * yoe + yoe.tdiv 4 - yoe.tdiv 100) = doy)
    (hmp : (5 * doy + 2).tdiv 153 = mp) (hoffset : (153 * mp + 2).tdiv 5 = offset)
    (hdays : 0 ≤ days ∧ days < 2 ^ 48) (hyears : 0 ≤ yoe ∧ yoe < 400) (hday : 0 ≤ doy ∧ doy ≤ 365) :
    civilFromDays days = some
      (if mp < 10 then yoe + era * 400 else yoe + era * 400 + 1,
        u32OrZero (if mp < 10 then mp + 3 else mp - 9), u32OrZero (doy - offset + 1)) := by
  have hdoe_mem : 0 ≤ doe ∧ doe < 146097 := by omega
  have hera_mem : 0 ≤ era ∧ era < 2 ^ 48 := by omega
  have htrunc {x : ℤ} (y : ℤ) (hx : 0 ≤ x) : x.tdiv y = x / y := Int.tdiv_eq_ediv_of_nonneg hx
  have hmp_mem : 0 ≤ mp ∧ mp ≤ 11 := by
    rw [htrunc _ (by omega)] at hmp
    omega
  have hoffset_mem : 0 ≤ offset ∧ offset ≤ 337 := by
    rw [htrunc _ (by omega)] at hoffset
    omega
  have hspread : 0 ≤ doe.tdiv 1460 ∧ doe.tdiv 1460 ≤ 100 ∧ 0 ≤ doe.tdiv 36524 ∧
      doe.tdiv 36524 ≤ 4 ∧ 0 ≤ doe.tdiv 146096 ∧ doe.tdiv 146096 ≤ 1 := by
    rw [htrunc _ hdoe_mem.1, htrunc _ hdoe_mem.1, htrunc _ hdoe_mem.1]
    omega
  have hbefore : 0 ≤ yoe.tdiv 4 ∧ yoe.tdiv 4 < 100 ∧ 0 ≤ yoe.tdiv 100 ∧ yoe.tdiv 100 < 4 := by
    rw [htrunc _ hyears.1, htrunc _ hyears.1]
    omega
  unfold civilFromDays
  refine (bind_i64 (by omega) (by omega)).trans ?_
  dsimp only
  rw [hera, hdoe]
  clear hera hdoe
  refine (bind_i64 (by omega) (by omega)).trans ?_
  refine (bind_i64 (by omega) (by omega)).trans ?_
  refine (bind_i64 (by omega) (by omega)).trans ?_
  rw [hyoe]
  refine (bind_i64 (by omega) (by omega)).trans ?_
  refine (bind_i64 (by omega) (by omega)).trans ?_
  refine (bind_i64 (by omega) (by omega)).trans ?_
  refine (bind_i64 (by omega) (by omega)).trans ?_
  refine (bind_i64 (by omega) (by omega)).trans ?_
  refine (bind_i64 (by omega) (by omega)).trans ?_
  rw [hdoy]
  refine (bind_i64 (by omega) (by omega)).trans ?_
  refine (bind_i64 (by omega) (by omega)).trans ?_
  rw [hmp]
  refine (bind_i64 (by omega) (by omega)).trans ?_
  refine (bind_i64 (by omega) (by omega)).trans ?_
  rw [hoffset]
  refine (bind_i64 (by omega) (by omega)).trans ?_
  refine (bind_i64 (by omega) (by omega)).trans ?_
  by_cases hmarch : mp < 10
  · rw [if_pos hmarch, if_pos hmarch, if_pos hmarch]
    refine (bind_i64 (by omega) (by omega)).trans ?_
    rw [if_neg (by omega)]
    rfl
  · rw [if_neg hmarch, if_neg hmarch, if_neg hmarch]
    refine (bind_i64 (by omega) (by omega)).trans ?_
    rw [if_pos (by omega)]
    exact bind_i64 (by omega) (by omega)

theorem tdiv_natCast {x : ℤ} {n : ℕ} (h : x = n) (m : ℕ) : x.tdiv m = (n / m : ℕ) := by
  rw [h, Int.tdiv_eq_ediv_of_nonneg (Int.natCast_nonneg n), Int.natCast_ediv]

theorem yoe_natCast {doe yoe : ℕ}
    (h : yoe = (doe - doe / 1460 + doe / 36524 - doe / 146096) / 365) :
    ((doe : ℤ) - (doe : ℤ).tdiv 1460 + (doe : ℤ).tdiv 36524 - (doe : ℤ).tdiv 146096).tdiv 365 =
      yoe := by
  have hfirst := tdiv_natCast (x := (doe : ℤ)) rfl 1460
  have hsecond := tdiv_natCast (x := (doe : ℤ)) rfl 36524
  have hthird := tdiv_natCast (x := (doe : ℤ)) rfl 146096
  rw [h]
  refine tdiv_natCast ?_ 365
  push_cast at hfirst hsecond hthird
  rw [hfirst, hsecond, hthird]
  omega

theorem doy_natCast {doe yoe doy : ℕ} (h : doe = 365 * yoe + yoe / 4 - yoe / 100 + doy) :
    (doe : ℤ) - (365 * (yoe : ℤ) + (yoe : ℤ).tdiv 4 - (yoe : ℤ).tdiv 100) = doy := by
  have hfirst := tdiv_natCast (x := (yoe : ℤ)) rfl 4
  have hsecond := tdiv_natCast (x := (yoe : ℤ)) rfl 100
  push_cast at hfirst hsecond
  rw [hfirst, hsecond]
  omega

/-- The era arithmetic finds the date of the day, by its number. -/
theorem civilFromDays_eq {days : ℕ} (h : days < 2 ^ 48) : ∃ date : Date,
    civilFromDays days = some ((date.year : ℤ), date.month, date.day) ∧
      date.number = epoch.number + days := by
  obtain ⟨era, doe, hdays, hdoe⟩ : ∃ era doe, days + 719468 = 146097 * era + doe ∧ doe < 146097 :=
    ⟨_, _, (Nat.div_add_mod _ 146097).symm, Nat.mod_lt _ (by decide)⟩
  obtain ⟨yoe, hyoe⟩ : ∃ yoe, yoe = (doe - doe / 1460 + doe / 36524 - doe / 146096) / 365 :=
    ⟨_, rfl⟩
  obtain ⟨doy, hday, hyears, hdoy, hlast⟩ := year_of_era hdoe hyoe
  obtain ⟨mp, hmp⟩ : ∃ mp, mp = (5 * doy + 2) / 153 := ⟨_, rfl⟩
  have hyoe := yoe_natCast hyoe
  have hleap : doy = 365 → IsLeap (yoe + era * 400 + 1) := by
    intro hdoy
    obtain ⟨hfour, hhundred⟩ := hlast hdoy
    clear hday hmp hyoe hlast hdays
    unfold IsLeap
    omega
  obtain ⟨date, hyear, hmonth, hdate, hnumber⟩ := exists_date hdoy hleap hmp
  have hmp_cast : (5 * (doy : ℤ) + 2).tdiv 153 = mp := by
    rw [hmp]
    exact tdiv_natCast (by push_cast; rfl) 153
  have hoffset : (153 * (mp : ℤ) + 2).tdiv 5 = ((153 * mp + 2) / 5 : ℕ) :=
    tdiv_natCast (by push_cast; rfl) 5
  refine ⟨date, ?_, ?_⟩
  · have hsteps := @civilFromDays_steps days era doe yoe doy mp _ (by omega) (by omega) hyoe
      (doy_natCast hday) hmp_cast hoffset (by omega) (by omega) (by omega)
    have hmonth_cast : u32OrZero (if (mp : ℤ) < 10 then mp + 3 else mp - 9) = date.month := by
      rw [← u32OrZero_natCast (date.month_mem.2.trans_lt (by decide)), hmonth]
      exact congrArg u32OrZero (by split_ifs <;> omega)
    have hday_cast : u32OrZero (doy - ((153 * mp + 2) / 5 : ℕ) + 1) = date.day := by
      have hbound : date.day < 2 ^ 32 := by omega
      rw [← u32OrZero_natCast hbound, hdate]
      exact congrArg u32OrZero (by omega)
    rw [hsteps, hmonth_cast, hday_cast, hyear]
    split_ifs <;> first | rfl | omega
  · have hfour : (yoe + era * 400) / 4 = yoe / 4 + 100 * era := by omega
    have hhundred : (yoe + era * 400) / 100 = yoe / 100 + 4 * era := by omega
    have heras : (yoe + era * 400) / 400 = era := by omega
    rw [hfour, hhundred, heras] at hnumber
    rw [epoch_number]
    omega

/-- The day of a Unix time. -/
def dayOf (seconds : UInt64) : ℕ := seconds.toNat / 86400

theorem dayOf_lt (seconds : UInt64) : dayOf seconds < 2 ^ 48 := by
  have := seconds.toNat_lt
  unfold dayOf
  omega

/-- On every day that a Unix time can give, the era arithmetic is without overflow and finds an
existing date, which comes as many days after 1970-01-01 as were counted. Distinct days have
distinct dates, and the next day has the next date. -/
theorem civilFromDays_inverse (seconds : UInt64) : ∃ date : Date,
    civilFromDays (dayOf seconds) = some ((date.year : ℤ), date.month, date.day) ∧
    date.number = epoch.number + dayOf seconds ∧ date = Date.next^[dayOf seconds] epoch ∧
    (∀ other, civilFromDays (dayOf other) = civilFromDays (dayOf seconds) →
      dayOf other = dayOf seconds) ∧
    ∀ other, dayOf other = dayOf seconds + 1 → civilFromDays (dayOf other) =
      some ((date.next.year : ℤ), date.next.month, date.next.day) := by
  obtain ⟨date, hdate, hnumber⟩ := civilFromDays_eq (dayOf_lt seconds)
  refine ⟨date, hdate, hnumber, Date.eq_iterate hnumber, fun other heq ↦ ?_, fun other hnext ↦ ?_⟩
  · obtain ⟨same, hsame, hother⟩ := civilFromDays_eq (dayOf_lt other)
    rw [hdate, hsame, Option.some.injEq, Prod.mk.injEq, Prod.mk.injEq] at heq
    have hequal : same = date :=
      Date.ext_fields (Int.natCast_inj.mp heq.1) heq.2.1 heq.2.2
    rw [hequal] at hother
    omega
  · obtain ⟨following, hfollowing, hother⟩ := civilFromDays_eq (dayOf_lt other)
    have hequal : following = date.next := by
      apply Date.number_injective
      rw [Date.number_next]
      omega
    rw [hfollowing, hequal]

/-! ### Printing -/

/-- `{n:0width}`: the decimal digits, with zeros in front up to the width. -/
def zeroPadded (width n : ℕ) : List Char := List.leftpad width '0' (Nat.toDigits 10 n)

/-- `{n:0width}` of a signed number, whose sign stands before the zeros. -/
def zeroPaddedInt (width : ℕ) : ℤ → List Char
  | .ofNat n => zeroPadded width n
  | .negSucc n => '-' :: zeroPadded (width - 1) (n + 1)

/-- `{year:04}-{month:02}-{day:02}T{hour:02}:{minute:02}:{second:02}Z` -/
def stamp (year : ℤ) (month day hour minute second : ℕ) : String :=
  String.ofList (zeroPaddedInt 4 year ++ '-' :: (zeroPadded 2 month ++ '-' :: (zeroPadded 2 day ++
    'T' :: (zeroPadded 2 hour ++ ':' :: (zeroPadded 2 minute ++ ':' ::
      (zeroPadded 2 second ++ ['Z']))))))

/-- The text of a Unix time; nothing when the date arithmetic overflows. -/
def utcTimestamp (seconds : UInt64) : Option String := do
  let days := seconds.toNat / 86400
  let daySeconds := seconds.toNat % 86400
  let (year, month, day) ← civilFromDays (if days < 2 ^ 63 then days else 0)
  let hour := daySeconds / 3600
  let minute := daySeconds % 3600 / 60
  let second := daySeconds % 60
  some (stamp year month day hour minute second)

end ContextMesh.Receipt
