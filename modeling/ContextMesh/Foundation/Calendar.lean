import Mathlib.Algebra.BigOperators.Intervals
import Mathlib.Algebra.Order.BigOperators.Group.Finset
import Mathlib.Algebra.Order.Group.Nat
import Mathlib.Tactic.Common
import Mathlib.Tactic.IntervalCases

/-!
The proleptic Gregorian calendar. A date carries that its month and its day exist. Dates are
counted: the number of a date is the number of days before it since the first day of year 0, the
next date has the next number, and a date is determined by its number.
-/

set_option autoImplicit false
set_option relaxedAutoImplicit false

namespace ContextMesh.Calendar

open Finset

def IsLeap (year : ℕ) : Prop := year % 4 = 0 ∧ (year % 100 ≠ 0 ∨ year % 400 = 0)

instance : DecidablePred IsLeap := fun year ↦
  inferInstanceAs (Decidable (year % 4 = 0 ∧ (year % 100 ≠ 0 ∨ year % 400 = 0)))

def monthLength (year month : ℕ) : ℕ :=
  if month = 2 then if IsLeap year then 29 else 28
  else if month = 4 ∨ month = 6 ∨ month = 9 ∨ month = 11 then 30
  else 31

/-- An existing date. -/
structure Date where
  year : ℕ
  month : ℕ
  day : ℕ
  month_mem : 1 ≤ month ∧ month ≤ 12
  day_mem : 1 ≤ day ∧ day ≤ monthLength year month
  deriving DecidableEq

theorem Date.ext_fields {date other : Date} (hyear : date.year = other.year)
    (hmonth : date.month = other.month) (hday : date.day = other.day) : date = other := by
  cases date
  cases other
  dsimp only at hyear hmonth hday
  subst hyear hmonth hday
  rfl

theorem monthLength_pos (year month : ℕ) : 1 ≤ monthLength year month := by
  unfold monthLength
  split_ifs <;> omega

/-- The first day of a month. -/
def Date.first (year month : ℕ) (h : 1 ≤ month ∧ month ≤ 12) : Date :=
  ⟨year, month, 1, h, le_rfl, monthLength_pos year month⟩

/-- The date of the following day. -/
def Date.next (date : Date) : Date :=
  if h : date.day < monthLength date.year date.month then
    ⟨date.year, date.month, date.day + 1, date.month_mem, Nat.le_add_left 1 date.day, h⟩
  else if h : date.month < 12 then
    .first date.year (date.month + 1) ⟨Nat.le_add_left 1 date.month, h⟩
  else .first (date.year + 1) 1 ⟨le_rfl, by omega⟩

/-! ### Counting days -/

def yearLength (year : ℕ) : ℕ := ∑ month ∈ Ico 1 13, monthLength year month

def daysBeforeYear (year : ℕ) : ℕ := ∑ y ∈ range year, yearLength y

def daysBeforeMonth (year month : ℕ) : ℕ := ∑ m ∈ Ico 1 month, monthLength year m

/-- The number of days before the date, from the first day of year 0. -/
def Date.number (date : Date) : ℕ :=
  daysBeforeYear date.year + daysBeforeMonth date.year date.month + (date.day - 1)

theorem Date.number_first {year month : ℕ} (h : 1 ≤ month ∧ month ≤ 12) :
    (Date.first year month h).number = daysBeforeYear year + daysBeforeMonth year month := rfl

theorem daysBeforeYear_succ (year : ℕ) :
    daysBeforeYear (year + 1) = daysBeforeYear year + daysBeforeMonth year 13 :=
  sum_range_succ _ _

theorem daysBeforeMonth_succ {year month : ℕ} (h : 1 ≤ month) :
    daysBeforeMonth year (month + 1) = daysBeforeMonth year month + monthLength year month :=
  sum_Ico_succ_top h _

theorem daysBeforeMonth_mono (year : ℕ) {month other : ℕ} (h : month ≤ other) :
    daysBeforeMonth year month ≤ daysBeforeMonth year other :=
  sum_le_sum_of_subset (Ico_subset_Ico_right h)

theorem daysBeforeYear_mono {year other : ℕ} (h : year ≤ other) :
    daysBeforeYear year ≤ daysBeforeYear other :=
  sum_le_sum_of_subset (range_subset_range.mpr h)

/-- The following day has the following number. -/
theorem Date.number_next (date : Date) : date.next.number = date.number + 1 := by
  obtain ⟨hday, hlast⟩ := date.day_mem
  unfold Date.next
  split_ifs with hwithin hmonth
  · unfold Date.number
    dsimp only
    omega
  · have hlength : date.day = monthLength date.year date.month := by omega
    have hsucc := @daysBeforeMonth_succ date.year _ date.month_mem.1
    unfold Date.number Date.first
    dsimp only
    omega
  · have hlength : date.day = monthLength date.year date.month := by omega
    have htwelve : date.month = 12 := by
      have := date.month_mem.2
      omega
    have hsucc := @daysBeforeMonth_succ date.year _ date.month_mem.1
    have hyear := daysBeforeYear_succ date.year
    have hfirst : daysBeforeMonth (date.year + 1) 1 = 0 := rfl
    rw [htwelve] at hsucc hlength
    change daysBeforeMonth date.year 13 = _ at hsucc
    unfold Date.number Date.first
    dsimp only
    rw [htwelve]
    omega

theorem Date.number_iterate (date : Date) (count : ℕ) :
    (Date.next^[count] date).number = date.number + count := by
  induction count with
  | zero => rfl
  | succ count ih =>
    rw [Function.iterate_succ_apply', Date.number_next, ih]
    rfl

/-- A date lies within its month. -/
theorem Date.day_lt (date : Date) : daysBeforeMonth date.year date.month + (date.day - 1) <
    daysBeforeMonth date.year (date.month + 1) := by
  obtain ⟨hday, hlast⟩ := date.day_mem
  rw [daysBeforeMonth_succ date.month_mem.1]
  omega

/-- A date lies within its year. -/
theorem Date.number_lt (date : Date) : date.number < daysBeforeYear (date.year + 1) := by
  have hday := date.day_lt
  have hmonth : daysBeforeMonth date.year (date.month + 1) ≤ daysBeforeMonth date.year 13 :=
    daysBeforeMonth_mono date.year (Nat.add_le_add_right date.month_mem.2 1)
  rw [daysBeforeYear_succ]
  unfold Date.number
  omega

theorem Date.year_le {date other : Date} (h : date.number ≤ other.number) :
    date.year ≤ other.year := by
  by_contra hlt
  have hyears := daysBeforeYear_mono (Nat.succ_le_of_lt (Nat.lt_of_not_le hlt))
  have hother := other.number_lt
  unfold Date.number at h hother
  rw [Nat.succ_eq_add_one] at hyears
  omega

/-- A date is determined by its number. -/
theorem Date.number_injective : Function.Injective Date.number := by
  intro date other h
  have hyear : date.year = other.year := le_antisymm (Date.year_le h.le) (Date.year_le h.ge)
  have hwithin : daysBeforeMonth date.year date.month + (date.day - 1) =
      daysBeforeMonth date.year other.month + (other.day - 1) := by
    unfold Date.number at h
    rw [← hyear] at h
    omega
  have hfirst := date.day_lt
  have hsecond := other.day_lt
  rw [← hyear] at hsecond
  have hmonth : date.month = other.month := by
    by_contra hne
    rcases Nat.lt_or_gt_of_ne hne with hlt | hlt
    · have := daysBeforeMonth_mono date.year (Nat.succ_le_of_lt hlt)
      rw [Nat.succ_eq_add_one] at this
      omega
    · have := daysBeforeMonth_mono date.year (Nat.succ_le_of_lt hlt)
      rw [Nat.succ_eq_add_one] at this
      omega
  have hday : date.day = other.day := by
    have := date.day_mem.1
    have := other.day_mem.1
    rw [hmonth] at hwithin
    omega
  exact Date.ext_fields hyear hmonth hday

/-- The date a number of days after another is found by its number. -/
theorem Date.eq_iterate {date other : Date} {count : ℕ}
    (h : other.number = date.number + count) : other = Date.next^[count] date := by
  apply Date.number_injective
  rw [h, Date.number_iterate]

/-! ### Closed forms -/

theorem yearLength_eq (year : ℕ) : yearLength year = if IsLeap year then 366 else 365 := by
  unfold yearLength
  by_cases hleap : IsLeap year
  · simp [sum_Ico_succ_top, monthLength, hleap]
  · simp [sum_Ico_succ_top, monthLength, hleap]

/-- Every fourth year is leap, but of the centuries only every fourth. -/
theorem yearLength_add (year : ℕ) : yearLength year + (if year % 100 = 0 then 1 else 0) =
    365 + (if year % 4 = 0 then 1 else 0) + if year % 400 = 0 then 1 else 0 := by
  have hcentury : year % 100 = 0 → year % 4 = 0 := by omega
  have hera : year % 400 = 0 → year % 100 = 0 := by omega
  rw [yearLength_eq]
  unfold IsLeap
  by_cases hfourth : year % 4 = 0
  · by_cases hhundredth : year % 100 = 0
    · simp only [hfourth, hhundredth, ne_eq, not_true_eq_false, false_or, true_and, if_true]
      split_ifs <;> rfl
    · simp [hfourth, hhundredth, mt hera hhundredth]
  · simp [hfourth, mt hcentury hfourth, mt hera (mt hcentury hfourth)]

theorem daysBeforeYear_eq (year : ℕ) : daysBeforeYear (year + 1) + year / 100 =
    365 * (year + 1) + year / 4 + year / 400 + 1 := by
  induction year with
  | zero =>
    change ∑ y ∈ range 1, yearLength y + 0 = _
    rw [sum_range_one, yearLength_eq]
    rfl
  | succ year ih =>
    have hsucc : daysBeforeYear (year + 1 + 1) = daysBeforeYear (year + 1) +
        yearLength (year + 1) := sum_range_succ _ _
    have hlength := yearLength_add (year + 1)
    simp only [hsucc, Nat.succ_div, Nat.dvd_iff_mod_eq_zero]
    omega

/-- The days before a year, by the year that precedes it. -/
theorem daysBeforeYear_of_succ {year previous : ℕ} (h : year = previous + 1) :
    daysBeforeYear year + previous / 100 =
      365 * year + previous / 4 + previous / 400 + 1 := by
  rw [h]
  exact daysBeforeYear_eq previous

end ContextMesh.Calendar
