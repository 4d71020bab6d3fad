import Cindral.Base.Text
import Mathlib.Tactic.NormNum

/-! The proleptic Gregorian calendar in UTC: days since 1970-01-01, and months counted from March of year 0. -/

namespace Cindral.Base

def secondsPerDay : ℚ := 24 * 60 * 60

/-- The day a `datetime` read from a clock falls on. It holds whole microseconds, a tie going to the
even one. -/
def dayOf (epoch : ℚ) : ℤ := roundHalfEven (epoch * 10 ^ 6) / (24 * 60 * 60 * 10 ^ 6)

/-- The first day of a month. A year here begins in March, so the leap day ends it. -/
def monthFirst (month : ℤ) : ℤ :=
  let year := month / 12
  365 * year + year / 4 - year / 100 + year / 400 + (153 * (month % 12) + 2) / 5 - 719468

/-- The month a day falls in, found inside its cycle of 400 years. -/
def monthOf (day : ℤ) : ℤ :=
  let shifted := day + 719468
  let cycle := shifted / 146097
  let dayOfCycle := shifted % 146097
  let yearOfCycle := (dayOfCycle - dayOfCycle / 1460 + dayOfCycle / 36524 - dayOfCycle / 146096) / 365
  let dayOfYear := dayOfCycle - (365 * yearOfCycle + yearOfCycle / 4 - yearOfCycle / 100)
  12 * (400 * cycle + yearOfCycle) + (5 * dayOfYear + 2) / 153

/-- The first instant of the UTC month an instant falls in. -/
def monthStart (epoch : ℚ) : ℚ := monthFirst (monthOf (dayOf epoch)) * secondsPerDay

-- 2024-02-29, 2025-02-28 and 2000-03-01, each with the first of its month
example : [19782, 20147, 11017].map (fun day => (day, monthFirst (monthOf day))) =
    [(19782, 19754), (20147, 20120), (11017, 11017)] := by decide

def inMonth (month : ℤ) (epoch : ℚ) : Bool :=
  monthFirst month * secondsPerDay ≤ epoch && epoch < monthFirst (month + 1) * secondsPerDay

theorem monthFirst_lt_succ (month : ℤ) : monthFirst month < monthFirst (month + 1) := by
  have parts := Int.mul_ediv_add_emod month 12
  have range := Int.emod_lt_of_pos month (show (0 : ℤ) < 12 by decide)
  have below := Int.emod_nonneg month (show (12 : ℤ) ≠ 0 by decide)
  simp only [monthFirst]
  generalize month / 12 = year at parts ⊢
  generalize month % 12 = index at parts range below ⊢
  rcases Int.lt_or_le index 11 with inside | last
  · have year' : (month + 1) / 12 = year := by omega
    have index' : (month + 1) % 12 = index + 1 := by omega
    rw [year', index']
    omega
  · have year' : (month + 1) / 12 = year + 1 := by omega
    have index' : (month + 1) % 12 = 0 := by omega
    rw [year', index']
    omega

theorem monthFirst_le {month later : ℤ} (h : month ≤ later) : monthFirst month ≤ monthFirst later := by
  induction later, h using Int.leInduction with
  | base => exact Int.le_refl _
  | succ next _ ih => exact ih.trans (monthFirst_lt_succ next).le

/-- A month whose first instant is not after an instant of another one does not come after it. -/
theorem monthFirst_le_of_inMonth {month other : ℤ} {epoch : ℚ}
    (begun : monthFirst other * secondsPerDay ≤ epoch)
    (inside : inMonth month epoch) : monthFirst other * secondsPerDay ≤ monthFirst month *
    secondsPerDay := by
  obtain ⟨-, before⟩ := (Bool.and_eq_true _ _).mp inside
  have positive : 0 < secondsPerDay := by norm_num [secondsPerDay]
  have earlier : (monthFirst other : ℚ) < monthFirst (month + 1) :=
    lt_of_mul_lt_mul_right (lt_of_le_of_lt begun (of_decide_eq_true before)) positive.le
  have ordered : other ≤ month := by
    by_contra after
    exact absurd (Int.cast_lt.mp earlier) (Int.not_lt.mpr (monthFirst_le (Int.not_le.mp after)))
  exact mul_le_mul_of_nonneg_right (Int.cast_le.mpr (monthFirst_le ordered)) positive.le

end Cindral.Base
