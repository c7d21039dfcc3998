/-!
# The proleptic Gregorian calendar

Days are counted from 1 January 1970.  A day is named by its year and its
ordinal in the year, or by year, month and day of the month.

`daysBeforeYear_yearOf` says that `yearOf` finds the year in which a day
lies.
-/

namespace CloudAccess.Calendar

/-- A year divisible by four is a leap year, centuries only every fourth. -/
def isLeap (year : Int) : Bool :=
  year % 4 == 0 && (year % 100 != 0 || year % 400 == 0)

/-- The number of days of a year. -/
def daysInYear (year : Int) : Int :=
  if isLeap year then 366 else 365

/-- The days from 1 January 1970 to 1 January of `year`. -/
def daysBeforeYear (year : Int) : Int :=
  365 * (year - 1970) + (year - 1) / 4 - (year - 1) / 100 + (year - 1) / 400
    - 477

/-- The year in which a day lies: the mean length of a year gives it up to
one. -/
def yearOf (day : Int) : Int :=
  let guess := day * 400 / 146097 + 1970
  if day < daysBeforeYear guess then guess - 1
  else if day < daysBeforeYear (guess + 1) then guess
  else guess + 1

/-- The ordinal of a day in its year, from 1. -/
def ordinalOf (day : Int) : Int :=
  day - daysBeforeYear (yearOf day) + 1

/-- The day with the given ordinal in the given year. -/
def dayOf (year ordinal : Int) : Int :=
  daysBeforeYear year + ordinal - 1

/-- The lengths of the twelve months of a year. -/
def monthLengths (year : Int) : List Nat :=
  [31, if isLeap year then 29 else 28, 31, 30, 31, 30, 31, 31, 30, 31, 30, 31]

/-- The month and the day of the month for the `rest`-th day, from zero, of
the months of the given lengths; `month` is the number of the first one. -/
def monthDay : List Nat → Nat → Nat → Nat × Nat
  | [], month, rest => (month, rest + 1)
  | length :: lengths, month, rest =>
    if rest < length then (month, rest + 1)
    else monthDay lengths (month + 1) (rest - length)

/-! ## Years and days -/

/-- A year ends where the next one begins. -/
theorem daysBeforeYear_succ (year : Int) :
    daysBeforeYear (year + 1) = daysBeforeYear year + daysInYear year := by
  unfold daysBeforeYear daysInYear isLeap
  simp only [Bool.and_eq_true, Bool.or_eq_true, beq_iff_eq, bne_iff_ne]
  split <;> omega

/-- The days before a year differ from its mean by less than two days. -/
theorem daysBeforeYear_mean (year : Int) :
    146097 * (year - 1970) - 506 ≤ 400 * daysBeforeYear year ∧
      400 * daysBeforeYear year ≤ 146097 * (year - 1970) + 589 := by
  unfold daysBeforeYear
  constructor <;> omega

/-- A day lies in the year that `yearOf` names. -/
theorem daysBeforeYear_yearOf (day : Int) :
    daysBeforeYear (yearOf day) ≤ day ∧
    day < daysBeforeYear (yearOf day + 1) := by
  unfold yearOf
  simp only
  have hbefore := daysBeforeYear_mean (day * 400 / 146097 + 1970 - 1)
  have hafter := daysBeforeYear_mean (day * 400 / 146097 + 1970 + 1 + 1)
  split
  · rename_i h
    rw [show day * 400 / 146097 + 1970 - 1 + 1 =
      day * 400 / 146097 + 1970 by omega]
    exact ⟨by omega, h⟩
  · rename_i h
    split
    · rename_i h2
      exact ⟨by omega, h2⟩
    · rename_i h2
      exact ⟨by omega, by omega⟩

/-- The ordinal of a day lies between one and the length of its year. -/
theorem ordinalOf_bounds (day : Int) :
    1 ≤ ordinalOf day ∧ ordinalOf day ≤ daysInYear (yearOf day) := by
  have h := daysBeforeYear_yearOf day
  rw [daysBeforeYear_succ] at h
  unfold ordinalOf
  omega

/-- Year and ordinal name the day. -/
theorem dayOf_yearOf (day : Int) :
    dayOf (yearOf day) (ordinalOf day) = day := by
  unfold dayOf ordinalOf
  omega

example : daysBeforeYear 1970 = 0 ∧ daysBeforeYear 2000 = 10957 := by decide
example : yearOf 0 = 1970 ∧ yearOf (-1) = 1969 ∧ ordinalOf (-1) =
365 := by decide
example : monthDay (monthLengths 2024) 1 59 = (2, 29) := by decide

end CloudAccess.Calendar
