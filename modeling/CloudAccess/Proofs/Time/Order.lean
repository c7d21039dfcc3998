import CloudAccess.Proofs.Time.Fields
import Mathlib.Data.Int.Order.Basic
import Mathlib.Data.List.Lex

/-!
# The order of universal time

Instants are compared by a single number.  Clocks are compared by what they
show, from the year down to the nanoseconds, once both of them show universal
time.

* `Instant.universal` is what a clock of universal time shows at an instant.
* `lt_iff_universal_lt` and `le_iff_universal_le` say that the comparison of
  instants is that of these clocks, and `universal_eq_iff` that they show the
  same for the same number alone.
-/

namespace CloudAccess

/-! ## Days -/

namespace Calendar

/-- Later days lie in later years or in the same one. -/
theorem yearOf_le {day day' : Int} (h : day ≤ day') :
    yearOf day ≤ yearOf day' := by
  refine Int.not_lt.1 fun hlt => ?_
  have hyears := daysBeforeYear_le (Int.add_one_le_of_lt hlt)
  have hday := (daysBeforeYear_yearOf day).1
  have hday' := (daysBeforeYear_yearOf day').2
  omega

/-- Days are compared by their years, and within a year by their ordinals. -/
theorem lt_iff_yearOf {day day' : Int} :
    day < day' ↔ yearOf day < yearOf day' ∨
      yearOf day = yearOf day' ∧ ordinalOf day < ordinalOf day' := by
  unfold ordinalOf
  constructor
  · intro h
    rcases Int.lt_or_eq_of_le (yearOf_le (Int.le_of_lt h)) with hlt | heq
    · exact .inl hlt
    · exact .inr ⟨heq, by rw [heq]; omega⟩
  · rintro (hlt | ⟨heq, hordinal⟩)
    · exact Int.not_le.1 fun hle => Int.not_le.2 hlt (yearOf_le hle)
    · rw [heq] at hordinal
      omega

/-- A year and an ordinal are those of one day. -/
theorem eq_iff_yearOf {day day' : Int} :
    day = day' ↔ yearOf day = yearOf day' ∧ ordinalOf day = ordinalOf day' := by
  constructor
  · rintro rfl
    exact ⟨rfl, rfl⟩
  · rintro ⟨hyear, hordinal⟩
    rw [← dayOf_yearOf day, hyear, hordinal, dayOf_yearOf]

end Calendar

namespace Instant

variable {i j : Instant}

/-! ## What clocks show -/

/-- What the clock shows: the year, the day, the hour, the minute, the second
and the nanoseconds. -/
def reading (i : Instant) : List Int :=
  [i.year, i.ordinal, i.hour, i.minute, i.second, i.nanosecond]

/-- Times of day are compared by their hours, minutes, seconds and
nanoseconds. -/
theorem nanosOfDay_lt_iff :
    i.nanosOfDay < j.nanosOfDay ↔
      [i.hour, i.minute, i.second, i.nanosecond] <
        [j.hour, j.minute, j.second, j.nanosecond] := by
  have hi : 0 ≤ i.nanosOfDay ∧ i.nanosOfDay < nanosPerDay := by
    unfold nanosOfDay nanosPerDay
    omega
  have hj : 0 ≤ j.nanosOfDay ∧ j.nanosOfDay < nanosPerDay := by
    unfold nanosOfDay nanosPerDay
    omega
  simp only [List.cons_lt_cons_iff, List.not_lt_nil, and_false, or_false]
  unfold hour minute second nanosecond
  generalize i.nanosOfDay = n at hi ⊢
  generalize j.nanosOfDay = m at hj ⊢
  unfold nanosPerDay Span.nanosPerSecond at *
  omega

/-- Clocks are compared by what they show, the greatest part first. -/
theorem localNanos_lt_iff :
    i.localNanos < j.localNanos ↔ i.reading < j.reading := by
  have hsplit : i.localNanos < j.localNanos ↔
      i.day < j.day ∨ i.day = j.day ∧ i.nanosOfDay < j.nanosOfDay := by
    unfold day nanosOfDay nanosPerDay
    omega
  have hday : i.day = j.day ↔ i.year = j.year ∧ i.ordinal = j.ordinal :=
    Calendar.eq_iff_yearOf
  have hlt : i.day < j.day ↔ i.year < j.year ∨ i.year = j.year ∧
      i.ordinal < j.ordinal :=
    Calendar.lt_iff_yearOf
  rw [hsplit, hday, hlt, nanosOfDay_lt_iff, or_assoc, and_assoc, ← and_or_left]
  simp only [reading, List.cons_lt_cons_iff]

/-! ## Universal time -/

/-- What a clock of universal time shows. -/
def universal (i : Instant) : List Int := (⟨i.unixNanos, 0⟩ : Instant).reading

/-- An instant is earlier than another one when a clock of universal time shows
less. -/
theorem lt_iff_universal_lt : i < j ↔ i.universal < j.universal := by
  have hlocal (i : Instant) : (⟨i.unixNanos, 0⟩ : Instant).localNanos =
      i.unixNanos := by
    simp [localNanos]
  unfold universal
  rw [← localNanos_lt_iff, hlocal, hlocal, lt_iff]

theorem le_iff_universal_le : i ≤ j ↔ i.universal ≤ j.universal := by
  rw [← not_lt, ← lt_iff_universal_lt, lt_iff, le_iff, Int.not_lt]

/-- A clock of universal time shows the same at one moment only. -/
theorem universal_eq_iff :
    i.universal = j.universal ↔ i.unixNanos = j.unixNanos := by
  constructor
  · intro h
    have hle : i ≤ j := le_iff_universal_le.2 h.le
    have hge : j ≤ i := le_iff_universal_le.2 h.ge
    exact Int.le_antisymm hle hge
  · intro h
    unfold universal
    rw [h]

end Instant

end CloudAccess
