import CloudAccess.Time.Span
import CloudAccess.Time.Calendar

/-!
# Instants

A point of universal time together with the offset of the clock that shows
it.  Two instants are compared by their universal time alone; the offset
decides how the instant is shown and whether it lies in the calendar, whose
years run from -9999 to 9999.

* `Instant.add?` and `Instant.sub?` move an instant and fail where the result
  leaves the calendar.
* `Instant.text` is the form shown in messages.
* `Instant.fields` and `Instant.ofFields` are the nine numbers by which an
  instant is written down and read back.
-/

namespace CloudAccess

/-- A point of time: nanoseconds since the start of 1970 in universal time,
and the offset of the showing clock in seconds. -/
structure Instant where
  unixNanos : Int
  offset : Int
  deriving DecidableEq, Repr, Inhabited

namespace Instant

/-- The nanoseconds of one day. -/
def nanosPerDay : Int := 86400000000000

/-- The start of 1970 in universal time. -/
def epoch : Instant := ⟨0, 0⟩

/-- The reading of the showing clock, in nanoseconds since its start of
1970. -/
def localNanos (i : Instant) : Int :=
  i.unixNanos + i.offset * Span.nanosPerSecond

/-- The first reading of the calendar: 1 January of the year -9999. -/
def calendarStart : Int := Calendar.daysBeforeYear (-9999) * nanosPerDay

/-- The first reading after the calendar: 1 January of the year 10000. -/
def calendarEnd : Int := Calendar.daysBeforeYear 10000 * nanosPerDay

/-- An instant lies in the calendar when its clock shows a year from -9999 to
9999. -/
def InCalendar (i : Instant) : Prop :=
  calendarStart ≤ i.localNanos ∧ i.localNanos < calendarEnd

instance (i : Instant) : Decidable i.InCalendar := by
  unfold InCalendar; infer_instance

/-- The greatest offset of a clock from universal time, in seconds:
25:59:59. -/
def maxOffset : Int := 93599

/-- The instant `nanos` nanoseconds after `seconds` seconds of universal
time, shown at `offset`.  Both the universal and the shown reading have to
lie in the calendar. -/
def ofParts? (seconds nanos offset : Int) : Option Instant :=
  let i : Instant := ⟨seconds * Span.nanosPerSecond + nanos, offset⟩
  if 0 ≤ nanos ∧ nanos < Span.nanosPerSecond ∧ -maxOffset ≤ offset ∧
      offset ≤ maxOffset ∧ ({ i with offset := 0 } : Instant).InCalendar ∧
      i.InCalendar
  then some i else none

/-- The whole seconds of universal time. -/
def unixSeconds (i : Instant) : Int := i.unixNanos / Span.nanosPerSecond

/-- The nanoseconds beyond the whole seconds. -/
def subsecNanos (i : Instant) : Int := i.unixNanos % Span.nanosPerSecond

instance : LE Instant := ⟨fun a b => a.unixNanos ≤ b.unixNanos⟩
instance : LT Instant := ⟨fun a b => a.unixNanos < b.unixNanos⟩

instance (a b : Instant) : Decidable (a ≤ b) :=
  inferInstanceAs (Decidable (a.unixNanos ≤ b.unixNanos))

instance (a b : Instant) : Decidable (a < b) :=
  inferInstanceAs (Decidable (a.unixNanos < b.unixNanos))

theorem le_iff {a b : Instant} : a ≤ b ↔ a.unixNanos ≤ b.unixNanos := Iff.rfl

theorem lt_iff {a b : Instant} : a < b ↔ a.unixNanos < b.unixNanos := Iff.rfl

/-! ## Moving an instant -/

/-- The instant later by `d`, where it lies in the calendar. -/
def add? (i : Instant) (d : Span) : Option Instant :=
  let j : Instant := ⟨i.unixNanos + d.nanos, i.offset⟩
  if j.InCalendar then some j else none

/-- The instant earlier by `d`, where it lies in the calendar. -/
def sub? (i : Instant) (d : Span) : Option Instant :=
  let j : Instant := ⟨i.unixNanos - d.nanos, i.offset⟩
  if j.InCalendar then some j else none

theorem sub?_eq_some {i j : Instant} {d : Span} (h : i.sub? d = some j) :
    j.unixNanos = i.unixNanos - d.nanos ∧ j.offset = i.offset ∧
    j.InCalendar := by
  unfold sub? at h
  simp only at h
  split at h
  · rename_i hin
    cases h
    exact ⟨rfl, rfl, hin⟩
  · cases h

theorem add?_eq_some {i j : Instant} {d : Span} (h : i.add? d = some j) :
    j.unixNanos = i.unixNanos + d.nanos ∧ j.offset = i.offset ∧
    j.InCalendar := by
  unfold add? at h
  simp only at h
  split at h
  · rename_i hin
    cases h
    exact ⟨rfl, rfl, hin⟩
  · cases h

/-! ## The parts of a reading -/

/-- The day that the clock shows, counted from its start of 1970. -/
def day (i : Instant) : Int := i.localNanos / nanosPerDay

/-- The nanoseconds of the shown day that have passed. -/
def nanosOfDay (i : Instant) : Int := i.localNanos % nanosPerDay

/-- The year shown. -/
def year (i : Instant) : Int := Calendar.yearOf i.day

/-- The ordinal of the shown day in its year. -/
def ordinal (i : Instant) : Int := Calendar.ordinalOf i.day

/-- The hour shown. -/
def hour (i : Instant) : Int := i.nanosOfDay / 3600000000000

/-- The minute shown. -/
def minute (i : Instant) : Int := i.nanosOfDay / 60000000000 % 60

/-- The second shown. -/
def second (i : Instant) : Int := i.nanosOfDay / Span.nanosPerSecond % 60

/-- The nanoseconds shown. -/
def nanosecond (i : Instant) : Int := i.nanosOfDay % Span.nanosPerSecond

/-- The whole hours of the offset, with its sign. -/
def offsetHours (i : Instant) : Int := i.offset.tdiv 3600

/-- The whole minutes of the offset beyond its hours, with its sign. -/
def offsetMinutes (i : Instant) : Int := (i.offset.tmod 3600).tdiv 60

/-- The seconds of the offset beyond its minutes, with its sign. -/
def offsetSeconds (i : Instant) : Int := i.offset.tmod 60

/-! ## The text of an instant -/

/-- A fraction of a second in nanoseconds, without zeros at the end but with
one digit at least. -/
def fractionText (nanos : Nat) : String :=
  let digits := (Text.decimalPadded 9 nanos).toList.reverse.dropWhile (· == '0')
  match digits with
  | [] => "0"
  | _ => String.ofList digits.reverse

/-- A year with four digits at least, after a minus sign before year zero. -/
def yearText (year : Int) : String :=
  (if year < 0 then "-" else "") ++ Text.decimalPadded 4 year.natAbs

/-- An offset as a sign and three parts of two digits. -/
def offsetText (offset : Int) : String :=
  let n := offset.natAbs
  (if offset < 0 then "-" else "+") ++ Text.decimalPadded 2 (n / 3600) ++ ":" ++
    Text.decimalPadded 2 (n / 60 % 60) ++ ":" ++ Text.decimalPadded 2 (n % 60)

/-- An instant as messages show it: date, time of day with an hour of no
fixed width, and offset. -/
def text (i : Instant) : String :=
  let (month, dayOfMonth) :=
    Calendar.monthDay (Calendar.monthLengths i.year) 1 (i.ordinal.toNat - 1)
  yearText i.year ++ "-" ++ Text.decimalPadded 2 month ++ "-" ++
    Text.decimalPadded 2 dayOfMonth ++ " " ++ Nat.repr i.hour.toNat ++ ":" ++
    Text.decimalPadded 2 i.minute.toNat ++ ":" ++
    Text.decimalPadded 2 i.second.toNat ++ "." ++
    fractionText i.nanosecond.toNat ++ " " ++ offsetText i.offset

/-! ## The nine numbers of an instant -/

/-- The parts by which an instant is written down. -/
inductive Part
  | year | ordinal | hour | minute | second | nanosecond
  | offsetHour | offsetMinute | offsetSecond
  deriving DecidableEq, Repr

/-- The nine numbers by which an instant is written down. -/
structure Fields where
  year : Int
  ordinal : Int
  hour : Int
  minute : Int
  second : Int
  nanosecond : Int
  offsetHour : Int
  offsetMinute : Int
  offsetSecond : Int
  deriving DecidableEq, Repr

/-- The parts of a reading and of its offset. -/
def fields (i : Instant) : Fields where
  year := i.year
  ordinal := i.ordinal
  hour := i.hour
  minute := i.minute
  second := i.second
  nanosecond := i.nanosecond
  offsetHour := i.offsetHours
  offsetMinute := i.offsetMinutes
  offsetSecond := i.offsetSeconds

namespace Fields

/-- The first part outside its range: the date comes before the time of day,
and that before the offset. -/
def firstOutOfRange (f : Fields) : Option Part :=
  if ¬(-9999 ≤ f.year ∧ f.year ≤ 9999) then some .year
  else if ¬(1 ≤ f.ordinal ∧ f.ordinal ≤ Calendar.daysInYear f.year) then
    some .ordinal
  else if ¬(0 ≤ f.hour ∧ f.hour < 24) then some .hour
  else if ¬(0 ≤ f.minute ∧ f.minute < 60) then some .minute
  else if ¬(0 ≤ f.second ∧ f.second < 60) then some .second
  else if ¬(0 ≤ f.nanosecond ∧ f.nanosecond < Span.nanosPerSecond) then
    some .nanosecond
  else if ¬(-25 ≤ f.offsetHour ∧ f.offsetHour ≤ 25) then some .offsetHour
  else if ¬(-59 ≤ f.offsetMinute ∧ f.offsetMinute ≤ 59) then some .offsetMinute
  else if ¬(-59 ≤ f.offsetSecond ∧ f.offsetSecond ≤ 59) then some .offsetSecond
  else none

/-- The sign that rules the offset: that of its first part that is not
zero. -/
def offsetSign (f : Fields) : Int :=
  if f.offsetHour ≠ 0 then f.offsetHour.sign
  else if f.offsetMinute ≠ 0 then f.offsetMinute.sign
  else f.offsetSecond.sign

/-- The offset in seconds: all parts take the ruling sign. -/
def offset (f : Fields) : Int :=
  f.offsetSign * (f.offsetHour.natAbs * 3600 + f.offsetMinute.natAbs * 60 +
    f.offsetSecond.natAbs)

/-- The reading of the clock, in nanoseconds since its start of 1970. -/
def localNanos (f : Fields) : Int :=
  Calendar.dayOf f.year f.ordinal * nanosPerDay +
    ((f.hour * 60 + f.minute) * 60 + f.second) * Span.nanosPerSecond +
    f.nanosecond

end Fields

/-- The instant with the given parts, or the first part out of its range. -/
def ofFields (f : Fields) : Except Part Instant :=
  match f.firstOutOfRange with
  | some part => .error part
  | none => .ok ⟨f.localNanos - f.offset * Span.nanosPerSecond, f.offset⟩

end Instant

end CloudAccess
