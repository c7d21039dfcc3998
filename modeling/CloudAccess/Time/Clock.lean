import CloudAccess.Time.Instant

/-!
# Clocks set by hand

Clocks that show what they were set to.  A copy of a clock shares its reading
with the clock that it was made from.  A clock is never moved outside the
calendar: an operation that would do so changes nothing.
-/

namespace CloudAccess

/-- An operation on the clocks of a table. -/
inductive ClockOp
  | read (clock : Nat)
  | set (clock : Nat) (now : Instant)
  | advance (clock : Nat) (span : Span)
  | copy (clock : Nat)
  | create (start : Instant)
  deriving DecidableEq, Repr

/-- Readings, and which of them each clock shows. -/
structure ClockTable where
  readings : List Instant
  shown : List Nat
  deriving DecidableEq, Repr

namespace ClockTable

/-- One clock. -/
def start (now : Instant) : ClockTable := ⟨[now], [0]⟩

/-- What the clocks show. -/
def now (t : ClockTable) : List Instant := t.shown.filterMap (t.readings[·]?)

/-- Sets the reading that a clock shows. -/
def setReading (t : ClockTable) (reading : Nat) (now : Instant) : ClockTable :=
  { t with readings := t.readings.set reading now }

/-- Carries out an operation, and tells whether it could be done within the
calendar; there is no answer when the clock does not exist. -/
def apply (t : ClockTable) : ClockOp → Option (ClockTable × Bool)
  | .read clock => t.shown[clock]?.map fun _ => (t, true)
  | .set clock now =>
    t.shown[clock]?.map fun reading => (t.setReading reading now, true)
  | .advance clock span => do
    let reading ← t.shown[clock]?
    let now ← t.readings[reading]?
    match now.add? span with
    | some later => return (t.setReading reading later, true)
    | none => return (t, false)
  | .copy clock =>
    t.shown[clock]?.map fun reading =>
      ({ t with shown := t.shown ++ [reading] }, true)
  | .create start =>
    some (⟨t.readings ++ [start], t.shown ++ [t.readings.length]⟩, true)

end ClockTable

end CloudAccess
