import CloudAccess.Text.Digits

/-!
# Spans of time

A signed length of time, exact to the nanosecond.
-/

namespace CloudAccess

/-- A signed length of time in nanoseconds. -/
structure Span where
  nanos : Int
  deriving DecidableEq, Repr, Inhabited

namespace Span

/-- The nanoseconds of one second. -/
def nanosPerSecond : Int := 1000000000

/-- The span of length zero. -/
def zero : Span := ⟨0⟩

/-- A span of whole seconds. -/
def ofSeconds (seconds : Int) : Span := ⟨seconds * nanosPerSecond⟩

/-- The whole seconds of a span, cut off toward zero. -/
def wholeSeconds (d : Span) : Int := d.nanos.tdiv nanosPerSecond

/-- The nanoseconds beyond the whole seconds, with the sign of the span. -/
def subsecNanos (d : Span) : Int := d.nanos.tmod nanosPerSecond

/-- The least count of whole seconds that a span may have. -/
def minSeconds : Int := -9223372036854775808

/-- The greatest count of whole seconds that a span may have. -/
def maxSeconds : Int := 9223372036854775807

/-- A number fits when it is written in 64 signed bits. -/
def Fits (n : Int) : Prop := minSeconds ≤ n ∧ n ≤ maxSeconds

instance (n : Int) : Decidable (Fits n) := by
  unfold Fits; infer_instance

/-- The sum of `seconds` and `nanos`.  The two numbers and the whole seconds
of their sum have to fit. -/
def ofParts? (seconds nanos : Int) : Option Span :=
  let d : Span := ⟨seconds * nanosPerSecond + nanos⟩
  if Fits seconds ∧ Fits nanos ∧ Fits d.wholeSeconds then some d else none

instance : LE Span := ⟨fun a b => a.nanos ≤ b.nanos⟩
instance : LT Span := ⟨fun a b => a.nanos < b.nanos⟩

instance (a b : Span) : Decidable (a ≤ b) :=
  inferInstanceAs (Decidable (a.nanos ≤ b.nanos))

instance (a b : Span) : Decidable (a < b) :=
  inferInstanceAs (Decidable (a.nanos < b.nanos))

theorem le_iff {a b : Span} : a ≤ b ↔ a.nanos ≤ b.nanos := Iff.rfl

theorem lt_iff {a b : Span} : a < b ↔ a.nanos < b.nanos := Iff.rfl

/-- A quotient that is cut off toward zero keeps the sign. -/
theorem tdiv_nonpos {m n : Int} (hm : m ≤ 0) (hn : 0 ≤ n) : m.tdiv n ≤ 0 := by
  have hneg : 0 ≤ (-m).tdiv n := Int.tdiv_nonneg (by omega) hn
  rw [Int.neg_tdiv] at hneg
  omega

/-- Half of a span, cut off toward zero. -/
def half (d : Span) : Span := ⟨d.nanos.tdiv 2⟩

/-- The nearest span between `low` and `high`. -/
def clamp (d low high : Span) : Span :=
  if d < low then low else if high < d then high else d

/-- A span as diagnostic messages show it. -/
def debugText (d : Span) : String :=
  "SignedDuration \x7b seconds: " ++ Text.decimalInt d.wholeSeconds ++
    ", nanoseconds: " ++ Text.decimalInt d.subsecNanos ++ " \x7d"

theorem clamp_le {d low high : Span} (h : low ≤ high) :
    d.clamp low high ≤ high := by
  unfold clamp
  split
  · exact h
  · split
    · exact Int.le_refl _
    · rename_i h2; exact Int.not_lt.1 h2

theorem le_clamp {d low high : Span} (h : low ≤ high) :
    low ≤ d.clamp low high := by
  unfold clamp
  split
  · exact Int.le_refl _
  · rename_i h1
    split
    · exact h
    · exact Int.not_lt.1 h1

end Span

end CloudAccess
