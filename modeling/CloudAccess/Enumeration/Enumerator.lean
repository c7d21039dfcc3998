import CloudAccess.AccessError

/-!
# Enumerators

How an enumeration is bounded: how many items may be looked up at a time, and
how many pages may be fetched.
-/

namespace CloudAccess

/-- The bounds of an enumeration. -/
structure Enumerator where
  concurrency : Nat
  pageLimit : Option Nat := none
  concurrency_pos : 0 < concurrency := by decide

namespace Enumerator

/-- The number of lookups at a time when nothing else is said. -/
def defaultConcurrency : Nat := 5

/-- The enumerator that is used when nothing else is said. -/
def standard : Enumerator where
  concurrency := defaultConcurrency

/-- The enumerator with the given number of lookups at a time, which must not
be zero. -/
def new? (concurrency : Nat) : Except AccessError Enumerator :=
  if h : 0 < concurrency then .ok
    { concurrency := concurrency, concurrency_pos := h }
  else .error (.config .zeroConcurrency)

/-- The enumerator that also bounds the number of pages. -/
def withPageLimit (e : Enumerator) (limit : Option Nat) : Enumerator :=
  { e with pageLimit := limit }

/-- The enumerator with the given bounds. -/
def ofBounds? (concurrency pageLimit : Option Nat) :
    Except AccessError Enumerator :=
  match concurrency with
  | none => .ok (standard.withPageLimit pageLimit)
  | some n => (new? n).map (·.withPageLimit pageLimit)

/-- The greatest number of permits that can be handed out; a run that needs
more crashes before it has begun. -/
def maxPermits : Nat := 2305843009213693951

end Enumerator

end CloudAccess
