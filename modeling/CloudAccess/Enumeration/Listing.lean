import CloudAccess.Enumeration.Scene
import CloudAccess.Plan

/-!
# Planned listings

A listing whose pages and lookups are planned: what each of them brings, how
long it takes and how it fails.

* `Listing.remote` answers a run as planned and writes a diary of what went
  on.
* `Listing.rehearse` runs an enumeration of the listing to its end.
-/

namespace CloudAccess

/-- A planned lookup: it takes `delay` units, may cancel the run or its
caller, may wait until the run is cancelled, takes `delayAfter` units, and
then crashes, fails, or finds an option or none. -/
structure PlannedLookup where
  delay : Nat := 0
  cancels : Option CancelTarget := none
  awaitsCancel : Bool := false
  delayAfter : Nat := 0
  crashes : Bool := false
  error : Option String := none
  option : Option ArgOption := none
  deriving DecidableEq

/-- The planned pages, and the lookups planned for some references. -/
structure Listing where
  pages : PlannedPages Page
  lookups : List (String × PlannedLookup)

/-- What is written down in a diary. -/
inductive Note
  | fetch (cursor : Option String)
  | started (reference : String)
  | finished (reference : String)
  | unwound (reference : String)
  deriving DecidableEq, Repr

/-- Notes with their units, the latest first. -/
structure Diary where
  notes : List (Nat × Note) := []
  deriving DecidableEq, Repr

namespace Diary

/-- Adds a note. -/
def write (d : Diary) (unit : Nat) (note : Note) : Diary :=
  ⟨(unit, note) :: d.notes⟩

/-- What was noted and when, the earliest first. -/
def collect {α : Type} (d : Diary) (pick : Note → Option α) : List (Nat × α) :=
  d.notes.reverse.filterMap fun (unit, note) => (pick note).map (unit, ·)

/-- Notes on references are ordered by unit, then by reference. -/
def noteLe (a b : Nat × String) : Bool :=
  decide (a.1 < b.1) || (a.1 == b.1 && decide (a.2 ≤ b.2))

/-- The fetches that were begun. -/
def fetches (d : Diary) : List (Nat × Option String) :=
  d.collect fun
    | .fetch cursor => some cursor
    | _ => none

/-- The lookups that were begun. -/
def started (d : Diary) : List (Nat × String) :=
  (d.collect fun
    | .started reference => some reference
    | _ => none).mergeSort noteLe

/-- The lookups that came to their planned end. -/
def finished (d : Diary) : List (Nat × String) :=
  (d.collect fun
    | .finished reference => some reference
    | _ => none).mergeSort noteLe

/-- The lookups that crashed or were stopped. -/
def unwound (d : Diary) : List (Nat × String) :=
  (d.collect fun
    | .unwound reference => some reference
    | _ => none).mergeSort noteLe

/-- The number of lookups under way after a note. -/
def liveAfter (live : Nat) : Note → Nat
  | .fetch _ => live
  | .started _ => live + 1
  | .finished _ | .unwound _ => live - 1

/-- The number of lookups under way, and the most that were at a time. -/
def livePeak (d : Diary) : Nat × Nat :=
  d.notes.foldr
    (fun (_, note) (live, peak) =>
      let live := liveAfter live note
      (live, max peak live))
    (0, 0)

/-- The number of lookups under way. -/
def live (d : Diary) : Nat := d.livePeak.1

/-- The most lookups that were under way at a time. -/
def peak (d : Diary) : Nat := d.livePeak.2

end Diary

/-- The note on the end of a planned lookup. -/
def PlannedLookup.note (p : PlannedLookup) (reference : String) : Note :=
  if p.crashes then .unwound reference else .finished reference

/-- How a planned lookup ends. -/
def PlannedLookup.outcome (p : PlannedLookup) (reference : String) :
    Outcome EnrichedItem :=
  if p.crashes then .crashed
  else
    match p.error with
    | some e => .failed ⟨e, []⟩
    | none => .value ⟨reference, p.option⟩

namespace Listing

/-- The lookup planned for a reference. -/
def lookup (l : Listing) (reference : String) : PlannedLookup :=
  (l.lookups.lookup reference).getD {}

/-! ## Fetches -/

/-- How far a fetch has come. -/
inductive Fetch
  | asked (cursor : Option String)
  | pausing (due : Nat) (page : Planned Page)

/-- Fetches of planned pages. -/
def fetching (l : Listing) : Process Diary Fetch (Outcome Page) where
  ready _ s
    | .asked _ => true
    | .pausing due _ => due ≤ s.moment.unit
  due _ _
    | .asked _ => none
    | .pausing due _ => some due
  turn d s
    | .asked cursor =>
      let d := d.write s.moment.unit (.fetch cursor)
      match l.pages.find cursor with
      | .error e => (d, .done (.failed e))
      | .ok p => (d, .goOn (.pausing (s.moment.unit + p.delay) p))
    | .pausing _ p => (d, .done p.outcome)
  abandon d _ _ := d

/-! ## Lookups -/

/-- How far a lookup has come. -/
inductive Lookup.Stage
  | begun
  | pausing (due : Nat)
  | awaiting
  | ending (due : Nat)

/-- A lookup under way. -/
structure Lookup where
  reference : String
  plan : PlannedLookup
  stage : Lookup.Stage := .begun

/-- Planned lookups. -/
def looking : Process Diary Lookup (Outcome EnrichedItem) where
  ready _ s k :=
    match k.stage with
    | .begun => true
    | .pausing due | .ending due => due ≤ s.moment.unit
    | .awaiting => !k.plan.awaitsCancel || s.cancelled
  due _ _ k :=
    match k.stage with
    | .begun | .awaiting => none
    | .pausing due | .ending due => some due
  turn d s k :=
    match k.stage with
    | .begun =>
      (d.write s.moment.unit (.started k.reference),
        .goOn { k with stage := .pausing (s.moment.unit + k.plan.delay) })
    | .pausing _ =>
      let next : Lookup := { k with stage := .awaiting }
      match k.plan.cancels with
      | none => (d, .goOn next)
      | some target => (d, .cancels target next)
    | .awaiting =>
      (d, .goOn { k with stage := .ending (s.moment.unit + k.plan.delayAfter) })
    | .ending _ =>
      (d.write s.moment.unit (k.plan.note k.reference),
        .done (k.plan.outcome k.reference))
  abandon d s k :=
    match k.stage with
    | .begun => d
    | _ => d.write s.moment.unit (.unwound k.reference)

/-- The listing answers a run. -/
def remote (l : Listing) : Remote Diary Fetch Lookup where
  fetch _ cursor := .asked cursor
  lookup reference := { reference := reference, plan := l.lookup reference }
  fetching := l.fetching
  looking := looking

/-- Runs an enumeration of the listing for at most `steps` steps. -/
def rehearse (l : Listing) (steps : Nat) (e : Enumerator) (standsAlone : Bool)
    (cancelAt dropAt : Option Nat) : Ending (RunScene Diary Fetch Lookup) :=
  (RunScene.play l.remote).run steps []
    (.start e {} standsAlone cancelAt dropAt)

end Listing

end CloudAccess
