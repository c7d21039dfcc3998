import CloudAccess.Cancellation
import CloudAccess.Enumeration.Enumerator
import CloudAccess.Enumeration.Page
import CloudAccess.Ledger
import CloudAccess.Outcome
import CloudAccess.Reaches

/-!
# Runs of an enumeration

A run fetches the pages of a listing one after another and looks up every
reference on them once.  Its driver fetches the pages and submits the
references; each submitted reference gets a worker, and a worker needs one of
a fixed number of permits.  The first failure cancels the run: nothing more is
fetched or submitted, and the run returns once every worker has stopped.

The pages and the lookups come from elsewhere.  `Run.act` carries out one
action, which is a move of the driver or of a worker, or something that
happens to the run from outside; an action that does not apply changes
nothing.  `Run.Step` lets any action happen, in whatever order, and
`Run.Reaches` follows such steps.
-/

namespace CloudAccess

/-- What the driver of a run is at. -/
inductive Run.Driver
  | turning (cursor : Option String)
  | fetching (cursor : Option String)
  | submitting (items : List String) (next : Option String)
  | queueing (reference : String) (items : List String) (next : Option String)
  | draining
  | returned (result : Except EnumerationError ResultSet)
  | crashed
  | dropped

/-- Whether the driver has come to its end without waiting for the workers. -/
def Run.Driver.isGone : Run.Driver → Bool
  | crashed | dropped => true
  | _ => false

/-- Whether the driver has come to its end. -/
def Run.Driver.isOver : Run.Driver → Bool
  | returned _ | crashed | dropped => true
  | _ => false

/-- What a worker is at.  A worker that stops ends its lookup first and keeps
its permit until then; an abandoned one leaves its permit at once. -/
inductive Worker.Stage
  | spawned
  | looking
  | reported (report : Outcome EnrichedItem)
  | stopping
  | stopped
  | abandoned
  | finished
  deriving DecidableEq

/-- A worker with its reference. -/
structure Worker where
  reference : String
  stage : Worker.Stage := .spawned
  deriving DecidableEq

/-- Whether a worker holds a permit. -/
def Worker.holdsPermit (w : Worker) : Bool :=
  match w.stage with
  | .abandoned | .finished => false
  | _ => true

/-- Whether the lookup of a worker is or may come under way. -/
def Worker.isLooking (w : Worker) : Bool :=
  match w.stage with
  | .looking | .stopping | .abandoned => true
  | _ => false

/-- A run: its bounds; the signals of the handles, the handle of the caller
and that of the run, which descends from it; the driver; the free permits and
whether one was granted to the waiting driver; the workers; the cursors that
were asked for and the pages that were received; the references that were
submitted; the number of fetches that ended; the options found; the first
error; and the events reported. -/
structure Run where
  enumerator : Enumerator
  signals : Signals
  caller : Cancellation
  handle : Cancellation
  driver : Run.Driver
  free : Nat
  granted : Bool := false
  workers : List Worker := []
  asked : List (Option String) := []
  received : List Page := []
  submitted : List String := []
  pages : Nat := 0
  found : List ArgOption := []
  firstError : Option EnumerationError := none
  events : List Event := []

namespace Run

/-- What can happen to a run. -/
inductive Action
  | drive
  | answer (a : Outcome Page)
  | work (i : Nat)
  | report (i : Nat) (r : Outcome EnrichedItem)
  | unwind (i : Nat)
  | cancel (h : Cancellation)
  | drop

/-- A run for a caller.  Its handle descends from the caller's. -/
def start (e : Enumerator) (signals : Signals) (caller : Cancellation) : Run :=
  let (handle, signals) := signals.newChild caller
  if e.concurrency ≤ Enumerator.maxPermits then
    { enumerator := e, signals := signals, caller := caller, handle := handle
      driver := .turning none, free := e.concurrency
      events := [.runStarted e.concurrency] }
  else
    { enumerator := e, signals := signals, caller := caller, handle := handle
      driver := .crashed, free := e.concurrency }

/-- Whether the run is cancelled. -/
def isCancelled (r : Run) : Bool := r.handle.isCancelled r.signals

/-- Cancels a handle. -/
def cancel (r : Run) (h : Cancellation) : Run :=
  { r with signals := r.signals.cancel h }

/-- Reports an event. -/
def emit (r : Run) (e : Event) : Run := { r with events := r.events ++ [e] }

/-- Records a failure, which cancels the run.  Only the first one counts, and
only it is reported. -/
def fail (r : Run) (e : EnumerationError) (event : Option Event) : Run :=
  match r.firstError with
  | some _ => r.cancel r.handle
  | none =>
    ({ r with firstError := some e, events := r.events ++ event.toList } :
      Run).cancel r.handle

/-! ## The driver -/

/-- Gives a permit back.  It goes to the driver when that is waiting for one. -/
def release (r : Run) : Run :=
  match r.driver, r.granted with
  | .queueing _ _ _, false => { r with granted := true }
  | _, _ => { r with free := r.free + 1 }

/-- The driver gives up a permit that was granted to it and not used. -/
def ungrant (r : Run) : Run :=
  if r.granted then { r with granted := false, free := r.free + 1 } else r

/-- The driver ends paging and waits for the workers. -/
def leave (r : Run) : Run :=
  let r := r.ungrant
  if r.isCancelled then
    { r.emit (.runDraining r.workers.length) with driver := .draining }
  else { r with driver := .draining }

/-- The driver spawns a worker. -/
def spawn (r : Run) (reference : String) (items : List String)
    (next : Option String) : Run :=
  { r with
    driver := .submitting items next
    workers := r.workers ++ [⟨reference, .spawned⟩] }

/-- The driver asks for the next page, unless the page limit is reached or the
run is cancelled. -/
def turn (r : Run) (cursor : Option String) : Run :=
  match r.enumerator.pageLimit.filter (· ≤ r.pages) with
  | some limit => (r.fail (.pageLimitExceeded limit) none).leave
  | none =>
    if r.isCancelled then r.leave
    else { r with driver := .fetching cursor, asked := r.asked ++ [cursor] }

/-- The driver submits the next reference of a page.  One that was submitted
before is passed over; a new one needs a permit. -/
def submit (r : Run) (reference : String) (items : List String)
    (next : Option String) : Run :=
  if r.submitted.contains reference
    then { r with driver := .submitting items next }
  else
    let r := { r with submitted := r.submitted ++ [reference] }
    if r.isCancelled then r.leave
    else if 0 < r.free then { r with free := r.free - 1 }.spawn
      reference items next
    else { r with driver := .queueing reference items next }

/-- The result of a run whose workers have all finished. -/
def result (r : Run) : Except EnumerationError ResultSet :=
  match r.firstError with
  | some e => .error e
  | none => if r.isCancelled then .error .cancelled else .ok ⟨r.found⟩

/-- The driver returns. -/
def conclude (r : Run) : Run :=
  { r.emit (.runFinished (.of r.result) r.pages r.submitted.length) with
    driver := .returned r.result }

/-- Whether every worker has finished. -/
def isQuiet (r : Run) : Bool := r.workers.all (·.stage = .finished)

/-- Whether the driver can move without the answer to a fetch. -/
def driverReady (r : Run) : Bool :=
  match r.driver with
  | .turning _ | .submitting _ _ => true
  | .fetching _ => r.isCancelled
  | .queueing _ _ _ => r.isCancelled || r.granted
  | .draining => r.isQuiet
  | .returned _ | .crashed | .dropped => false

/-- A move of the driver.  It looks for a cancellation before anything
else. -/
def drive (r : Run) : Run :=
  match r.driver with
  | .turning cursor => r.turn cursor
  | .fetching _ => if r.isCancelled then r.leave else r
  | .submitting [] none => r.leave
  | .submitting [] (some cursor) => { r with driver := .turning (some cursor) }
  | .submitting (reference :: items) next => r.submit reference items next
  | .queueing reference items next =>
    if r.isCancelled then r.leave
    else if r.granted then { r with granted := false }.spawn
      reference items next
    else r
  | .draining => if r.isQuiet then r.conclude else r
  | .returned _ | .crashed | .dropped => r

/-- The driver gets the answer to a fetch, unless the run is cancelled. -/
def answer (r : Run) (a : Outcome Page) : Run :=
  match r.driver with
  | .fetching _ =>
    if r.isCancelled then r
    else
      match a with
      | .crashed => { r with driver := .crashed }
      | .failed e =>
        let r := { r with pages := r.pages + 1 }
        (r.fail (.pageFetch r.pages e) none).leave
      | .value p =>
        let r := { r with pages := r.pages + 1 }
        { r.emit (.pageFetched r.pages p.items.length) with
          driver := .submitting p.items p.nextCursor
          received := r.received ++ [p] }
  | _ => r

/-- The caller gives the run up. -/
def drop (r : Run) : Run :=
  if r.driver.isOver then r else { r.ungrant with driver := .dropped }

/-! ## The workers -/

/-- Moves a worker to a stage. -/
def setStage (r : Run) (i : Nat) (stage : Worker.Stage) : Run :=
  { r with workers := r.workers.modify i ({ · with stage := stage }) }

/-- A worker finishes and gives its permit back. -/
def finish (r : Run) (i : Nat) : Run := (r.setStage i .finished).release

/-- A worker takes the report on its lookup. -/
def take (r : Run) (i : Nat) (reference : String) : Outcome EnrichedItem → Run
  | .value item =>
    ({ r with found := r.found ++ item.option.toList } : Run).finish i
  | .failed e =>
    (r.fail (.enrichment reference e) (some .enrichmentFailed)).finish i
  | .crashed => (r.fail .workerPanicked (some .enricherPanicked)).finish i

/-- A move of a worker while the driver is there.  It looks for a cancellation
before anything else. -/
def workOn (r : Run) (i : Nat) (w : Worker) : Run :=
  match w.stage with
  | .spawned => r.setStage i (if r.isCancelled then .stopping else .looking)
  | .looking => if r.isCancelled then r.setStage i .stopping else r
  | .reported report =>
    if r.isCancelled then r.finish i else r.take i w.reference report
  | .stopped => r.finish i
  | .stopping | .abandoned | .finished => r

/-- A move of a worker once the driver is gone: it ends at once, and its
lookup soon after. -/
def abandon (r : Run) (i : Nat) (w : Worker) : Run :=
  match w.stage with
  | .spawned | .reported _ | .stopped => r.finish i
  | .looking | .stopping => (r.setStage i .abandoned).release
  | .abandoned | .finished => r

/-- A move of a worker. -/
def work (r : Run) (i : Nat) : Run :=
  match r.workers[i]? with
  | none => r
  | some w => if r.driver.isGone then r.abandon i w else r.workOn i w

/-- Whether a worker can move. -/
def workerReady (r : Run) (i : Nat) : Bool :=
  match r.workers[i]? with
  | none => false
  | some w =>
    match w.stage with
    | .spawned | .reported _ | .stopped => true
    | .looking => r.isCancelled || r.driver.isGone
    | .stopping => r.driver.isGone
    | .abandoned | .finished => false

/-- The lookup of a worker ends, unless the worker has stopped it. -/
def report (r : Run) (i : Nat) (report : Outcome EnrichedItem) : Run :=
  match r.workers[i]? with
  | some ⟨_, .looking⟩ => r.setStage i (.reported report)
  | _ => r

/-- A lookup that was stopped is gone. -/
def unwind (r : Run) (i : Nat) : Run :=
  match r.workers[i]? with
  | some ⟨_, .stopping⟩ => r.setStage i .stopped
  | some ⟨_, .abandoned⟩ => r.setStage i .finished
  | _ => r

/-! ## Runs -/

/-- Carries out one action.  One that does not apply changes nothing. -/
def act (r : Run) : Action → Run
  | .drive => r.drive
  | .answer a => r.answer a
  | .work i => r.work i
  | .report i report => r.report i report
  | .unwind i => r.unwind i
  | .cancel h => r.cancel h
  | .drop => r.drop

/-- Reports that an enumeration is begun. -/
def announce (l : Ledger) : Ledger := l.enter .enumeration "enumerate"

/-- Reports the events of a run, and its result if it has returned. -/
def account (r : Run) (l : Ledger) : Ledger :=
  let l := l.report r.events
  match r.driver with
  | .returned result => l.finish .enumeration result
  | _ => l

/-- Any action takes a run to the next state. -/
def Step (r s : Run) : Prop := ∃ a : Action, s = r.act a

/-- A state is reached from another by actions in any order. -/
abbrev Reaches : Run → Run → Prop := CloudAccess.Reaches Step

/-- One action leads to the state after it. -/
theorem reaches_act (r : Run) (a : Action) : r.Reaches (r.act a) :=
  .single ⟨a, rfl⟩

end Run

end CloudAccess
