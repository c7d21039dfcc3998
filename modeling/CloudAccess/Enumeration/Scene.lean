import CloudAccess.Enumeration.Run
import CloudAccess.Process

/-!
# Rehearsals of a run

A run of an enumeration together with the tasks that fetch its pages and look
up its references, a unit at which the caller cancels it, and one at which the
caller gives it up.

`RunScene.play` says what goes on in a scene, and `reaches_step` that whatever
does acts on the run.
-/

namespace CloudAccess

/-- Who answers a run: how the page after so many others is fetched, with its
cursor, and how a reference is looked up. -/
structure Remote (ω φ κ : Type) where
  fetch : Nat → Option String → φ
  lookup : String → κ
  fetching : Process ω φ (Outcome Page)
  looking : Process ω κ (Outcome EnrichedItem)

/-- A run, the handle of its caller, the world that its tasks work on, the
fetch and the lookups under way, and what the caller intends. -/
structure RunScene (ω φ κ : Type) where
  run : Run
  caller : Cancellation
  world : ω
  fetch : Option φ := none
  lookups : List (Nat × κ) := []
  moment : Moment := {}
  cancelAt : Option Nat := none
  dropAt : Option Nat := none

/-- What goes on in a scene. -/
inductive RunTask
  | cancel
  | driver
  | giveUp
  | worker (i : Nat)
  | lookup (i : Nat)
  deriving DecidableEq, Repr

namespace RunScene

variable {ω φ κ : Type}

/-- A scene before its first step.  Unless the run is to stand by itself, its
handle descends from that of the caller, who cancels it beforehand when the
unit to do so is the first one. -/
def start (e : Enumerator) (world : ω) (standsAlone : Bool)
    (cancelAt dropAt : Option Nat) : RunScene ω φ κ :=
  let (caller, signals) := Signals.newHandle {}
  let signals := if cancelAt = some 0 then signals.cancel caller else signals
  let (parent, signals) :=
    if standsAlone then signals.newHandle else (caller, signals)
  { run := .start e signals parent, caller := caller, world := world
    cancelAt := cancelAt, dropAt := dropAt }

/-- What the tasks of a scene get to know. -/
def situation (s : RunScene ω φ κ) : Situation := ⟨s.moment, s.run.isCancelled⟩

/-- The lookup under way for a worker. -/
def lookup? (s : RunScene ω φ κ) (i : Nat) : Option κ := s.lookups.lookup i

/-- Leaves the lookup of a worker under way. -/
def setLookup (s : RunScene ω φ κ) (i : Nat) (task : κ) : RunScene ω φ κ :=
  { s with lookups := (i, task) :: s.lookups.filter (·.1 ≠ i) }

/-- The lookup of a worker is under way no more. -/
def endLookup (s : RunScene ω φ κ) (i : Nat) : RunScene ω φ κ :=
  { s with lookups := s.lookups.filter (·.1 ≠ i) }

/-- Carries out an action on the run. -/
def act (s : RunScene ω φ κ) (a : Run.Action) : RunScene ω φ κ :=
  { s with run := s.run.act a }

/-- Cancels what a task asked to cancel. -/
def cancel (s : RunScene ω φ κ) : CancelTarget → RunScene ω φ κ
  | .run => s.act (.cancel s.run.handle)
  | .caller => s.act (.cancel s.caller)

/-- The fetch under way is abandoned. -/
def dropFetch (r : Remote ω φ κ) (s : RunScene ω φ κ) : RunScene ω φ κ :=
  match s.fetch with
  | none => s
  | some task =>
    { s with
      fetch := none
      world := r.fetching.abandon s.world s.situation task }

/-- Whether the driver waits for a fetch that can go on. -/
def fetchReady (r : Remote ω φ κ) (s : RunScene ω φ κ) : Bool :=
  s.fetch.any (r.fetching.ready s.world s.situation)

/-- Whether the lookup of a worker can go on, or has to end. -/
def lookupReady (r : Remote ω φ κ) (s : RunScene ω φ κ) (i : Nat) : Bool :=
  match s.run.workers[i]? with
  | some ⟨_, .looking⟩ =>
    (s.lookup? i).all (r.looking.ready s.world s.situation)
  | some ⟨_, .stopping⟩ | some ⟨_, .abandoned⟩ => true
  | _ => false

/-- The driver moves.  When it asks for a page, the fetch begins; when it has
ceased to wait for a fetch, that is abandoned. -/
def drive (r : Remote ω φ κ) (s : RunScene ω φ κ) : RunScene ω φ κ :=
  let s := s.act .drive
  match s.run.driver with
  | .fetching cursor => { s with fetch := some (r.fetch s.run.pages cursor) }
  | _ => s.dropFetch r

/-- The fetch under way takes a turn. -/
def fetchTurn (r : Remote ω φ κ) (s : RunScene ω φ κ) (task : φ) :
    RunScene ω φ κ :=
  match r.fetching.turn s.world s.situation task with
  | (world, .goOn task) => { s with world := world, fetch := some task }
  | (world, .cancels target task) =>
    ({ s with world := world, fetch := some task } :
      RunScene ω φ κ).cancel target
  | (world, .done answer) =>
    ({ s with world := world, fetch := none } : RunScene ω φ κ).act
      (.answer answer)

/-- The driver moves, or lets the fetch that it waits for go on. -/
def driverStep (r : Remote ω φ κ) (s : RunScene ω φ κ) : RunScene ω φ κ :=
  if s.run.driverReady then s.drive r
  else
    match s.fetch with
    | some task => s.fetchTurn r task
    | none => s

/-- The lookup of a worker takes a turn. -/
def lookupTurn (r : Remote ω φ κ) (s : RunScene ω φ κ) (i : Nat) (task : κ) :
    RunScene ω φ κ :=
  match r.looking.turn s.world s.situation task with
  | (world, .goOn task) => { s with world := world }.setLookup i task
  | (world, .cancels target task) =>
    ({ s with world := world }.setLookup i task).cancel target
  | (world, .done report) =>
    ({ s with world := world }.endLookup i).act (.report i report)

/-- The lookup of a worker that stopped it ends, if it had begun. -/
def unwind (r : Remote ω φ κ) (s : RunScene ω φ κ) (i : Nat) : RunScene ω φ κ :=
  match s.lookup? i with
  | none => s.act (.unwind i)
  | some task =>
    ({ s with world := r.looking.abandon s.world s.situation task }.endLookup
      i).act (.unwind i)

/-- The lookup of a worker goes on, or ends when the worker has stopped it. -/
def lookupStep (r : Remote ω φ κ) (s : RunScene ω φ κ) (i : Nat) :
    RunScene ω φ κ :=
  match s.run.workers[i]? with
  | some ⟨reference, .looking⟩ =>
    s.lookupTurn r i ((s.lookup? i).getD (r.lookup reference))
  | some ⟨_, .stopping⟩ | some ⟨_, .abandoned⟩ => s.unwind r i
  | _ => s

/-- A task of a scene takes a step. -/
def step (r : Remote ω φ κ) (s : RunScene ω φ κ) : RunTask → RunScene ω φ κ
  | .driver => s.driverStep r
  | .giveUp => ({ s with dropAt := none }.act .drop).dropFetch r
  | .cancel => { s with cancelAt := none }.cancel .caller
  | .worker i => s.act (.work i)
  | .lookup i => s.lookupStep r i

/-- The unit at which the lookup of a worker can go on. -/
def lookupDue (r : Remote ω φ κ) (s : RunScene ω φ κ) (i : Nat) : Option Nat :=
  (s.lookup? i).bind (r.looking.due s.world s.situation)

/-- A scene is over once the driver has come to its end and every worker and
every lookup has ended. -/
def isOver (s : RunScene ω φ κ) : Bool := s.run.driver.isOver && s.run.isQuiet

/-- The play of a scene.  A cancellation by the caller comes first in its unit,
also in the one in which the run ends. -/
def play (r : Remote ω φ κ) : Play (RunScene ω φ κ) RunTask where
  tasks s := [.cancel, .driver, .giveUp] ++
    (List.range s.run.workers.length).flatMap fun i => [.worker i, .lookup i]
  ready s
    | .driver => s.run.driverReady || s.fetchReady r
    | .giveUp => s.dropAt.any (· ≤ s.moment.unit)
    | .cancel => s.cancelAt.any (· ≤ s.moment.unit)
    | .worker i => s.run.workerReady i
    | .lookup i => s.lookupReady r i
  step := step r
  due s := earliest <|
    [s.fetch.bind (r.fetching.due s.world s.situation), s.cancelAt, s.dropAt] ++
      (List.range s.run.workers.length).map (s.lookupDue r)
  advance s unit := { s with moment := s.moment.moveTo unit }
  isOver := isOver

/-- Whether the handle of the caller is cancelled. -/
def callerCancelled (s : RunScene ω φ κ) : Bool :=
  s.caller.isCancelled s.run.signals

/-! ## What a scene does to its run -/

theorem reaches_act (s : RunScene ω φ κ) (a : Run.Action) :
    s.run.Reaches (s.act a).run := Run.reaches_act s.run a

theorem reaches_cancel (s : RunScene ω φ κ) (target : CancelTarget) :
    s.run.Reaches (s.cancel target).run := by
  cases target <;> exact reaches_act _ _

@[simp] theorem run_dropFetch (r : Remote ω φ κ) (s : RunScene ω φ κ) :
    (s.dropFetch r).run = s.run := by
  unfold dropFetch
  split <;> rfl

theorem reaches_drive (r : Remote ω φ κ) (s : RunScene ω φ κ) :
    s.run.Reaches (s.drive r).run := by
  unfold drive
  dsimp only
  split
  · exact reaches_act s .drive
  · rw [run_dropFetch]
    exact reaches_act s .drive

theorem reaches_fetchTurn (r : Remote ω φ κ) (s : RunScene ω φ κ) (task : φ) :
    s.run.Reaches (s.fetchTurn r task).run := by
  unfold fetchTurn
  split
  · exact .refl
  · rename_i world target task' _
    exact reaches_cancel { s with world := world, fetch := some task' } target
  · rename_i world answer _
    exact reaches_act { s with world := world, fetch := none } (.answer answer)

theorem reaches_lookupTurn (r : Remote ω φ κ) (s : RunScene ω φ κ) (i : Nat)
    (task : κ) : s.run.Reaches (s.lookupTurn r i task).run := by
  unfold lookupTurn
  split
  · exact .refl
  · rename_i world target task' _
    exact reaches_cancel ({ s with world := world }.setLookup i task') target
  · rename_i world report _
    exact reaches_act ({ s with world := world }.endLookup i) (.report i report)

theorem reaches_unwind (r : Remote ω φ κ) (s : RunScene ω φ κ) (i : Nat) :
    s.run.Reaches (s.unwind r i).run := by
  unfold unwind
  split
  · exact reaches_act s (.unwind i)
  · rename_i task _
    exact reaches_act ({ s with
      world := r.looking.abandon s.world s.situation task }.endLookup i)
      (.unwind i)

theorem reaches_lookupStep (r : Remote ω φ κ) (s : RunScene ω φ κ) (i : Nat) :
    s.run.Reaches (s.lookupStep r i).run := by
  unfold lookupStep
  split
  · exact reaches_lookupTurn r s i _
  · exact reaches_unwind r s i
  · exact reaches_unwind r s i
  · exact .refl

theorem reaches_driverStep (r : Remote ω φ κ) (s : RunScene ω φ κ) :
    s.run.Reaches (s.driverStep r).run := by
  unfold driverStep
  split
  · exact reaches_drive r s
  · split
    · exact reaches_fetchTurn r s _
    · exact .refl

/-- Whatever a task does, it acts on the run. -/
theorem reaches_step (r : Remote ω φ κ) (s : RunScene ω φ κ) (t : RunTask) :
    s.run.Reaches (s.step r t).run := by
  cases t with
  | driver => exact reaches_driverStep r s
  | giveUp =>
    show s.run.Reaches (({ s with dropAt := none }.act .drop).dropFetch r).run
    rw [run_dropFetch]
    exact reaches_act { s with dropAt := none } .drop
  | cancel => exact reaches_cancel { s with cancelAt := none } .caller
  | worker i => exact reaches_act s (.work i)
  | lookup i => exact reaches_lookupStep r s i

end RunScene

end CloudAccess
