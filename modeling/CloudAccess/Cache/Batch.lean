import CloudAccess.Cache.Assumer
import CloudAccess.Rehearsal

/-!
# Batches of retrievals

Retrievals that are started together and run until each has come to its end,
and a deadline at which those that are left are given up.

`Batch.run` runs a batch; `Batch.steps` bounds the number of its steps.
-/

namespace CloudAccess

/-- Retrievals that run together, with the unit at which they are given up, and
those that have ended, in the order in which they did. -/
structure Batch where
  scene : PlannedCache
  members : List Nat
  deadline : Option Nat := none
  moment : Moment := {}
  ended : List Nat := []

/-- What goes on in a batch. -/
inductive Batch.Task
  | retrieval (i : Nat)
  | deadline
  deriving DecidableEq, Repr

namespace Batch

/-- A batch of fresh retrievals through the given handles. -/
def start (scene : PlannedCache) (handles : List Handle)
    (deadline : Option Nat) : Batch :=
  { scene := handles.foldl (fun p h => p.act (.start h)) scene
    members := (List.range handles.length).map (scene.nextRetrieval + ·)
    deadline := deadline }

/-- Whether every retrieval has ended. -/
def isOver (b : Batch) : Bool := b.members.all fun i => (b.scene.fate? i).isSome

/-- Lets a retrieval go on. -/
def goOn (b : Batch) (i : Nat) : Batch :=
  let scene := b.scene.step b.moment.unit i
  { b with
    scene := scene
    ended := if (scene.fate? i).isSome then b.ended ++ [i] else b.ended }

/-- The deadline has come: the retrievals that are left are given up. -/
def giveUp (b : Batch) : Batch :=
  { b with
    scene := b.members.foldl PlannedCache.drop b.scene
    ended := b.ended ++ b.members.filter fun i => (b.scene.fate? i).isNone
    deadline := none }

/-- The retrievals run in the order in which they were started; the deadline
comes last. -/
def play : Play Batch Batch.Task where
  tasks b := b.members.map .retrieval ++ [.deadline]
  ready b
    | .retrieval i => b.scene.ready b.moment.unit i
    | .deadline => b.deadline.any (· ≤ b.moment.unit)
  step b
    | .retrieval i => b.goOn i
    | .deadline => b.giveUp
  due b := earlier b.deadline (earliest (b.members.map b.scene.due))
  advance b unit := { b with moment := b.moment.moveTo unit }
  isOver := isOver

/-- No run of a batch takes more steps: a retrieval looks, looks again and
gets its answer, and the time moves on at most once for each answer and once
for the deadline. -/
def steps (b : Batch) : Nat := 4 * b.members.length + 2

/-- Runs a batch to its end. -/
def run (b : Batch) : Batch := (play.run b.steps [] b).state

/-- How the retrievals have ended. -/
def fates (b : Batch) : List (Option Retrieval.Fate) :=
  b.members.map b.scene.fate?

end Batch

end CloudAccess
