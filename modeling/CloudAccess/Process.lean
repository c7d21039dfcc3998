import CloudAccess.Rehearsal

/-!
# Processes

Tasks that work on a world in turns, each of them until it ends in a result.

* `Process` says when a task can go on, what it does in a turn, when it can go
  on if it has to wait, and what becomes of the world when it is abandoned.
* `Solo.run` runs one task by itself.
-/

namespace CloudAccess

/-- What a task gets to know when it takes its turn: the moment, and whether
the work that it belongs to is cancelled. -/
structure Situation where
  moment : Moment
  cancelled : Bool := false

/-- Whose work a task cancels: that which it belongs to, or the caller's. -/
inductive CancelTarget
  | run
  | caller
  deriving DecidableEq, Repr

/-- What a turn of a task comes to. -/
inductive Turn (κ α : Type)
  | goOn (task : κ)
  | cancels (target : CancelTarget) (task : κ)
  | done (result : α)

/-- Tasks `κ` that work on a world `ω` and end in an `α`. -/
structure Process (ω κ α : Type) where
  ready : ω → Situation → κ → Bool
  due : ω → Situation → κ → Option Nat
  turn : ω → Situation → κ → ω × Turn κ α
  abandon : ω → Situation → κ → ω

/-- One task by itself: it is under way, or it has ended. -/
structure Solo (ω κ α : Type) where
  world : ω
  moment : Moment := {}
  task : κ ⊕ α

namespace Solo

variable {ω κ α : Type}

/-- What the task of a solo gets to know. -/
def situation (s : Solo ω κ α) : Situation := ⟨s.moment, false⟩

/-- The task takes its turn. -/
def step (p : Process ω κ α) (s : Solo ω κ α) : Solo ω κ α :=
  match s.task with
  | .inr _ => s
  | .inl task =>
    match p.turn s.world s.situation task with
    | (world, .goOn task) | (world, .cancels _ task) =>
      { s with world := world, task := .inl task }
    | (world, .done result) => { s with world := world, task := .inr result }

/-- The play of one task. -/
def play (p : Process ω κ α) : Play (Solo ω κ α) Unit where
  tasks _ := [()]
  ready s _ := s.task.elim (p.ready s.world s.situation) fun _ => false
  step s _ := s.step p
  due s := s.task.elim (p.due s.world s.situation) fun _ => none
  advance s unit := { s with moment := s.moment.moveTo unit }
  isOver s := s.task.isRight

/-- Runs a task by itself for at most `steps` steps. -/
def run (p : Process ω κ α) (steps : Nat) (world : ω) (task : κ) : Solo ω κ α :=
  ((play p).run steps [] { world := world, task := .inl task }).state

end Solo

end CloudAccess
