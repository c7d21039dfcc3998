import CloudAccess.Reaches

/-!
# Rehearsals

Tasks that work together, run one at a time in a time that is counted in
whole units.  A task runs until it has to wait; when all of them wait, the
time moves on to the next unit at which one of them can go on.

* `Play` describes the tasks of a state and what each of them does next.
* `Play.Step` lets any task that is ready take a step, in whatever order;
  `Play.Reaches` follows such steps.
* `Play.run` takes the tasks in the order in which they became ready.
* `reaches_run` says that such a run takes steps of `Play.Step` only, so that
  what holds after every step holds in every run.
-/

namespace CloudAccess

/-- The time of a rehearsal: whole units, and within one unit the rounds that
begin when every task waits. -/
structure Moment where
  unit : Nat := 0
  round : Nat := 0
  deriving DecidableEq, Repr

/-- The moment at which the time has moved on to `unit`, unless it is past
that already. -/
def Moment.moveTo (m : Moment) (unit : Nat) : Moment :=
  ⟨max m.unit unit, m.round + 1⟩

/-- The lesser of two units, where there are any. -/
def earlier : Option Nat → Option Nat → Option Nat
  | none, b => b
  | a, none => a
  | some a, some b => some (min a b)

/-- The least of the units in a list, where there is one. -/
def earliest (due : List (Option Nat)) : Option Nat := due.foldl earlier none

/-- Tasks named by `τ` that work on a state `σ`.  `tasks` lists them in the
order in which those that become ready together are taken; `due` is the next
unit at which a waiting task can go on. -/
structure Play (σ τ : Type) where
  tasks : σ → List τ
  ready : σ → τ → Bool
  step : σ → τ → σ
  due : σ → Option Nat
  advance : σ → Nat → σ
  isOver : σ → Bool

/-- How a run ends: its work is over, every task waits for ever, or the
number of steps granted to it was too small. -/
inductive Ending (σ : Type)
  | complete (s : σ)
  | stuck (s : σ)
  | unfinished (s : σ)

/-- The state in which a run ends. -/
def Ending.state {σ : Type} : Ending σ → σ
  | complete s | stuck s | unfinished s => s

namespace Play

variable {σ τ : Type}

/-- A task that is ready takes a step, or the time moves on when none is. -/
inductive Step (p : Play σ τ) : σ → σ → Prop
  | task {s : σ} {t : τ} (mem : t ∈ p.tasks s) (ready : p.ready s t = true) :
      Step p s (p.step s t)
  | time {s : σ} {unit : Nat} (waits : ∀ t ∈ p.tasks s, p.ready s t = false)
      (due : p.due s = some unit) : Step p s (p.advance s unit)

/-- A state is reached from another by steps in any order. -/
abbrev Reaches (p : Play σ τ) : σ → σ → Prop := CloudAccess.Reaches p.Step

variable [DecidableEq τ]

/-- The tasks that are ready, those from before in their order and then those
that have just become ready. -/
def line (p : Play σ τ) (queue : List τ) (s : σ) : List τ :=
  let ready := (p.tasks s).filter (p.ready s)
  let waiting := queue.filter fun t => ready.contains t
  waiting ++ ready.filter fun t => !waiting.contains t

/-- Runs the tasks for at most `steps` steps, in the order in which they
became ready. -/
def run (p : Play σ τ) : Nat → List τ → σ → Ending σ
  | 0, _, s => if p.isOver s then .complete s else .unfinished s
  | steps + 1, queue, s =>
    if p.isOver s then .complete s
    else
      match p.line queue s with
      | t :: queue => run p steps (t :: queue) (p.step s t)
      | [] =>
        match p.due s with
        | some unit => run p steps [] (p.advance s unit)
        | none => .stuck s

/-- A task in line is a task of the state and ready. -/
theorem mem_line {p : Play σ τ} {queue : List τ} {s : σ} {t : τ}
    (h : t ∈ p.line queue s) : t ∈ p.tasks s ∧ p.ready s t = true := by
  simp only [line, List.mem_append, List.mem_filter, List.contains_eq_mem,
    decide_eq_true_eq] at h
  rcases h with ⟨_, h⟩ | ⟨h, _⟩ <;> exact h

/-- When nothing is in line, no task is ready. -/
theorem waits_of_line_eq_nil {p : Play σ τ} {queue : List τ} {s : σ}
    (h : p.line queue s = []) : ∀ t ∈ p.tasks s, p.ready s t = false := by
  intro t ht
  cases hr : p.ready s t with
  | false => rfl
  | true =>
    have hmem : t ∈ p.line queue s := by
      by_cases hq : t ∈ queue
      · simp [line, ht, hr, hq]
      · simp [line, ht, hr, hq]
    rw [h] at hmem
    cases hmem

/-- A run takes steps of its play. -/
theorem reaches_run (p : Play σ τ) (steps : Nat) (queue : List τ) (s : σ) :
    p.Reaches s (p.run steps queue s).state := by
  induction steps generalizing queue s with
  | zero =>
    unfold run
    split <;> exact .refl
  | succ steps ih =>
    unfold run
    split
    · exact .refl
    · split
      · rename_i t rest hline
        have hmem := mem_line (hline ▸ List.mem_cons_self : t ∈ p.line queue s)
        exact (CloudAccess.Reaches.single (.task hmem.1 hmem.2)).trans (ih _ _)
      · rename_i hline
        split
        · rename_i unit hdue
          exact (CloudAccess.Reaches.single
            (.time (waits_of_line_eq_nil hline) hdue)).trans (ih _ _)
        · exact .refl

end Play

end CloudAccess
