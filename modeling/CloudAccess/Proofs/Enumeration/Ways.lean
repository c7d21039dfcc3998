import CloudAccess.Proofs.Enumeration.Effects

/-!
# The ways of an enumeration

A run by itself says nothing about what its fetches and lookups bring.  An
`Enumeration` adds that: the answer to each fetch in its order, and how the
lookup of each reference ends.  It also has the caller's handle, which was
given out before the run was begun.

* `Allows` says which actions are possible in a state of the run: what the
  driver, the workers, the fetch and the lookups can do, in any order, and a
  cancellation of any handle that was given out before.  An order of actions
  stands for delays that lead to it.
* `Way n k r` says that `k` actions lead from the start to `r`, and
  `Complete` that nothing more can happen.
* `Way.invariant` is the induction over a way.
* `isCancelled_iff` says when a run is cancelled: it has a first error, or its
  caller is cancelled.
-/

namespace CloudAccess

/-- A handle was given out: its own signal, and those from which it
descends. -/
def Signals.Issued (s : Signals) (h : Cancellation) : Prop :=
  h.own < s.count ∧ ∀ k ∈ h.ancestors, k < s.count

/-- Only signals that were given out are raised. -/
def Signals.Sound (s : Signals) : Prop := ∀ k ∈ s.raised, k < s.count

instance (s : Signals) (h : Cancellation) : Decidable (s.Issued h) := by
  unfold Signals.Issued; infer_instance

instance (s : Signals) : Decidable s.Sound := by
  unfold Signals.Sound; infer_instance

/-- An enumeration: its bounds, the signals and the handle of its caller, the
answers to its fetches in their order, and how the lookup of each reference
ends. -/
structure Enumeration where
  enumerator : Enumerator
  signals : Signals
  caller : Cancellation
  answers : Nat → Outcome Page
  lookup : String → Outcome EnrichedItem
  sound : signals.Sound
  issued : signals.Issued caller

namespace Enumeration

/-- The run at its start. -/
def start (n : Enumeration) : Run := .start n.enumerator n.signals n.caller

/-- Answers and reports are those of the enumeration.  Whoever holds a handle
from before the run may cancel it until the run is over, and nobody gives the
run up. -/
def Fits (n : Enumeration) (r : Run) : Run.Action → Prop
  | .answer o => o = n.answers r.pages
  | .report i o => ∀ w, r.workers[i]? = some w → o = n.lookup w.reference
  | .cancel h =>
    r.driver.isOver = false ∧ h.own < n.signals.count ∧ h.own ∉ r.signals.raised
  | .drop => False
  | .drive | .work _ | .unwind _ => True

/-- Whether an action can happen next. -/
def Allows (n : Enumeration) (r : Run) (a : Run.Action) : Prop :=
  r.Enabled a ∧ n.Fits r a

/-- A number of actions leads from the start to a state. -/
inductive Way (n : Enumeration) : Nat → Run → Prop
  | start : Way n 0 n.start
  | act {k : Nat} {r : Run} {a : Run.Action} (h : Way n k r)
      (ha : n.Allows r a) :
      Way n (k + 1) (r.act a)

/-- Nothing more can happen. -/
def Complete (n : Enumeration) (r : Run) : Prop :=
  (∃ k, n.Way k r) ∧ ∀ a, ¬n.Allows r a

variable {n : Enumeration} {k : Nat} {r t : Run} {a : Run.Action}

/-- What holds at the start and is kept by every effect of an allowed action
holds on every way. -/
theorem Way.invariant {I : Run → Prop} (h : n.Way k r) (start : I n.start)
    (keep : ∀ k r a t, n.Way k r → I r → n.Allows r a → r.Effect a t → I t) :
    I r := by
  induction h with
  | start => exact start
  | @act k r a h ha ih => exact keep k r a _ h ih ha (r.effect_act a)

/-! ## The start -/

theorem start_eq (n : Enumeration) :
    n.start =
      { enumerator := n.enumerator
        signals := { n.signals with count := n.signals.count + 1 }
        caller := n.caller
        handle := ⟨n.signals.count, n.caller.own :: n.caller.ancestors⟩
        driver :=
          if n.enumerator.concurrency ≤ Enumerator.maxPermits then .turning none
            else .crashed
        free := n.enumerator.concurrency
        events :=
          if n.enumerator.concurrency ≤ Enumerator.maxPermits then
            [.runStarted n.enumerator.concurrency]
          else [] } :=
  Run.start_eq n.enumerator n.signals n.caller

/-! ## What stays, and when a run is cancelled -/

/-- The run keeps its bounds, the handle of its caller and its own. -/
theorem Way.fixed (h : n.Way k r) :
    r.enumerator = n.enumerator ∧ r.caller = n.caller ∧
      r.handle = ⟨n.signals.count, n.caller.own :: n.caller.ancestors⟩ := by
  refine h.invariant (I := fun r => r.enumerator = n.enumerator ∧
    r.caller = n.caller ∧
    r.handle = ⟨n.signals.count, n.caller.own :: n.caller.ancestors⟩) ?_ ?_
  · simp [start_eq]
  · intro k r a t _ ih _ he
    obtain ⟨h1, h2, h3⟩ := he.fixed
    exact ⟨h1.trans ih.1, h2.trans ih.2.1, h3.trans ih.2.2⟩

theorem Way.enumerator (h : n.Way k r) : r.enumerator = n.enumerator :=
  h.fixed.1

theorem Way.handle (h : n.Way k r) :
    r.handle = ⟨n.signals.count, n.caller.own :: n.caller.ancestors⟩ :=
      h.fixed.2.2

/-- The signal of the run is raised exactly when there is a first error. -/
theorem Way.own_raised_iff (h : n.Way k r) :
    n.signals.count ∈ r.signals.raised ↔ r.firstError.isSome = true := by
  refine h.invariant
    (I := fun r => n.signals.count ∈ r.signals.raised ↔
      r.firstError.isSome = true) ?_ ?_
  · have hfresh : n.signals.count ∉ n.signals.raised := fun hin =>
      Nat.lt_irrefl _ (n.sound _ hin)
    simpa [start_eq] using hfresh
  · intro k r a t hway ih ha he
    rcases he.signals with ⟨hs, hf⟩ | ⟨hs, hf⟩ | ⟨g, rfl, hs, hf⟩
    · rw [hs, hf]
      exact ih
    · rw [hs, Signals.mem_raised_cancel, hway.handle]
      simp [hf]
    · have hg : n.signals.count ≠ g.own := Nat.ne_of_gt ha.2.2.1
      rw [hs, hf, Signals.mem_raised_cancel]
      simp [hg, ih]

/-- A run is cancelled exactly when it has a first error or its caller is
cancelled. -/
theorem Way.isCancelled_iff (h : n.Way k r) :
    r.isCancelled = true ↔
      r.firstError.isSome = true ∨ n.caller.isCancelled r.signals = true := by
  unfold Run.isCancelled
  rw [← h.own_raised_iff, h.handle, Cancellation.isCancelled_iff,
    Cancellation.isCancelled_iff]
  simp

end Enumeration

end CloudAccess
