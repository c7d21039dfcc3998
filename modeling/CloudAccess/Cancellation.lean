/-!
# Cancellation

A handle tells whether the work that it was given to has been cancelled.
Each handle has a signal of its own and knows the signals of the handles from
which it descends.  Cancelling a handle raises its own signal; a handle is
cancelled when its signal or one from which it descends is raised.

* `Signals` are the signals given out and raised so far.
* `Cancellation` is a handle.  A copy of a handle is the handle itself.
* `HandleTable` keeps handles in numbered slots together with the waiters on
  them, and `HandleTable.apply` carries out one operation on it.
-/

namespace CloudAccess

/-- The signals given out so far, numbered from zero, and those that were
raised. -/
structure Signals where
  count : Nat := 0
  raised : List Nat := []
  deriving DecidableEq, Repr

/-- A handle: its own signal and those of the handles from which it descends,
the nearest first. -/
structure Cancellation where
  own : Nat
  ancestors : List Nat := []
  deriving DecidableEq, Repr

namespace Cancellation

/-- A handle is cancelled when a signal on its way to the root is raised. -/
def isCancelled (h : Cancellation) (s : Signals) : Bool :=
  s.raised.contains h.own || h.ancestors.any s.raised.contains

/-- The signals on the way from a handle to its root. -/
def path (h : Cancellation) : List Nat := h.own :: h.ancestors

/-- A handle as diagnostic messages show it. -/
def debugText (h : Cancellation) (s : Signals) : String :=
  "Cancellation \x7b cancelled: " ++ (if h.isCancelled s then "true"
    else "false") ++ " \x7d"

end Cancellation

namespace Signals

/-- A fresh handle, which descends from none. -/
def newHandle (s : Signals) : Cancellation × Signals :=
  (⟨s.count, []⟩, { s with count := s.count + 1 })

/-- A fresh handle that descends from `parent`. -/
def newChild (s : Signals) (parent : Cancellation) : Cancellation × Signals :=
  (⟨s.count, parent.own :: parent.ancestors⟩, { s with count := s.count + 1 })

/-- Raises the signal of a handle. -/
def cancel (s : Signals) (h : Cancellation) : Signals :=
  if s.raised.contains h.own then s else { s with raised := h.own :: s.raised }

/-- After a handle was cancelled, the raised signals are those from before and
its own. -/
theorem mem_raised_cancel {s : Signals} {h : Cancellation} {n : Nat} :
    n ∈ (s.cancel h).raised ↔ n = h.own ∨ n ∈ s.raised := by
  unfold cancel
  split
  · rename_i hin
    simp only [List.contains_eq_mem, decide_eq_true_eq] at hin
    constructor
    · exact Or.inr
    · rintro (rfl | hn)
      · exact hin
      · exact hn
  · simp

end Signals

theorem Cancellation.isCancelled_iff {h : Cancellation} {s : Signals} :
    h.isCancelled s = true ↔
      h.own ∈ s.raised ∨ ∃ n ∈ h.ancestors, n ∈ s.raised := by
  simp [Cancellation.isCancelled]

/-- A cancelled handle stays cancelled whatever else is cancelled. -/
theorem Cancellation.isCancelled_cancel {h g : Cancellation} {s : Signals}
    (hc : h.isCancelled s = true) : h.isCancelled (s.cancel g) = true := by
  rw [Cancellation.isCancelled_iff] at hc ⊢
  rcases hc with hc | ⟨n, hn, hc⟩
  · exact Or.inl (Signals.mem_raised_cancel.2 (Or.inr hc))
  · exact Or.inr ⟨n, hn, Signals.mem_raised_cancel.2 (Or.inr hc)⟩

/-- Cancelling a handle cancels it. -/
theorem Cancellation.isCancelled_cancel_self (h : Cancellation) (s : Signals) :
    h.isCancelled (s.cancel h) = true :=
  Cancellation.isCancelled_iff.2
    (Or.inl (Signals.mem_raised_cancel.2 (Or.inl rfl)))

/-! ## Handles in slots -/

/-- An operation on the handles in the slots of a table. -/
inductive HandleOp
  | create
  | copy (slot : Nat)
  | derive (slot : Nat)
  | cancel (slot : Nat)
  | wait (slot : Nat)
  | drop (slot : Nat)
  | check
  | renewFirst
  deriving DecidableEq, Repr

/-- Someone who waits until a handle is cancelled, and whether they were
resumed. -/
structure Waiter where
  handle : Cancellation
  resumed : Bool := false
  deriving DecidableEq, Repr

/-- Handles in numbered slots, and those who wait on handles. -/
structure HandleTable where
  signals : Signals
  handles : List Cancellation
  waiters : List Waiter
  deriving DecidableEq, Repr

namespace HandleTable

/-- A table with one fresh handle. -/
def start : HandleTable :=
  let (h, signals) := Signals.newHandle {}
  ⟨signals, [h], []⟩

/-- A signal is held by the handles whose way to the root it is on: those in
the slots, and those that someone still waits on. -/
def holds (t : HandleTable) (signal : Nat) : Bool :=
  t.handles.any (·.path.contains signal) ||
    t.waiters.any fun w => !w.resumed && w.handle.path.contains signal

/-- A signal resumes who listens to it when it is raised, and also when it is
closed because no handle holds it any more. -/
def resumes (t : HandleTable) (signal : Nat) : Bool :=
  t.signals.raised.contains signal || !t.holds signal

/-- A waiter looks at every signal on the way of its handle to the root. -/
def poll (t : HandleTable) (w : Waiter) : Waiter :=
  { w with resumed := w.resumed || w.handle.path.any t.resumes }

/-- A change of some signals wakes those who listen to one of them. -/
def wake (t : HandleTable) (signals : List Nat) : HandleTable :=
  { t with waiters := t.waiters.map fun w =>
      if signals.any w.handle.path.contains then t.poll w else w }

/-- Someone begins to wait, with a first look at the signals. -/
def wait (t : HandleTable) (h : Cancellation) : HandleTable :=
  let w : Waiter := { handle := h }
  { t with waiters := t.waiters ++ [{ t with
    waiters := t.waiters ++ [w] }.poll w] }

/-- A handle that was in a slot is gone, which closes the signals that no other
one holds. -/
def closeAfter (t : HandleTable) (h : Cancellation) : HandleTable :=
  t.wake (h.path.filter (!t.holds ·))

/-- Carries out one operation; there is none on an empty slot.  A fresh
handle in the first slot drops the one from before. -/
def apply (t : HandleTable) : HandleOp → Option HandleTable
  | .create =>
    let (h, signals) := t.signals.newHandle
    some { t with signals := signals, handles := t.handles ++ [h] }
  | .copy slot =>
    t.handles[slot]?.map fun h => { t with handles := t.handles ++ [h] }
  | .derive slot => t.handles[slot]?.map fun h =>
    let (child, signals) := t.signals.newChild h
    { t with signals := signals, handles := t.handles ++ [child] }
  | .cancel slot => t.handles[slot]?.map fun h =>
    { t with signals := t.signals.cancel h }.wake [h.own]
  | .wait slot => t.handles[slot]?.map t.wait
  | .drop slot => t.handles[slot]?.map fun h =>
    { t with handles := t.handles.eraseIdx slot }.closeAfter h
  | .check => some t
  | .renewFirst => t.handles[0]?.map fun old =>
    let (h, signals) := t.signals.newHandle
    { t with signals := signals, handles := t.handles.set 0 h }.closeAfter old

/-- Which handles are cancelled. -/
def cancelled (t : HandleTable) : List Bool :=
  t.handles.map (·.isCancelled t.signals)

/-- Which waiters have been resumed. -/
def resolved (t : HandleTable) : List Bool := t.waiters.map (·.resumed)

end HandleTable

end CloudAccess
