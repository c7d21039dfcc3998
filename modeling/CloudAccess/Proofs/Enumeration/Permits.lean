import CloudAccess.Proofs.Enumeration.Ways

/-!
# The permits of a run

A run begins with as many permits as lookups may be under way at a time.
Each of them is free, or granted to the driver that waits for one, or with a
worker.

* `Permitted` is the invariant: no permit is lost and none is made, one is
  granted only to a driver that waits, and a driver waits for one only when
  none is free.
* `Effect.permitted` says that every effect keeps it, `Reaches.permitted` that
  it holds wherever actions lead, and `Way.permitted` that it holds on every
  way.
-/

namespace CloudAccess.Run

/-- The number of workers that hold a permit. -/
def holders (r : Run) : Nat := r.workers.countP Worker.holdsPermit

/-- The permits that no worker holds. -/
def reserve (r : Run) : Nat := r.free + (if r.granted then 1 else 0)

/-- Each permit is free, granted or held. -/
structure Permitted (r : Run) : Prop where
  conserved : r.reserve + r.holders = r.enumerator.concurrency
  waits : r.granted = true → r.isQueueing = true
  none_free : r.isQueueing = true → r.granted = false → r.free = 0

variable {r t : Run} {a : Action} {i : Nat} {w : Worker} {stage : Worker.Stage}

/-! ## The operations -/

theorem Permitted.leave (h : r.Permitted) : r.leave.Permitted := by
  rw [leave_eq]
  refine ⟨?_, by simp, by simp [isQueueing]⟩
  simpa [reserve, holders] using h.conserved

theorem Permitted.fail (h : r.Permitted) (e : EnumerationError)
    (event : Option Event) : (r.fail e event).Permitted := by
  rw [fail_eq]
  exact ⟨h.conserved, h.waits, h.none_free⟩

/-- A worker that keeps its permit, or that has none, moves freely. -/
theorem Permitted.setStage (h : r.Permitted) (hw : r.workers[i]? = some w)
    (hs : Worker.holdsPermit { w with stage := stage } = w.holdsPermit) :
    (r.setStage i stage).Permitted := by
  have hcount := countP_setStage Worker.holdsPermit stage hw
  rw [hs, Nat.add_right_cancel_iff] at hcount
  refine ⟨?_, h.waits, h.none_free⟩
  rw [holders, hcount]
  exact h.conserved

/-- A worker that ceases to hold its permit gives it back. -/
theorem Permitted.giveBack (h : r.Permitted) (hw : r.workers[i]? = some w)
    (held : w.holdsPermit = true)
    (hs : Worker.holdsPermit { w with stage := stage } = false) :
    (r.setStage i stage).release.Permitted := by
  have hcount := countP_setStage Worker.holdsPermit stage hw
  have hc := h.conserved
  have hwaits := h.waits
  simp only [held, hs, if_true, Bool.false_eq_true, if_false, Nat.add_zero]
    at hcount
  simp only [reserve, holders, ← hcount] at hc
  rw [release_eq]
  refine ⟨?_, ?_, ?_⟩
  · show r.free + (if r.isQueueing && !r.granted then 0 else 1) +
      (if r.granted || r.isQueueing then 1 else 0) +
      (r.setStage i stage).workers.countP Worker.holdsPermit =
      r.enumerator.concurrency
    cases hg : r.granted <;> cases hq : r.isQueueing <;> simp_all <;> omega
  · intro hg
    show r.isQueueing = true
    cases hr : r.granted with
    | true => exact hwaits hr
    | false => simpa [Run.setStage, isQueueing, hr] using hg
  · intro hq hg
    simp_all [Run.setStage, isQueueing]

/-- A driver that does not wait for a permit was granted none. -/
theorem Permitted.not_granted (h : r.Permitted) (hq : r.isQueueing = false) :
    r.granted = false := by
  cases hg : r.granted with
  | false => rfl
  | true => rw [h.waits hg] at hq; cases hq

/-- A driver that waits for no permit moves freely. -/
theorem Permitted.move (h : r.Permitted) (hq : r.isQueueing = false)
    (ht : t.isQueueing = false) (hfixed : t.enumerator = r.enumerator)
    (hfree : t.free = r.free) (hgranted : t.granted = r.granted)
    (hworkers : t.workers = r.workers) : t.Permitted := by
  refine ⟨?_, ?_, ?_⟩
  · simp only [reserve, holders, hfixed, hfree, hgranted, hworkers]
    exact h.conserved
  · simp [hgranted, h.not_granted hq]
  · simp [ht]

/-! ## The invariant -/

/-- Every effect keeps the permits. -/
theorem Effect.permitted (he : r.Effect a t) (h : r.Permitted) :
    t.Permitted := by
  have hc := h.conserved
  cases he with
  | idle => exact h
  | exceed => exact (h.fail _ _).leave
  | ask hd => exact h.move (by simp [isQueueing, hd]) rfl rfl rfl rfl rfl
  | quit | complete => exact h.leave
  | next hd | pass hd =>
    exact h.move (by simp [isQueueing, hd]) rfl rfl rfl rfl rfl
  | refuse => exact Permitted.leave ⟨hc, h.waits, h.none_free⟩
  | employ hd _ _ hfree =>
    have hg := h.not_granted (by simp [isQueueing, hd])
    refine ⟨?_, by simp [spawn, hg], by simp [spawn, isQueueing]⟩
    simp only [reserve, holders, hg] at hc
    simp only [reserve, holders, spawn, hg, List.countP_append,
      List.countP_cons, List.countP_nil, Worker.holdsPermit]
    simp only [Bool.false_eq_true, if_false, if_true] at hc ⊢
    omega
  | queue hd _ _ hfree =>
    have hg := h.not_granted (by simp [isQueueing, hd])
    exact ⟨hc, by simp [hg], fun _ _ => hfree⟩
  | grant hd _ hg =>
    refine ⟨?_, by simp [spawn], by simp [spawn, isQueueing]⟩
    simp only [reserve, holders, hg, if_true] at hc
    simp only [reserve, holders, spawn, List.countP_append, List.countP_cons,
      List.countP_nil, Worker.holdsPermit]
    simp only [Bool.false_eq_true, if_false, if_true]
    omega
  | conclude hd | fetchCrashed hd =>
    exact h.move (by simp [isQueueing, hd]) rfl rfl rfl rfl rfl
  | fetchFailed =>
    have h' : ({ r with pages := r.pages + 1 } : Run).Permitted :=
      ⟨hc, h.waits, h.none_free⟩
    exact (h'.fail _ _).leave
  | fetched hd => exact h.move (by simp [isQueueing, hd]) rfl rfl rfl rfl rfl
  | look hw => exact h.setStage hw rfl
  | stop hw hs =>
    refine h.setStage hw ?_
    rcases hs with hs | hs <;> simp [Worker.holdsPermit, hs]
  | finish hw hs =>
    refine h.giveBack hw ?_ rfl
    rcases hs with hs | ⟨o, hs⟩ | hs <;> simp [Worker.holdsPermit, hs]
  | @accept i x item hw =>
    have h' : ({ r with found := r.found ++ item.option.toList } :
        Run).Permitted :=
      ⟨hc, h.waits, h.none_free⟩
    exact h'.giveBack hw rfl rfl
  | lookupFailed hw | lookupCrashed hw =>
    exact (h.fail _ _).giveBack (by simpa [fail_eq] using hw) rfl rfl
  | abandon hw hs =>
    refine h.giveBack hw ?_ rfl
    rcases hs with hs | hs <;> simp [Worker.holdsPermit, hs]
  | report hw | unwindStopping hw | unwindAbandoned hw =>
    exact h.setStage hw rfl
  | cancel => exact ⟨hc, h.waits, h.none_free⟩
  | drop =>
    rw [ungrant_eq]
    exact ⟨by simpa [reserve, holders] using hc, by simp, by simp [isQueueing]⟩

/-- A run starts with all its permits free. -/
theorem permitted_start (e : Enumerator) (signals : Signals)
    (caller : Cancellation) : (start e signals caller).Permitted := by
  rw [start_eq]
  by_cases hfit : e.concurrency ≤ Enumerator.maxPermits <;>
    exact ⟨by simp [reserve, holders], by simp, by simp [hfit, isQueueing]⟩

/-- A run keeps its permits wherever actions lead. -/
theorem Reaches.permitted (h : r.Reaches t) (hr : r.Permitted) : t.Permitted :=
  h.keeps hr fun _ _ _ hu he => he.permitted hu

end CloudAccess.Run

namespace CloudAccess.Enumeration

/-- A run keeps its permits on every way. -/
theorem Way.permitted {n : Enumeration} {k : Nat} {r : Run} (h : n.Way k r) :
    r.Permitted :=
  h.invariant (Run.permitted_start _ _ _) fun _ _ _ _ _ ih _ he =>
    he.permitted ih

end CloudAccess.Enumeration
