import CloudAccess.Proofs.Enumeration.Effects

/-!
# What an action does to one worker

`Effects` says what an action does to a run.  This module says the same of one
worker: whether it stays, or moves to another stage, and why.

* `Turn` lists the moves of a worker, and `Effect.turn` proves the list
  complete.  The lemmas after it read off what a move says about the
  reference, the lookup and the permit of the worker.
* `Effect.hires` says when a worker is added.
* `after` is a run after a list of actions.
-/

namespace CloudAccess.Run

variable {r s t : Run} {a : Action} {i j : Nat} {w w' : Worker}

/-! ## The moves of a worker -/

/-- What an action `a` that takes a run `r` to `t` does to its worker `i`. -/
inductive Turn (r : Run) (a : Action) (t : Run) (i : Nat) :
    Worker → Worker → Prop
  | stay {w : Worker} : Turn r a t i w w
  | look {x : String} (hc : r.isCancelled = false) :
      Turn r a t i ⟨x, .spawned⟩ ⟨x, .looking⟩
  | stop {x : String} {stage : Worker.Stage}
      (hs : stage = .spawned ∨ stage = .looking) :
      Turn r a t i ⟨x, stage⟩ ⟨x, .stopping⟩
  | report {x : String} {o : Outcome EnrichedItem} (ha : a = .report i o) :
      Turn r a t i ⟨x, .looking⟩ ⟨x, .reported o⟩
  | accept {x : String} {item : EnrichedItem} :
      Turn r a t i ⟨x, .reported (.value item)⟩ ⟨x, .finished⟩
  | fail {x : String} {o : Outcome EnrichedItem} (hc : t.isCancelled = true) :
      Turn r a t i ⟨x, .reported o⟩ ⟨x, .finished⟩
  | finish {x : String} {stage : Worker.Stage}
      (hs : stage = .spawned ∨ (∃ o, stage = .reported o) ∨ stage = .stopped)
      (hwhy : r.driver.isGone = true ∨ t.isCancelled = true ∨
        stage = .stopped) :
      Turn r a t i ⟨x, stage⟩ ⟨x, .finished⟩
  | abandon {x : String} {stage : Worker.Stage}
      (hs : stage = .looking ∨ stage = .stopping)
      (hg : r.driver.isGone = true) : Turn r a t i ⟨x, stage⟩ ⟨x, .abandoned⟩
  | unwind {x : String} (ha : a = .unwind i) :
      Turn r a t i ⟨x, .stopping⟩ ⟨x, .stopped⟩
  | vanish {x : String} (ha : a = .unwind i) :
      Turn r a t i ⟨x, .abandoned⟩ ⟨x, .finished⟩

@[simp] theorem getElem?_setStage (r : Run) (i j : Nat) (stage : Worker.Stage) :
    (r.setStage i stage).workers[j]? =
      if i = j then r.workers[j]?.map ({ · with stage := stage })
        else r.workers[j]? := by
  by_cases h : i = j
  · subst h
    simp [setStage]
  · simp [setStage, h]

/-- When one worker is moved, that one takes its turn and the others stay. -/
theorem turn_setStage {v : Worker} {stage : Worker.Stage}
    (hv : r.workers[j]? = some v)
    (hmoved : t.workers = (r.setStage j stage).workers)
    (hturn : r.Turn a t j v { v with stage := stage })
    (hw : r.workers[i]? = some w) :
    ∃ w', t.workers[i]? = some w' ∧ r.Turn a t i w w' := by
  rw [hmoved, getElem?_setStage]
  by_cases heq : j = i
  · subst heq
    obtain rfl := Option.some.inj (hv.symm.trans hw)
    exact ⟨_, by simp [hv], hturn⟩
  · exact ⟨w, by simp [heq, hw], .stay⟩

/-- Every worker takes one of the listed turns. -/
theorem Effect.turn (he : r.Effect a t) (hw : r.workers[i]? = some w) :
    ∃ w', t.workers[i]? = some w' ∧ r.Turn a t i w w' := by
  cases hdrivers : a.isDrivers with
  | true =>
    refine ⟨w, ?_, .stay⟩
    rcases he.staff hdrivers with hsame | ⟨x, _, hadded⟩
    · rw [hsame, hw]
    · obtain ⟨hlt, _⟩ := List.getElem?_eq_some_iff.1 hw
      rw [hadded, List.getElem?_append_left hlt, hw]
  | false =>
    cases he with
    | idle | cancel => exact ⟨w, hw, .stay⟩
    | look hv _ hc => exact turn_setStage hv rfl (.look hc) hw
    | stop hv hs => exact turn_setStage hv rfl (.stop hs) hw
    | report hv => exact turn_setStage hv rfl (.report rfl) hw
    | unwindStopping hv => exact turn_setStage hv rfl (.unwind rfl) hw
    | unwindAbandoned hv => exact turn_setStage hv rfl (.vanish rfl) hw
    | finish hv hs hwhy =>
      refine turn_setStage hv ?_ (.finish hs ?_) hw
      · simp [Run.finish, release_eq]
      · simpa using hwhy
    | accept hv =>
      exact turn_setStage hv (by simp [Run.finish, release_eq, setStage])
        .accept hw
    | lookupFailed hv | lookupCrashed hv =>
      refine turn_setStage hv ?_ (.fail (by simp)) hw
      simp [Run.finish, release_eq, fail_eq, setStage]
    | abandon hv hs hg =>
      exact turn_setStage hv (by simp [release_eq]) (.abandon hs hg) hw
    | _ => cases hdrivers

/-! ## What a move says -/

theorem Turn.reference (h : r.Turn a t i w w') :
    w'.reference = w.reference := by
  cases h <;> rfl

/-- A worker that has finished stays so. -/
theorem Turn.finished (h : r.Turn a t i w w') (hw : w.stage = .finished) :
    w' = w := by
  cases h <;> simp_all

/-- A worker gets a report only from its lookup. -/
theorem Turn.reported (h : r.Turn a t i w w') {o : Outcome EnrichedItem}
    (hw : w'.stage = .reported o) :
    w' = w ∨ w.stage = .looking ∧ a = .report i o := by
  cases h <;> simp_all

/-- A lookup that is under way no more has ended with a report, or was stopped
and is gone. -/
theorem Turn.isLooking (h : r.Turn a t i w w') (hw : w.isLooking = true)
    (hw' : w'.isLooking = false) : (∃ o, a = .report i o) ∨ a = .unwind i := by
  cases h <;> simp_all [Worker.isLooking]
  case finish hs _ => rcases hs with rfl | ⟨o, rfl⟩ | rfl <;> simp at hw

/-- A worker without a permit gets none. -/
theorem Turn.holdsPermit (h : r.Turn a t i w w') (hw : w.holdsPermit = false) :
    w'.holdsPermit = false := by
  cases h <;> simp_all [Worker.holdsPermit]
  case stop hs => rcases hs with rfl | rfl <;> simp at hw

/-- A worker gives its permit back when its lookup is not under way, or, once
the driver is gone, when it abandons its lookup. -/
theorem Turn.givesBack (h : r.Turn a t i w w') (hw : w.holdsPermit = true)
    (hw' : w'.holdsPermit = false) :
    w.isLooking = false ∨ r.driver.isGone = true ∧ w'.stage = .abandoned := by
  cases h with
  | stay => rw [hw] at hw'; cases hw'
  | abandon _ hg => exact .inr ⟨hg, rfl⟩
  | finish hs => rcases hs with rfl | ⟨o, rfl⟩ | rfl <;> exact .inl rfl
  | accept | fail => exact .inl rfl
  | vanish => cases hw
  | look | stop | report | unwind => cases hw'

/-- A worker that gives its permit back after its lookup has failed or crashed
leaves the run cancelled, as long as the driver is there. -/
theorem Turn.cancels (h : r.Turn a t i w w') (hg : r.driver.isGone = false)
    {o : Outcome EnrichedItem} (hw : w.stage = .reported o)
    (ho : ∀ item, o ≠ .value item) (hw' : w'.holdsPermit = false) :
    t.isCancelled = true := by
  cases h with
  | accept =>
    cases hw
    exact absurd rfl (ho _)
  | fail hc => exact hc
  | _ => simp_all [Worker.holdsPermit]

/-! ## New workers -/

/-- A worker is added only to a run that is not cancelled and whose driver is
there. -/
theorem Effect.hires (he : r.Effect a t) :
    t.workers.length = r.workers.length ∨
      r.isCancelled = false ∧ t.driver.isGone = false ∧
        ∃ x, t.workers = r.workers ++ [⟨x, .spawned⟩] := by
  cases he with
  | employ _ _ hc | grant _ hc => exact .inr ⟨hc, rfl, _, rfl⟩
  | _ =>
    simp [fail_eq, leave_eq, release_eq, ungrant_eq, Run.finish, setStage,
      Run.conclude, emit, Run.cancel]

/-- A worker after an effect was there before, or is new. -/
theorem Effect.worker (he : r.Effect a t) (hw' : t.workers[i]? = some w') :
    (∃ w, r.workers[i]? = some w ∧ r.Turn a t i w w') ∨
    w'.stage = .spawned := by
  cases hw : r.workers[i]? with
  | some w =>
    obtain ⟨v, hv, hturn⟩ := he.turn hw
    obtain rfl := Option.some.inj (hw'.symm.trans hv)
    exact .inl ⟨w, rfl, hturn⟩
  | none =>
    rw [List.getElem?_eq_none_iff] at hw
    obtain ⟨hlt, _⟩ := List.getElem?_eq_some_iff.1 hw'
    rcases he.hires with hsame | ⟨_, _, x, hadded⟩
    · omega
    · rw [hadded, List.getElem?_append_right hw, List.getElem?_singleton] at hw'
      split at hw'
      · exact .inr (by rw [← Option.some.inj hw'])
      · cases hw'

/-! ## Runs -/

/-- A run after some actions. -/
def after (r : Run) (actions : List Action) : Run := actions.foldl act r

theorem after_append (r : Run) (actions later : List Action) :
    r.after (actions ++ later) = (r.after actions).after later :=
      List.foldl_append

theorem after_concat (r : Run) (actions : List Action) (a : Action) :
    r.after (actions ++ [a]) = (r.after actions).act a := by
  simp [after]

theorem reaches_after (r : Run) (actions : List Action) :
    r.Reaches (r.after actions) := by
  induction actions generalizing r with
  | nil => exact .refl
  | cons a actions ih => exact (reaches_act r a).trans (ih (r.act a))

/-- What is reached is reached by some list of actions. -/
theorem Reaches.exists_after (h : r.Reaches t) :
    ∃ actions, t = r.after actions := by
  induction h with
  | refl => exact ⟨[], rfl⟩
  | step _ hstep ih =>
    obtain ⟨actions, rfl⟩ := ih
    obtain ⟨a, rfl⟩ := hstep
    exact ⟨actions ++ [a], (after_concat _ _ _).symm⟩

end CloudAccess.Run
