import CloudAccess.Proofs.Enumeration.Barrier
import CloudAccess.Proofs.Enumeration.Events
import CloudAccess.Proofs.Enumeration.Progress
import CloudAccess.Proofs.Enumeration.Tales

/-!
# A closed run needs nobody else

A run that is cancelled, or whose driver is gone, comes to its end by its own
moves, whatever its fetch and its lookups still do.

* `IsClosed.moves` says that the driver, a worker or the end of a lookup that
  was stopped can move until all of them have come to their end.
* `IsClosed.effort_lt` says that each action leaves less to do, and that no
  page to come adds to it.
* `Fails` says that a run is closed or about to be, for a lookup has failed.
  Such a run returns nothing but an error (`Fails.returned`).
* `Course` counts the actions of a run from a state on, those apart that come
  from outside, and `Course.length_le` bounds them for a closed run.
-/

namespace CloudAccess.Run

variable {r t : Run} {a : Action} {w : Worker} {k : Nat}

/-! ## Moves -/

/-- A worker of a closed run can move until it has finished, or its lookup is
gone. -/
theorem IsClosed.worker_moves (h : r.IsClosed) (hw : w ∈ r.workers)
    (hs : w.stage ≠ .finished) :
    ∃ a : Action, a.isMove = true ∧ r.Enabled a := by
  obtain ⟨i, hi⟩ := List.mem_iff_getElem?.1 hw
  obtain ⟨x, stage⟩ := w
  cases stage with
  | spawned | reported | stopped =>
    exact ⟨.work i, rfl, by simp [Enabled, workerReady, hi]⟩
  | looking =>
    have hclosed : (r.isCancelled || r.driver.isGone) = true :=
      Bool.or_eq_true_iff.2 h
    exact ⟨.work i, rfl, by simpa [Enabled, workerReady, hi] using hclosed⟩
  | stopping => exact ⟨.unwind i, rfl, x, .inl hi⟩
  | abandoned => exact ⟨.unwind i, rfl, x, .inr hi⟩
  | finished => exact absurd rfl hs

/-- Some worker of a run that is not quiet has not finished. -/
theorem exists_unfinished (hq : r.isQuiet = false) :
    ∃ w ∈ r.workers, w.stage ≠ .finished := by
  simpa [isQuiet] using hq

/-- A closed run moves by itself until its driver and all of its workers have
come to their end. -/
theorem IsClosed.moves (h : r.IsClosed)
    (hover : r.driver.isOver = true → r.isQuiet = false) :
    ∃ a : Action, a.isMove = true ∧ r.Enabled a := by
  cases hq : r.isQuiet with
  | false =>
    obtain ⟨w, hw, hs⟩ := exists_unfinished hq
    exact h.worker_moves hw hs
  | true =>
    have hpresent : r.driver.isOver = false := by
      by_contra hend
      rw [hover (by simpa using hend)] at hq
      cases hq
    refine ⟨.drive, rfl, ?_⟩
    show r.driverReady = true
    -- a driver that is there and waits for something else sees the cancellation
    rcases h with hc | hg
    · cases hd : r.driver <;> simp_all [driverReady, Driver.isOver]
    · cases hd : r.driver <;> simp_all [Driver.isOver, Driver.isGone]

/-- Each action of a closed run leaves less to do, of which no page to come is
a part. -/
theorem IsClosed.effort_lt (h : r.IsClosed) (ha : r.Enabled a)
    (hcancel : ∀ g, a ≠ .cancel g) (hdrop : a ≠ .drop) :
    (r.act a).effort [] < r.effort [] := by
  refine (r.effect_act a).effort_lt ha hcancel hdrop fun cursor p hd hanswer =>
    ?_
  subst hanswer
  exact absurd h (not_isClosed ha.2 (by rw [hd]; rfl))

/-! ## Failures on their way -/

/-- A run that is closed, or in which a lookup has failed of which its worker
is about to hear. -/
def Fails (r : Run) : Prop :=
  r.IsClosed ∨ ∃ (i : Nat) (x : String) (o : Outcome EnrichedItem),
    r.workers[i]? = some ⟨x, .reported o⟩ ∧ ∀ item, o ≠ .value item

/-- A run that fails goes on to do so. -/
theorem Effect.fails (he : r.Effect a t) (h : r.Fails) : t.Fails := by
  rcases h with hclosed | ⟨i, x, o, hw, ho⟩
  · exact .inl (he.isClosed hclosed)
  · obtain ⟨w', hw', hturn⟩ := he.turn hw
    cases hback : w'.holdsPermit with
    | false =>
      cases hg : r.driver.isGone with
      | true => exact .inl (.inr (he.isGone hg))
      | false => exact .inl (.inl (hturn.cancels hg rfl ho hback))
    | true =>
      -- a worker that was told keeps its permit only as long as it does not
      -- move
      cases hturn with
      | stay => exact .inr ⟨i, x, o, hw', ho⟩
      | stop hs | abandon hs => simp at hs
      | accept | fail | finish => cases hback

/-- A run that fails moves by itself until its driver and all of its workers
have come to their end. -/
theorem Fails.moves (h : r.Fails)
    (hover : r.driver.isOver = true → r.isQuiet = false) :
    ∃ a : Action, a.isMove = true ∧ r.Enabled a := by
  rcases h with hclosed | ⟨i, x, o, hw, _⟩
  · exact hclosed.moves hover
  · exact ⟨.work i, rfl, by simp [Enabled, workerReady, hw]⟩

/-- A run that fails returns nothing but an error. -/
theorem Fails.returned (h : r.Fails) (he : r.Effect a t)
    (hd : r.driver.isOver = false) {result : Except EnumerationError ResultSet}
    (hreturned : t.driver = .returned result) : ∃ err, result = .error err := by
  rcases he.returned hreturned with hbefore | ⟨hq, rfl⟩
  · rw [hbefore] at hd
    cases hd
  · -- no worker is left that could still hear of a failure
    have hc : r.isCancelled = true := by
      rcases h with (hc | hg) | ⟨i, x, o, hw, _⟩
      · exact hc
      · cases hat : r.driver <;>
          simp [hat, Driver.isGone, Driver.isOver] at hg hd
      · have hfinished : ∀ w ∈ r.workers, w.stage = .finished := by
          simpa [isQuiet] using hq
        cases hfinished _ (List.mem_of_getElem? hw)
    obtain ⟨err, herr⟩ := result_of_cancelled r hc
    injection hreturned with hreturned
    exact ⟨err, hreturned ▸ herr⟩

/-- A driver crashes on a fetch, in a run that is not cancelled, and takes no
page from it. -/
theorem Effect.crashed (he : r.Effect a t) (hd : t.driver = .crashed) :
    t.received = r.received ∧
      (r.driver = .crashed ∨ r.isCancelled = false ∧ a = .answer .crashed ∧
        ∃ cursor, r.driver = .fetching cursor) := by
  cases he with
  | fetchCrashed hat hc => exact ⟨rfl, .inr ⟨hc, rfl, _, hat⟩⟩
  | _ =>
    simp_all [fail_eq, leave_eq, release_eq, Run.finish, setStage,
      spawn, Run.cancel, Run.conclude, emit]

/-- A driver is dropped only when the run is given up. -/
theorem Effect.dropped (he : r.Effect a t) (hd : t.driver = .dropped) :
    r.driver = .dropped ∨ a = .drop := by
  cases he with
  | drop => exact .inr rfl
  | _ =>
    simp_all [fail_eq, leave_eq, release_eq, Run.finish, setStage,
      spawn, Run.cancel, Run.conclude, emit]

/-! ## What is done from a state on -/

/-- What a run does from `r` on, in `k` actions that apply.  Handles may be
cancelled meanwhile, and nobody gives the run up. -/
inductive Course (r : Run) : Nat → Run → Prop
  | start : Course r 0 r
  | act {k : Nat} {t : Run} {a : Action} (h : Course r k t) (ha : t.Enabled a)
      (hcancel : ∀ g, a ≠ .cancel g) (hdrop : a ≠ .drop) :
      Course r (k + 1) (t.act a)
  | cancel {k : Nat} {t : Run} (g : Cancellation) (h : Course r k t) :
      Course r k (t.act (.cancel g))

/-- What every action but a drop keeps holds on the whole course. -/
theorem Course.keeps {I : Run → Prop} (h : r.Course k t) (hr : I r)
    (keep : ∀ u v a, I u → u.Effect a v → a ≠ .drop → I v) : I t := by
  induction h with
  | start => exact hr
  | @act k t a _ _ _ hdrop ih => exact keep t _ a ih (t.effect_act a) hdrop
  | @cancel k t g _ ih =>
    exact keep t _ _ ih (t.effect_act (.cancel g)) (by simp)

/-- The course of a closed run is no longer than what it has before it. -/
theorem Course.length_le (h : r.Course k t) (hr : r.IsClosed) :
    k ≤ r.effort [] := by
  have hsum : k + t.effort [] ≤ r.effort [] := by
    induction h with
    | start => omega
    | @act k t a hcourse ha hcancel hdrop ih =>
      have hclosed : t.IsClosed :=
        hcourse.keeps hr fun _ _ _ hu he _ => he.isClosed hu
      have hlt := hclosed.effort_lt ha hcancel hdrop
      omega
    | cancel g _ ih => exact ih
  omega

end CloudAccess.Run
