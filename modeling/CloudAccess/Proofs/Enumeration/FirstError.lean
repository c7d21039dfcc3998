import CloudAccess.Proofs.Enumeration.Load
import Mathlib.Data.List.Induction

/-!
# The failure that a run returns

The driver and the workers come upon failures in some order.  A run keeps the
one that was observed first and returns it, whatever the others still do.

* `Observes` says which action observes which failure: the driver an exhausted
  page limit or a failed fetch, and a worker a lookup that failed or crashed.
  A failed fetch is named by its number among the fetches that were begun.
* `FirstObserved` is the first failure in a list of actions, and
  `firstError_after` says that it is the first error of the run.
* `Reaches.settled` says what a run has returned, and `first_failure` that it
  is the failure observed first.
-/

namespace CloudAccess.Run

variable {r t : Run} {a : Action} {actions : List Action}
  {err err' : EnumerationError}

/-! ## Failures that are observed -/

/-- The failure that an action observes. -/
inductive Observes (r : Run) : Action → EnumerationError → Prop
  | pageLimit {cursor : Option String} {limit : Nat}
      (hd : r.driver = .turning cursor)
      (hlimit : r.enumerator.pageLimit = some limit)
      (hle : limit ≤ r.asked.length) :
      Observes r .drive (.pageLimitExceeded limit)
  | fetchFailed {cursor : Option String} {e : RemoteError}
      (hd : r.driver = .fetching cursor) (hc : r.isCancelled = false) :
      Observes r (.answer (.failed e)) (.pageFetch r.asked.length e)
  | lookupFailed {i : Nat} {x : String} {e : RemoteError}
      (hw : r.workers[i]? = some ⟨x, .reported (.failed e)⟩)
      (hg : r.driver.isGone = false) (hc : r.isCancelled = false) :
      Observes r (.work i) (.enrichment x e)
  | lookupCrashed {i : Nat} {x : String}
      (hw : r.workers[i]? = some ⟨x, .reported .crashed⟩)
      (hg : r.driver.isGone = false) (hc : r.isCancelled = false) :
      Observes r (.work i) .workerPanicked

/-- An action observes at most one failure. -/
theorem Observes.unique (h : r.Observes a err) (h' : r.Observes a err') :
    err = err' := by
  cases h <;> cases h' <;> simp_all

/-- No cancellation and no lack of workers is observed as a failure. -/
theorem Observes.known (h : r.Observes a err) :
    err ≠ .cancelled ∧ err ≠ .workerPool := by
  cases h <;> simp

/-- A failure that is observed cancels the run, and becomes its first error
when that has none. -/
theorem Observes.act (h : r.Observes a err) (hcounted : r.Counted) :
    (r.act a).isCancelled = true ∧
      (r.act a).firstError = some (r.firstError.getD err) := by
  cases h with
  | @pageLimit cursor limit hd hlimit hle =>
    rw [Counted, hd] at hcounted
    rw [hcounted] at hle
    have hturn : r.act .drive =
        (r.fail (.pageLimitExceeded limit) none).leave := by
      simp [Run.act, Run.drive, hd, turn, hlimit, Option.filter, hle]
    rw [hturn]
    exact ⟨by simp, by simp [leave_eq, fail_eq]⟩
  | @fetchFailed cursor e hd hc =>
    rw [Counted, hd] at hcounted
    have hanswer : r.act (.answer (.failed e)) =
        (({ r with pages := r.pages + 1 } : Run).fail
          (.pageFetch r.asked.length e) none).leave := by
      simp [Run.act, Run.answer, hd, hc, hcounted]
    rw [hanswer]
    exact ⟨by simp, by simp [leave_eq, fail_eq]⟩
  | @lookupFailed i x e hw hg hc =>
    have hwork : r.act (.work i) =
        (r.fail (.enrichment x e) (some .enrichmentFailed)).finish i := by
      simp [Run.act, Run.work, hw, hg, workOn, hc, take]
    rw [hwork]
    exact ⟨by simp, by simp [Run.finish, release_eq, fail_eq, setStage]⟩
  | @lookupCrashed i x hw hg hc =>
    have hwork : r.act (.work i) =
        (r.fail .workerPanicked (some .enricherPanicked)).finish i := by
      simp [Run.act, Run.work, hw, hg, workOn, hc, take]
    rw [hwork]
    exact ⟨by simp, by simp [Run.finish, release_eq, fail_eq, setStage]⟩

/-- An action that observes no failure leaves the first error as it is, and
raises no signal unless it is a cancellation from outside. -/
theorem Effect.unobserved (he : r.Effect a t) (hcounted : r.Counted)
    (hno : ∀ err, ¬r.Observes a err) :
    t.firstError = r.firstError ∧
      (t.signals = r.signals ∨ ∃ g, a = .cancel g ∧
        t.signals = r.signals.cancel g) := by
  cases he with
  | exceed hd hlimit hpages =>
    rw [Counted, hd] at hcounted
    exact absurd (.pageLimit hd hlimit (hcounted ▸ hpages)) (hno _)
  | fetchFailed hd hc => exact absurd (.fetchFailed hd hc) (hno _)
  | lookupFailed hw hg hc => exact absurd (.lookupFailed hw hg hc) (hno _)
  | lookupCrashed hw hg hc => exact absurd (.lookupCrashed hw hg hc) (hno _)
  | _ =>
    simp [leave_eq, release_eq, ungrant_eq, Run.finish, setStage, spawn,
      Run.conclude, emit, Run.cancel]

/-! ## The first of them -/

/-- The failure that is observed first in a list of actions. -/
inductive FirstObserved : Run → List Action → EnumerationError → Prop
  | now {r : Run} {a : Action} {later : List Action} {err : EnumerationError}
      (h : r.Observes a err) : FirstObserved r (a :: later) err
  | later {r : Run} {a : Action} {later : List Action} {err : EnumerationError}
      (hno : ∀ err, ¬r.Observes a err) (h : FirstObserved (r.act a) later err) :
      FirstObserved r (a :: later) err

/-- What is observed first is no cancellation and no lack of workers. -/
theorem FirstObserved.known (h : r.FirstObserved actions err) :
    err ≠ .cancelled ∧ err ≠ .workerPool := by
  induction h with
  | now h => exact h.known
  | later _ _ ih => exact ih

/-- No action replaces the first error. -/
theorem firstError_stays (hcounted : r.Counted) (h : r.firstError = some err) :
    (r.after actions).firstError = some err := by
  induction actions generalizing r with
  | nil => exact h
  | cons a actions ih =>
    refine ih ((r.effect_act a).counted hcounted) ?_
    by_cases ho : ∃ err', r.Observes a err'
    · obtain ⟨err', ho⟩ := ho
      rw [(ho.act hcounted).2, h]
      rfl
    · rw [((r.effect_act a).unobserved hcounted fun err' ho' =>
        ho ⟨err', ho'⟩).1, h]

/-- The first error of a run is the failure that was observed first. -/
theorem firstError_after (hcounted : r.Counted) (hnone : r.firstError = none) :
    (r.after actions).firstError = some err ↔ r.FirstObserved actions err := by
  induction actions generalizing r with
  | nil =>
    constructor
    · intro h
      rw [after, List.foldl_nil, hnone] at h
      cases h
    · intro h
      cases h
  | cons a actions ih =>
    have hcounted' := (r.effect_act a).counted hcounted
    by_cases ho : ∃ err', r.Observes a err'
    · obtain ⟨err', ho⟩ := ho
      have hfirst := (ho.act hcounted).2
      rw [hnone, Option.getD_none] at hfirst
      have hstays : ((r.act a).after actions).firstError = some err' :=
        firstError_stays hcounted' hfirst
      show ((r.act a).after actions).firstError = some err ↔ _
      rw [hstays, Option.some_inj]
      constructor
      · rintro rfl
        exact .now ho
      · intro h
        cases h with
        | now h => exact ho.unique h
        | later hno => exact absurd ho (hno _)
    · have hno : ∀ err', ¬r.Observes a err' := fun err' ho' => ho ⟨err', ho'⟩
      have hnone' : (r.act a).firstError = none := by
        rw [((r.effect_act a).unobserved hcounted hno).1, hnone]
      refine (ih hcounted' hnone').trans ⟨.later hno, fun h => ?_⟩
      cases h with
      | now h => exact absurd h (hno _)
      | later _ h => exact h

/-! ## What a run returns -/

/-- Once the driver has come to its end and every worker has finished, only a
cancellation from outside still has an effect. -/
theorem Effect.still (he : r.Effect a t) (hd : r.driver.isOver = true)
    (hq : ∀ w ∈ r.workers, w.stage = .finished) :
    t.workers = r.workers ∧ t.driver = r.driver ∧
      t.firstError = r.firstError := by
  have hfinished {i : Nat} {w : Worker} (hw : r.workers[i]? = some w) :
      w.stage = .finished :=
    hq w (List.mem_of_getElem? hw)
  cases he with
  | idle | cancel => exact ⟨rfl, rfl, rfl⟩
  | exceed hat | ask hat | complete hat | next hat | pass hat | refuse hat
  | employ hat
  | queue hat | grant hat | conclude hat | fetchCrashed hat | fetchFailed hat
  | fetched hat =>
    rw [hat] at hd
    cases hd
  | quit hat =>
    cases hat' : r.driver <;> simp [canQuit, hat', Driver.isOver] at hat hd
  | look hw | accept hw | lookupFailed hw | lookupCrashed hw | report hw
  | unwindStopping hw
  | unwindAbandoned hw => cases hfinished hw
  | stop hw hs | finish hw hs | abandon hw hs => simp [hfinished hw] at hs
  | drop hat =>
    rw [hd] at hat
    cases hat

/-- A run that has returned has no worker left, and has returned its first
error if it has one. -/
structure Settled (r : Run) (result : Except EnumerationError ResultSet) :
    Prop where
  quiet : ∀ w ∈ r.workers, w.stage = .finished
  failed : ∀ err, r.firstError = some err → result = .error err
  unfailed : r.firstError = none → result = .error .cancelled ∨
    ∃ found, result = .ok found

/-- The result of a run whose workers have finished settles it. -/
theorem settled_result (hq : r.isQuiet = true) : r.Settled r.result := by
  refine ⟨by simpa [isQuiet] using hq, fun err hfirst => by simp [Run.result,
    hfirst], fun hnone => ?_⟩
  cases hc : r.isCancelled with
  | true => exact .inl (by simp [Run.result, hnone, hc])
  | false => exact .inr ⟨_, by simp [Run.result, hnone, hc]; rfl⟩

/-- Wherever actions lead, what a run has returned is settled. -/
theorem Reaches.settled {e : Enumerator} {signals : Signals}
    {caller : Cancellation} (h : (start e signals caller).Reaches r) :
    ∀ result, r.driver = .returned result → r.Settled result := by
  refine h.keeps (I := fun r => ∀ result, r.driver = .returned result →
    r.Settled result) ?_ ?_
  · intro result hd
    rw [start_eq] at hd
    by_cases hfit : e.concurrency ≤ Enumerator.maxPermits <;> simp [hfit] at hd
  · intro u v a hu he result hd
    rcases he.returned hd with hbefore | ⟨hq, rfl⟩
    · have hsettled := hu result hbefore
      obtain ⟨hw, _, hf⟩ := he.still (by rw [hbefore]; rfl) hsettled.quiet
      exact ⟨hw ▸ hsettled.quiet, hf ▸ hsettled.failed, hf ▸ hsettled.unfailed⟩
    · injection hd with hd
      exact hd ▸ settled_result hq

/-- A worker was told what its lookup has reported. -/
theorem reported_after {i : Nat} {x : String} {o : Outcome EnrichedItem}
    (hnone : r.workers = [])
    (hw : (r.after actions).workers[i]? = some ⟨x, .reported o⟩) :
    ∃ before later, actions = before ++ .report i o :: later ∧
      (r.after before).workers[i]? = some ⟨x, .looking⟩ := by
  induction actions using List.reverseRecOn with
  | nil => simp [after, hnone] at hw
  | append_singleton actions a ih =>
    rw [after_concat] at hw
    rcases ((r.after actions).effect_act a).worker hw with
      ⟨w, hbefore, hturn⟩ | hnew
    · rcases hturn.reported rfl with heq | ⟨hlooking, rfl⟩
      · obtain ⟨before, later, rfl, hat⟩ := ih (heq ▸ hbefore)
        exact ⟨before, later ++ [a], by simp, hat⟩
      · have href : x = w.reference := hturn.reference
        refine ⟨actions, [], rfl, ?_⟩
        rw [hbefore, href, ← hlooking]
    · cases hnew

/-- A run that has returned has returned an error other than a cancellation
exactly when that is the failure which its driver or a worker observed first,
and never the lack of workers.  A worker observes what the lookup of its
reference has reported. -/
theorem first_failure (e : Enumerator) (signals : Signals)
    (caller : Cancellation) (actions : List Action)
    (result : Except EnumerationError ResultSet)
    (hd : ((start e signals caller).after actions).driver = .returned result) :
    (∀ err, err ≠ .cancelled →
        (result = .error err ↔
          (start e signals caller).FirstObserved actions err)) ∧
      result ≠ .error .workerPool ∧
      ∀ earlier later i x o, actions = earlier ++ later →
        ((start e signals caller).after earlier).workers[i]? =
          some ⟨x, .reported o⟩ →
        ∃ before after, earlier = before ++ .report i o :: after ∧
          ((start e signals caller).after before).workers[i]? =
            some ⟨x, .looking⟩ := by
  have hreaches := reaches_after (start e signals caller) actions
  have hsettled := hreaches.settled result hd
  have hcounted : (start e signals caller).Counted := Reaches.counted .refl
  have hnone : (start e signals caller).firstError = none := by rw [start_eq]
  have hworkers : (start e signals caller).workers = [] := by rw [start_eq]
  have hiff (err : EnumerationError) (hne : err ≠ .cancelled) :
      result = .error err ↔ (start e signals caller).FirstObserved
        actions err := by
    rw [← firstError_after hcounted hnone]
    refine ⟨fun hresult => ?_, hsettled.failed err⟩
    cases hfirst : ((start e signals caller).after actions).firstError with
    | some first =>
      rw [hsettled.failed first hfirst] at hresult
      injection hresult with hresult
      rw [hresult]
    | none =>
      rcases hsettled.unfailed hfirst with hcancelled | ⟨found, hok⟩
      · rw [hcancelled] at hresult
        injection hresult with hresult
        exact absurd hresult.symm hne
      · rw [hok] at hresult
        cases hresult
  refine ⟨hiff, fun hpool => ?_, fun earlier later i x o _ hw =>
    reported_after hworkers hw⟩
  exact ((hiff .workerPool (by simp)).1 hpool).known.2 rfl

/-- Two lookups fail at the same time, and the worker of the second one is the
first to hear of it. -/
def twoFailures : List Action :=
  [.drive, .answer (.value ⟨["a", "b"], none⟩), .drive, .drive, .drive,
    .work 0, .work 1,
    .report 0 (.failed ⟨"first", []⟩), .report 1 (.failed ⟨"second", []⟩),
    .work 1, .work 0, .drive]

theorem first_failure_two :
    ((start { concurrency := 2 } { count := 1 } ⟨0, []⟩).after
      twoFailures).driver =
        .returned (.error (.enrichment "b" ⟨"second", []⟩)) ∧
      (start { concurrency := 2 } { count := 1 } ⟨0, []⟩).FirstObserved
          twoFailures
        (.enrichment "b" ⟨"second", []⟩) :=
  ⟨rfl, ((first_failure _ _ _ twoFailures _ rfl).1 _ (by simp)).1 rfl⟩

end CloudAccess.Run
