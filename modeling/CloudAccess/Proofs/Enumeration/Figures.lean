import CloudAccess.Proofs.Enumeration.Events
import CloudAccess.Proofs.Enumeration.Load
import CloudAccess.Proofs.Enumeration.Order

/-!
# The figures in the reports of a run

A run that ends its paging while it is cancelled reports how many workers are
outstanding.  When it has finished, it reports how many pages it has fetched and
how many references it has submitted.

* `Reports` lists the events that an action can report, and `exists_reports`
  finds for each event of a run the action that has reported it.
* `LeavesPaging` are the states of a run right before and right after the action
  that ended its paging.
* `draining_counts_spawned` says what the first figure counts: every worker
  spawned so far, those that have finished included.
* `fetchesEnded` counts the fetches that were answered.  `submitted_after`
  counts the references submitted, and `final_report_counts` puts both together:
  one reference is counted that got no worker, if the driver held one when it
  left its paging.
-/

namespace CloudAccess.Run

variable {r s t u : Run} {a : Action} {actions : List Action} {event : Event}

/-! ## What an action reports -/

/-- The events that an action can report which takes a run `r` to `t`. -/
inductive Reports (r t : Run) : Event → Prop
  | note {event : Event} (hnote : event.isNote = true) : Reports r t event
  | page (k items : Nat) : Reports r t (.pageFetched k items)
  | draining (hr : r.driver.isPaging = true) (ht : t.driver = .draining)
      (hworkers : t.workers = r.workers) :
      Reports r t (.runDraining t.workers.length)
  | finished (hr : r.driver = .draining) (ht : t = r.conclude) :
      Reports r t (.runFinished (.of r.result) t.pages t.submitted.length)

/-- An action reports one event, or none. -/
def ReportsOne (r t : Run) : Prop :=
  t.events = r.events ∨ ∃ event, t.events = r.events ++ [event] ∧
    r.Reports t event

/-- A driver that leaves its paging reports that the run drains, if it is
cancelled. -/
theorem reportsOne_leave (hr : r.driver.isPaging = true)
    (hevents : t.events = r.events) (hworkers : t.workers = r.workers) :
    r.ReportsOne t.leave := by
  unfold ReportsOne
  have hdraining : r.Reports t.leave (.runDraining t.leave.workers.length) :=
    .draining hr (by rw [leave_eq]) (by rw [leave_eq]; exact hworkers)
  cases hc : t.isCancelled with
  | true => exact .inr ⟨_, by simp [leave_eq, hc, hevents], hdraining⟩
  | false => exact .inl (by simp [leave_eq, hc, hevents])

/-- A worker that tells of a failure reports it at most once. -/
theorem reportsOne_fail {e : EnumerationError} {note : Event}
    (hnote : note.isNote = true) (i : Nat) :
    r.ReportsOne ((r.fail e (some note)).finish i) := by
  have hevents : ((r.fail e (some note)).finish i).events =
      r.events ++ if r.firstError.isNone then [note] else [] := by
    simp [Run.finish, release_eq, setStage, fail_eq]
  unfold ReportsOne
  rw [hevents]
  split
  · exact .inr ⟨note, rfl, .note hnote⟩
  · exact .inl (List.append_nil _)

theorem Effect.reportsOne (he : r.Effect a t) : r.ReportsOne t := by
  cases he with
  | exceed hd | fetchFailed hd =>
    exact reportsOne_leave (by rw [hd]; rfl) (by simp [fail_eq])
      (by simp [fail_eq])
  | quit hd =>
    refine reportsOne_leave ?_ rfl rfl
    cases hat : r.driver <;> simp [canQuit, hat, Driver.isPaging] at hd ⊢
  | complete hd | refuse hd => exact reportsOne_leave (by rw [hd]; rfl) rfl rfl
  | conclude hd => exact .inr ⟨_, rfl, .finished hd rfl⟩
  | fetched => exact .inr ⟨_, rfl, .page _ _⟩
  | lookupFailed | lookupCrashed => exact reportsOne_fail rfl _
  | drop => exact .inl (by rw [ungrant_eq])
  | finish | accept | abandon =>
    exact .inl (by simp [Run.finish, release_eq, setStage])
  | _ => exact .inl rfl

/-- An event of a run was there at the start, or some action has reported it. -/
theorem exists_reports (hin : event ∈ (s.after actions).events) :
    event ∈ s.events ∨ ∃ before a later, actions = before ++ a :: later ∧
      (s.after (before ++ [a])).events = (s.after before).events ++ [event] ∧
      (s.after before).Reports (s.after (before ++ [a])) event := by
  induction actions using List.reverseRecOn with
  | nil => exact .inl hin
  | append_singleton actions a ih =>
    have hearlier (hin : event ∈ (s.after actions).events) :
        event ∈ s.events ∨
          ∃ before b later, actions ++ [a] = before ++ b :: later ∧
          (s.after (before ++ [b])).events =
          (s.after before).events ++ [event] ∧
          (s.after before).Reports (s.after (before ++ [b])) event := by
      refine (ih hin).imp id ?_
      rintro ⟨before, b, later, rfl, hreports⟩
      exact ⟨before, b, later ++ [a], by simp, hreports⟩
    have hone : (s.after actions).ReportsOne (s.after (actions ++ [a])) := by
      rw [after_concat]
      exact ((s.after actions).effect_act a).reportsOne
    rcases hone with hsame | ⟨new, hevents, hreports⟩
    · exact hearlier (hsame ▸ hin)
    · rw [hevents, List.mem_append, List.mem_singleton] at hin
      rcases hin with hin | rfl
      · exact hearlier hin
      · exact .inr ⟨actions, a, [], rfl, hevents, hreports⟩

/-- The state `r` in which the driver of a run did its last action of paging,
and the state `u` right after that. -/
def LeavesPaging (s : Run) (actions : List Action) (r u : Run) : Prop :=
  ∃ before a later, actions = before ++ a :: later ∧ r = s.after before ∧
    u = s.after (before ++ [a]) ∧ r.driver.isPaging = true ∧
    u.driver = .draining

theorem LeavesPaging.concat (h : s.LeavesPaging actions r u) (a : Action) :
    s.LeavesPaging (actions ++ [a]) r u := by
  obtain ⟨before, b, later, rfl, hrest⟩ := h
  exact ⟨before, b, later ++ [a], by simp, hrest⟩

/-! ## Workers that are outstanding -/

/-- The number of workers that have finished. -/
def finishedCount (r : Run) : Nat := r.workers.countP (!·.isUnfinished)

/-- Each worker has finished or not. -/
theorem length_workers (r : Run) :
    r.workers.length = r.unfinished + r.finishedCount := by
  unfold unfinished finishedCount
  rw [List.length_eq_countP_add_countP Worker.isUnfinished]
  simp

/-- The figure with which a run reports that it drains is the number of workers
spawned until then.  Of these no more are unfinished than the concurrency
allows; the figure exceeds their number by that of the workers that have
finished, so that it is right exactly if none has. -/
theorem draining_counts_spawned (e : Enumerator) (signals : Signals)
    (caller : Cancellation) (actions : List Action) (k : Nat)
    (h : .runDraining k ∈ ((start e signals caller).after actions).events) :
    ∃ r u, (start e signals caller).LeavesPaging actions r u ∧
      u.events = r.events ++ [.runDraining k] ∧ u.workers = r.workers ∧
      k = u.workers.length ∧ k = u.unfinished + u.finishedCount ∧
      u.unfinished ≤ e.concurrency ∧
      (k = u.unfinished ↔ ∀ w ∈ u.workers, w.stage ≠ .finished) := by
  rcases exists_reports h with
    hstart | ⟨before, a, later, hsplit, hevents, hreports⟩
  · rw [start_eq] at hstart
    by_cases hfit : e.concurrency ≤ Enumerator.maxPermits <;>
      simp [hfit] at hstart
  · have hcount :=
      length_workers ((start e signals caller).after (before ++ [a]))
    have hloaded :=
      (reaches_after (start e signals caller) (before ++ [a])).loaded
    have hfew := hloaded.1.unfinished_le
    rw [hloaded.2] at hfew
    cases hreports with
    | note hnote => cases hnote
    | draining hr ht hworkers =>
      refine ⟨_, _, ⟨before, a, later, hsplit, rfl, rfl, hr, ht⟩, hevents,
        hworkers, rfl, hcount, hfew, ?_⟩
      have hnone : ((start e signals caller).after
            (before ++ [a])).finishedCount = 0 ↔
          ∀ w ∈ ((start e signals caller).after (before ++ [a])).workers,
            w.stage ≠ .finished := by
        simp [finishedCount, List.countP_eq_zero, Worker.isUnfinished]
      rw [← hnone]
      omega

/-- The lookup of a reference is under way when the page limit is reached. -/
def limitWhileLooking : List Action :=
  [.drive, .answer (.value ⟨["a"], some "b"⟩), .drive, .drive, .work 0, .drive]

theorem draining_counts_spawned_looking :
    .runDraining 1 ∈ ((start { concurrency := 1, pageLimit := some 1 }
      { count := 1 }
        ⟨0, []⟩).after limitWhileLooking).events ∧
      ∃ r u, (start { concurrency := 1, pageLimit := some 1 } { count := 1 }
          ⟨0, []⟩).LeavesPaging limitWhileLooking r u ∧
        u.workers.length = 1 ∧ u.unfinished ≤ 1 := by
  have hin : .runDraining 1 ∈ ((start { concurrency := 1, pageLimit := some 1 }
      { count := 1 } ⟨0, []⟩).after limitWhileLooking).events := by decide
  obtain ⟨r, u, hleaves, _, _, hspawned, _, hfew, _⟩ :=
    draining_counts_spawned _ _ _ _ _ hin
  exact ⟨hin, r, u, hleaves, hspawned.symm, hfew⟩

/-- Two lookups have ended, one after the other, before the next page cannot be
fetched. -/
def failureAfterLookups : List Action :=
  [.drive, .answer (.value ⟨["a", "b"], some "c"⟩), .drive, .drive, .work 0,
    .report 0 (.value (.rejected "a")), .work 0, .drive, .work 1,
    .report 1 (.value (.rejected "b")), .work 1, .drive, .drive,
    .answer (.failed ⟨"broken", []⟩)]

theorem not_outstanding_of_finished :
    ¬∀ (e : Enumerator) (signals : Signals) (caller : Cancellation) (actions :
      List Action)
        (k : Nat) (r u : Run),
          (start e signals caller).LeavesPaging actions r u →
      u.events = r.events ++ [.runDraining k] →
        k = u.unfinished ∨ k ≤ e.concurrency := by
  intro h
  -- both workers have finished, and one at a time was allowed
  have hleaves : (start { concurrency := 1 } { count := 1 }
      ⟨0, []⟩).LeavesPaging
      failureAfterLookups _ _ :=
        ⟨failureAfterLookups.dropLast, _, [], rfl, rfl, rfl, rfl, rfl⟩
  exact absurd (h { concurrency := 1 } _ _ _ 2 _ _ hleaves rfl) (by decide)

/-! ## Pages that were fetched -/

/-- Whether an action ends the fetch that the driver waits for, with a page or
with an error. -/
def endsFetch (r : Run) (a : Action) : Bool :=
  match r.driver, a with
  | .fetching _, .answer (.value _) | .fetching _, .answer (.failed _) =>
    !r.isCancelled
  | _, _ => false

/-- The number of fetches that end during some actions, with a page or with an
error. -/
def fetchesEnded (r : Run) : List Action → Nat
  | [] => 0
  | a :: later =>
    (if r.endsFetch a then 1 else 0) + (r.act a).fetchesEnded later

/-- The pages are counted with the fetches that end. -/
theorem Effect.pages_eq (he : r.Effect a t) :
    t.pages = r.pages + if r.endsFetch a then 1 else 0 := by
  cases he with
  | idle hidle =>
    have hnot : r.endsFetch a = false := by
      unfold endsFetch
      split
      · rename_i hd
        simpa [Enabled, hd] using hidle
      · rename_i hd
        simpa [Enabled, hd] using hidle
      · rfl
    rw [hnot]
    rfl
  | fetchFailed hd hc | fetched hd hc =>
    simp [endsFetch, hd, hc, leave_eq, fail_eq]
  | _ =>
    simp [endsFetch, fail_eq, leave_eq, release_eq, ungrant_eq, Run.finish,
      setStage, spawn, Run.conclude, emit, Run.cancel]

theorem pages_after (s : Run) (actions : List Action) :
    (s.after actions).pages = s.pages + s.fetchesEnded actions := by
  induction actions generalizing s with
  | nil => rfl
  | cons a actions ih =>
    show ((s.act a).after actions).pages = _
    rw [ih, (s.effect_act a).pages_eq, fetchesEnded, Nat.add_assoc]

/-! ## References that were submitted -/

/-- Whether the driver holds a reference that was not submitted before and has
got no worker. -/
def holdsNew (r : Run) : Bool :=
  match r.driver with
  | .submitting (x :: _) _ => !r.submitted.contains x
  | .queueing _ _ _ => true
  | _ => false

/-- While the driver is at paging, the references submitted are those that have
got a worker and the one that waits for a permit. -/
theorem Employs.length_submitted (h : r.Employs)
    (hd : r.driver.isPaging = true) :
    r.submitted.length = r.workers.length + r.awaited.length := by
  have hlength : r.employed.length = r.workers.length := List.length_map ..
  unfold Employs at h
  unfold awaited
  cases hat : r.driver with
  | turning | fetching =>
    simp only [hat] at h
    simp [h.2, hlength]
  | submitting items next =>
    simp only [hat] at h
    obtain ⟨passed, _, hsub⟩ := h
    simp [hsub, hlength]
  | queueing x items next =>
    simp only [hat] at h
    obtain ⟨passed, _, _, hsub⟩ := h
    simp [hsub, hlength]
  | draining | returned | crashed | dropped => simp [hat, Driver.isPaging] at hd

/-- A driver that does not end its paging on a reference at hand holds a new one
exactly if one waits for a permit. -/
theorem length_awaited
    (hd : ∀ x items next, r.driver ≠ .submitting (x :: items) next) :
    r.awaited.length = if r.holdsNew then 1 else 0 := by
  unfold awaited holdsNew
  split <;> simp_all

/-- Whether the driver has left its paging for the workers that are
outstanding. -/
def Driver.hasPaged : Driver → Bool
  | .draining | .returned _ => true
  | _ => false

/-- A driver that has left its paging had done so before, or leaves it. -/
theorem Effect.hasPaged (he : r.Effect a t) (ht : t.driver.hasPaged = true) :
    r.driver.hasPaged = true ∨ r.driver.isPaging = true ∧
    t.driver = .draining := by
  cases hdrivers : a.isDrivers with
  | false =>
    rw [(he.paging hdrivers).1] at ht
    exact .inl ht
  | true =>
    cases he with
    | idle => exact .inl ht
    | exceed hd | complete hd | refuse hd | fetchFailed hd =>
      exact .inr ⟨by rw [hd]; rfl, by rw [leave_eq]⟩
    | quit hd =>
      refine .inr ⟨?_, by rw [leave_eq]⟩
      cases hat : r.driver <;> simp [canQuit, Driver.isPaging, hat] at hd ⊢
    | conclude hd => exact .inl (by rw [hd]; rfl)
    | ask | next | pass | employ | queue | grant | fetchCrashed | fetched
    | drop => cases ht
    | _ => cases hdrivers

/-- How many references a run has submitted that has left its paging in the
state `r`.  One that its driver held then counts and has no worker, and the run
is cancelled in that case. -/
structure Tallied (r t : Run) : Prop where
  submitted : t.submitted.length = t.workers.length + if r.holdsNew
    then 1 else 0
  cancelled : r.holdsNew = true → t.isCancelled = true
  failed : ∀ result, t.driver = .returned result → r.holdsNew = true →
    RunState.of result = .failed

/-- A driver that leaves its paging has submitted what has a worker, and what it
held. -/
theorem Effect.tallied (he : r.Effect a t) (h : r.Employs)
    (hr : r.driver.isPaging = true) (ht : t.driver = .draining) :
    r.Tallied t := by
  have hlength := h.length_submitted hr
  have hfailed : ∀ result, t.driver = .returned result → r.holdsNew = true →
      RunState.of result = .failed := fun result hreturned => by
    rw [ht] at hreturned
    cases hreturned
  have hkept (hat : ∀ x items next, r.driver ≠ .submitting (x :: items) next)
      (hsub : t.submitted = r.submitted) (hworkers : t.workers = r.workers)
      (hcancelled : r.holdsNew = true → t.isCancelled = true) : r.Tallied t :=
    ⟨by rw [hsub, hworkers, hlength, length_awaited hat], hcancelled, hfailed⟩
  cases he with
  | exceed hd | fetchFailed hd =>
    exact hkept (by simp [hd]) (by simp [leave_eq, fail_eq])
      (by simp [leave_eq, fail_eq]) fun _ => by simp
  | quit hd hc =>
    refine hkept (fun x items next hat => ?_) (by rw [leave_eq])
      (by rw [leave_eq]) fun _ => by simpa using hc
    simp [canQuit, hat] at hd
  | complete hd =>
    exact hkept (by simp [hd]) (by rw [leave_eq]) (by rw [leave_eq])
      fun hnew => by simp [holdsNew, hd] at hnew
  | refuse hd hx hc =>
    have hnone : r.awaited = [] := by simp [Run.awaited, hd]
    refine ⟨?_, fun _ => (isCancelled_leave _).trans hc, hfailed⟩
    simp [leave_eq, holdsNew, hd, hx, hlength, hnone]
  | _ =>
    simp_all [Driver.isPaging, spawn, release_eq, Run.finish, setStage,
      fail_eq, Run.cancel]

/-- Once paging is over nothing is submitted. -/
theorem Tallied.step (h : r.Tallied u) (he : u.Effect a t)
    (hd : u.driver.hasPaged = true) : r.Tallied t := by
  have hkept (hsub : t.submitted = u.submitted)
      (hlength : t.workers.length = u.workers.length)
      (hfailed : ∀ result, t.driver = .returned result → r.holdsNew = true →
        RunState.of result = .failed) : r.Tallied t :=
    ⟨by rw [hsub, hlength, h.submitted], fun hnew => he.isCancelled (h.cancelled
      hnew), hfailed⟩
  cases hdrivers : a.isDrivers with
  | false =>
    obtain ⟨hsame, _, hsub, _, _⟩ := he.paging hdrivers
    refine hkept hsub ?_ fun result hreturned =>
      h.failed result (hsame ▸ hreturned)
    simpa [Run.employed] using congrArg List.length (he.employed hdrivers)
  | true =>
    cases he with
    | idle => exact h
    | conclude =>
      refine hkept rfl rfl fun result hreturned hnew => ?_
      obtain ⟨err, herr⟩ := u.result_of_cancelled (h.cancelled hnew)
      injection hreturned with hreturned
      rw [← hreturned, herr]
      rfl
    | drop =>
      refine hkept (by rw [ungrant_eq]) (by rw [ungrant_eq])
        fun result hreturned => ?_
      cases hreturned
    | quit hquit =>
      cases hat : u.driver <;> simp [canQuit, Driver.hasPaged, hat] at hquit hd
    | _ => simp_all [Action.isDrivers, Driver.hasPaged]

/-- A run that has left its paging has submitted what has a worker, and what its
driver held then. -/
theorem submitted_after (e : Enumerator) (signals : Signals)
    (caller : Cancellation) (actions : List Action)
    (hd : ((start e signals caller).after actions).driver.hasPaged = true) :
    ∃ r u, (start e signals caller).LeavesPaging actions r u ∧
      r.Tallied ((start e signals caller).after actions) := by
  induction actions using List.reverseRecOn with
  | nil =>
    have hat : (start e signals caller).driver.hasPaged = true := hd
    rw [start_eq] at hat
    by_cases hfit : e.concurrency ≤ Enumerator.maxPermits <;>
      simp [hfit, Driver.hasPaged] at hat
  | append_singleton actions a ih =>
    have he := ((start e signals caller).after actions).effect_act a
    rw [← after_concat] at he
    rcases he.hasPaged hd with hleft | ⟨hpaging, hleaves⟩
    · obtain ⟨r, u, hleaves, htallied⟩ := ih hleft
      exact ⟨r, u, hleaves.concat a, htallied.step he hleft⟩
    · have hreach := reaches_after (start e signals caller) actions
      exact ⟨_, _, ⟨actions, a, [], rfl, rfl, rfl, hpaging, hleaves⟩,
        he.tallied hreach.inOrder.2 hpaging hleaves⟩

/-! ## The last report -/

/-- The last report is that of a run that has returned, and has the figures of
that run. -/
def Finishes (r : Run) : Prop :=
  ∀ state p n, .runFinished state p n ∈ r.events → ∃ result,
    r.driver = .returned result ∧ state = .of result ∧ p = r.pages ∧
    n = r.submitted.length

/-- A driver that has come to its end fetches and submits nothing. -/
theorem Effect.settled (he : r.Effect a t) (hover : r.driver.isOver = true) :
    t.driver = r.driver ∧ t.pages = r.pages ∧ t.submitted = r.submitted := by
  refine ⟨he.isOver hover, ?_⟩
  cases hdrivers : a.isDrivers with
  | false =>
    obtain ⟨_, _, hsub, hpages, _⟩ := he.paging hdrivers
    exact ⟨hpages, hsub⟩
  | true =>
    cases he with
    | idle => exact ⟨rfl, rfl⟩
    | quit hquit =>
      cases hat : r.driver <;> simp [canQuit, Driver.isOver, hat] at hquit hover
    | _ => simp_all [Action.isDrivers, Driver.isOver]

theorem Effect.finishes (he : r.Effect a t) (h : r.Finishes) : t.Finishes := by
  intro state p n hin
  have hearlier (hin : .runFinished state p n ∈ r.events) : ∃ result,
      t.driver = .returned result ∧ state = .of result ∧ p = t.pages ∧
        n = t.submitted.length := by
    obtain ⟨result, hd, hrest⟩ := h state p n hin
    obtain ⟨hdriver, hpages, hsub⟩ := he.settled (by rw [hd]; rfl)
    exact ⟨result, hdriver.trans hd, by rw [hpages, hsub]; exact hrest⟩
  rcases he.reportsOne with hsame | ⟨event, hevents, hreports⟩
  · exact hearlier (hsame ▸ hin)
  · rw [hevents, List.mem_append, List.mem_singleton] at hin
    rcases hin with hin | rfl
    · exact hearlier hin
    · cases hreports with
      | note hnote => cases hnote
      | finished _ ht => exact ⟨r.result, by rw [ht]; rfl, rfl, rfl, rfl⟩

/-- The last report of a run counts the fetches that have ended, with a page or
an error, and the references that were submitted.  These are the workers that
the run has spawned, and one more exactly if its driver held a new reference
when it left paging, for then the run was cancelled before that one got a
worker. -/
theorem final_report_counts (e : Enumerator) (signals : Signals)
    (caller : Cancellation) (actions : List Action) (state : RunState)
    (p n : Nat)
    (h : .runFinished state p n ∈
      ((start e signals caller).after actions).events) :
    p = (start e signals caller).fetchesEnded actions ∧
      ∃ r u, (start e signals caller).LeavesPaging actions r u ∧
        n = ((start e signals caller).after actions).workers.length +
          (if r.holdsNew then 1 else 0) ∧
        (n = ((start e signals caller).after actions).workers.length ↔
          r.holdsNew = false) ∧
        (r.holdsNew = true → state = .failed) := by
  have hfinishes : ((start e signals caller).after actions).Finishes := by
    refine (reaches_after _ actions).keeps (I := Finishes)
      (fun state p n hin => ?_) fun _ _ _ hu he => he.finishes hu
    rw [start_eq] at hin
    by_cases hfit : e.concurrency ≤ Enumerator.maxPermits <;> simp [hfit] at hin
  obtain ⟨result, hd, rfl, rfl, rfl⟩ := hfinishes state p n h
  obtain ⟨r, u, hleaves, htallied⟩ :=
    submitted_after e signals caller actions (by rw [hd]; rfl)
  have hnone : (start e signals caller).pages = 0 := by rw [start_eq]
  refine ⟨by rw [pages_after, hnone,
    Nat.zero_add], r, u, hleaves, htallied.submitted, ?_,
    htallied.failed result hd⟩
  rw [htallied.submitted]
  cases r.holdsNew <;> simp

/-- The caller cancels the run while the second reference waits for a permit. -/
def cancelledWhileQueueing : List Action :=
  [.drive, .answer (.value ⟨["a", "b"], none⟩), .drive, .drive, .work 0,
    .cancel ⟨0, []⟩, .drive, .work 0, .unwind 0, .work 0, .drive]

theorem final_report_counts_queueing :
    .runFinished .failed 1 2 ∈
      ((start { concurrency := 1 } { count := 1 } ⟨0, []⟩).after
        cancelledWhileQueueing).events ∧
      1 = (start { concurrency := 1 } { count := 1 } ⟨0, []⟩).fetchesEnded
        cancelledWhileQueueing ∧
      ∃ r u, (start { concurrency := 1 } { count := 1 } ⟨0, []⟩).LeavesPaging
        cancelledWhileQueueing r u ∧ r.holdsNew = true := by
  have hin : .runFinished .failed 1 2 ∈
      ((start { concurrency := 1 } { count := 1 }
      ⟨0, []⟩).after cancelledWhileQueueing).events := by decide
  obtain ⟨hpages, r, u, hleaves, _, hiff, _⟩ :=
    final_report_counts _ _ _ _ _ _ _ hin
  have hnew : r.holdsNew ≠ false :=
    fun hnone => absurd (hiff.mpr hnone) (by decide)
  exact ⟨hin, hpages, r, u, hleaves, Bool.eq_true_of_not_eq_false hnew⟩

theorem not_spawned_of_queueing :
    ¬∀ (e : Enumerator) (signals : Signals) (caller : Cancellation) (actions :
      List Action)
        (state : RunState) (p n : Nat),
      .runFinished state p n ∈ ((start e signals caller).after actions).events →
        n = ((start e signals caller).after actions).workers.length := by
  intro h
  have hin : .runFinished .failed 1 2 ∈
      ((start { concurrency := 1 } { count := 1 }
      ⟨0, []⟩).after cancelledWhileQueueing).events := by decide
  exact absurd (h _ _ _ _ _ _ _ hin) (by decide)

end CloudAccess.Run
