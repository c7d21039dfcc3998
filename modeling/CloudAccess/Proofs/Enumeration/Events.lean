import CloudAccess.Proofs.Enumeration.Turns
import Mathlib.Data.List.Induction

/-!
# What a run reports of its states

A run reports when it begins, each page that it receives, that it drains, and
how it has finished.

* `transitions` are these events, without the notes on failed lookups.
* `EndedPaging` is the state of a run right after the action that ended its
  paging.  Only there is the run asked whether it is cancelled, and only then
  does it report that it drains.
* `Reported` says what a run has reported at each point of its driver, and
  `reports_after` that this is so in every run.
* `Documented` is the documented order of the reports, and `documented_iff` says
  which of the runs that have returned followed it.
-/

namespace CloudAccess

/-- Whether an event is a note on a lookup, and not on the state of the run. -/
def Event.isNote : Event → Bool
  | .enrichmentFailed | .enricherPanicked => true
  | _ => false

namespace Run

variable {r s t u : Run} {a : Action} {actions : List Action}
  {result : Except EnumerationError ResultSet}

/-- What a run has reported of its states. -/
def transitions (r : Run) : List Event := r.events.filter (!·.isNote)

/-- The reports on the beginning and on the pages, which are numbered from
one. -/
def pagingReports (e : Enumerator) (received : List Page) : List Event :=
  .runStarted e.concurrency :: received.mapIdx fun k p =>
    .pageFetched (k + 1) p.items.length

/-- The report that a run drains, which only a cancelled one makes. -/
def drainingReport (r : Run) : List Event :=
  if r.isCancelled then [.runDraining r.workers.length] else []

/-- The last report. -/
def finalReport (r : Run) (result : Except EnumerationError ResultSet) :
    Event :=
  .runFinished (.of result) r.pages r.submitted.length

/-- Whether the driver fetches pages or submits references. -/
def Driver.isPaging : Driver → Bool
  | .turning _ | .fetching _ | .submitting _ _ | .queueing _ _ _ => true
  | _ => false

/-! ## One action -/

theorem transitions_append (events : List Event)
    (h : t.events = r.events ++ events) :
    t.transitions = r.transitions ++ events.filter (!·.isNote) := by
  rw [transitions, h, List.filter_append]
  rfl

theorem transitions_fail (r : Run) (e : EnumerationError) (event : Option Event)
    (hnote : ∀ x ∈ event, x.isNote = true) :
    (r.fail e event).transitions = r.transitions := by
  have hnone : (if r.firstError.isNone then event.toList else []).filter
      (!·.isNote) = [] := by
    rw [List.filter_eq_nil_iff]
    intro x hx
    split at hx
    · simpa using hnote x (by simpa using hx)
    · cases hx
  rw [fail_eq, transitions_append _ rfl, hnone, List.append_nil]

theorem transitions_leave (r : Run) :
    r.leave.transitions = r.transitions ++ r.drainingReport := by
  rw [leave_eq, transitions_append _ rfl, drainingReport]
  cases r.isCancelled <;> rfl

@[simp] theorem transitions_finish (r : Run) (i : Nat) :
    (r.finish i).transitions = r.transitions := by
  rw [Run.finish, release_eq]
  rfl

/-- The workers and what comes from outside report nothing on the state. -/
theorem Effect.transitions (he : r.Effect a t) (ha : a.isDrivers = false) :
    t.transitions = r.transitions := by
  cases he with
  | lookupFailed | lookupCrashed =>
    rw [transitions_finish]
    exact transitions_fail r _ _ (by simp [Event.isNote])
  | finish | accept => exact transitions_finish _ _
  | abandon =>
    rw [release_eq]
    rfl
  | idle | look | stop | report | unwindStopping | unwindAbandoned | cancel =>
    rfl
  | _ => cases ha

/-- A cancelled run has no other result than an error. -/
theorem result_of_cancelled (r : Run) (hc : r.isCancelled = true) :
    ∃ err, r.result = .error err := by
  unfold Run.result
  split
  · exact ⟨_, rfl⟩
  · exact ⟨_, if_pos hc⟩

/-! ## Every run -/

/-- The state of a run right after the action that ended its paging. -/
def EndedPaging (s : Run) (actions : List Action) (u : Run) : Prop :=
  ∃ before a later, actions = before ++ a :: later ∧
    (s.after before).driver.isPaging = true ∧ u = s.after (before ++ [a]) ∧
    u.driver = .draining

theorem EndedPaging.concat (h : s.EndedPaging actions u) (a : Action) :
    s.EndedPaging (actions ++ [a]) u := by
  obtain ⟨before, b, later, rfl, hrest⟩ := h
  exact ⟨before, b, later ++ [a], by simp, hrest⟩

/-- What a run has reported after some actions, by the point of its driver. -/
def Reported (s : Run) (actions : List Action) (r : Run) : Prop :=
  match r.driver with
  | .draining =>
    ∃ u, s.EndedPaging actions u ∧
      r.transitions = pagingReports s.enumerator r.received ++
      u.drainingReport ∧ (u.isCancelled = true → r.isCancelled = true)
  | .returned result =>
    ∃ u, s.EndedPaging actions u ∧
      r.transitions =
        pagingReports s.enumerator r.received ++ u.drainingReport ++
        [r.finalReport result] ∧
      (u.isCancelled = true → ∃ err, result = .error err)
  | .crashed | .dropped => True
  | _ =>
    r.pages = r.received.length ∧
      r.transitions = pagingReports s.enumerator r.received

/-- While its driver is at paging, a run has reported the pages received. -/
theorem reported_iff_of_paging (hd : r.driver.isPaging = true) :
    s.Reported actions r ↔
      r.pages = r.received.length ∧
        r.transitions = pagingReports s.enumerator r.received := by
  unfold Reported
  cases hat : r.driver <;> simp_all [Driver.isPaging]

/-- An action that reports nothing and leaves the driver where it is. -/
theorem Reported.idle (h : s.Reported actions r) (a : Action)
    (hd : t.driver = r.driver) (hreports : t.transitions = r.transitions)
    (hreceived : t.received = r.received) (hpages : t.pages = r.pages)
    (hsubmitted : t.submitted = r.submitted)
    (hc : r.isCancelled = true → t.isCancelled = true) :
    s.Reported (actions ++ [a]) t := by
  by_cases hpaging : r.driver.isPaging = true
  · rw [reported_iff_of_paging hpaging] at h
    rw [reported_iff_of_paging (by rw [hd, hpaging]), hpages,
      hreceived, hreports]
    exact h
  · unfold Reported at h ⊢
    cases hat : r.driver with
    | draining =>
      simp only [hd, hat, hreceived, hreports] at h ⊢
      obtain ⟨u, hu, hsame, hcancelled⟩ := h
      exact ⟨u, hu.concat a, hsame, fun huc => hc (hcancelled huc)⟩
    | returned result =>
      simp only [hd, hat, hreceived, hreports, finalReport, hpages, hsubmitted]
        at h ⊢
      obtain ⟨u, hu, hrest⟩ := h
      exact ⟨u, hu.concat a, hrest⟩
    | crashed | dropped => simp only [hd, hat]
    | _ => simp [hat, Driver.isPaging] at hpaging

/-- The end of paging is where a run reports that it drains. -/
theorem Reported.leave (h : s.Reported actions (s.after actions))
    (hpaging : (s.after actions).driver.isPaging = true)
    (ht : s.after (actions ++ [a]) = t.leave)
    (hreports : t.transitions = (s.after actions).transitions)
    (hreceived : t.received = (s.after actions).received) :
    s.Reported (actions ++ [a]) (s.after (actions ++ [a])) := by
  have hended : s.EndedPaging (actions ++ [a]) t.leave :=
    ⟨actions, a, [], rfl, hpaging, ht.symm, by rw [leave_eq]⟩
  have hdraining : t.leave.drainingReport = t.drainingReport := by
    unfold drainingReport
    rw [isCancelled_leave, leave_eq]
  obtain ⟨_, hpaged⟩ := (reported_iff_of_paging hpaging).1 h
  rw [ht]
  unfold Reported
  simp only [show t.leave.driver = .draining by rw [leave_eq]]
  refine ⟨t.leave, hended, ?_, id⟩
  rw [transitions_leave, hdraining, hreports, hpaged, ← hreceived, leave_eq]

/-- What a run reports goes on from action to action. -/
theorem Reported.concat (h : s.Reported actions (s.after actions))
    (a : Action) : s.Reported (actions ++ [a]) (s.after (actions ++ [a])) := by
  have he := (s.after actions).effect_act a
  rw [← after_concat] at he
  generalize ht : s.after (actions ++ [a]) = t at he
  cases ha : a.isDrivers with
  | false =>
    obtain ⟨hd, hreceived, hsubmitted, hpages, _⟩ := he.paging ha
    exact h.idle a hd (he.transitions ha) hreceived hpages hsubmitted
      he.isCancelled
  | true =>
    cases he with
    | idle => exact h.idle a rfl rfl rfl rfl rfl id
    | ask hd | next hd | pass hd | employ hd | queue hd | grant hd =>
      have hpaged := (reported_iff_of_paging (by rw [hd]; rfl)).1 h
      exact (reported_iff_of_paging rfl).2 hpaged
    | fetched hd =>
      obtain ⟨hpages, hpaged⟩ := (reported_iff_of_paging (by rw [hd]; rfl)).1 h
      refine (reported_iff_of_paging rfl).2 ⟨by simp [hpages], ?_⟩
      rw [transitions_append _ rfl, hpaged, hpages, pagingReports,
        pagingReports, List.mapIdx_concat]
      rfl
    | exceed hd =>
      rw [← ht]
      exact h.leave (by rw [hd]; rfl) ht (transitions_fail _ _ _ (by simp))
        (by rw [fail_eq])
    | quit hd =>
      rw [← ht]
      refine h.leave ?_ ht rfl rfl
      cases hat : (s.after actions).driver <;>
        simp [canQuit, hat, Driver.isPaging] at hd ⊢
    | complete hd | refuse hd =>
      rw [← ht]
      exact h.leave (by rw [hd]; rfl) ht rfl rfl
    | fetchFailed hd =>
      rw [← ht]
      exact h.leave (by rw [hd]; rfl) ht (transitions_fail _ _ _ (by simp))
        (by rw [fail_eq])
    | conclude hd =>
      unfold Reported at h ⊢
      simp only [hd] at h
      obtain ⟨u, hu, hsame, hcancelled⟩ := h
      refine ⟨u, hu.concat _, ?_, fun hc =>
        (s.after actions).result_of_cancelled (hcancelled hc)⟩
      have hfinal : (s.after actions).conclude.transitions =
            (s.after actions).transitions ++
          [(s.after actions).conclude.finalReport (s.after actions).result] :=
        transitions_append [.runFinished _ _ _] rfl
      rw [hfinal, hsame]
      rfl
    | fetchCrashed | drop => trivial
    | _ => cases ha

/-- Every run has reported what its driver has come to. -/
theorem reports_after (e : Enumerator) (signals : Signals)
    (caller : Cancellation) (actions : List Action) :
    (start e signals caller).Reported actions
      ((start e signals caller).after actions) := by
  induction actions using List.reverseRecOn with
  | nil =>
    show Reported _ _ (start e signals caller)
    rw [start_eq]
    by_cases hfit : e.concurrency ≤ Enumerator.maxPermits
    · simp [Reported, hfit, transitions, pagingReports, Event.isNote]
    · simp [Reported, hfit]
  | append_singleton actions a ih => exact ih.concat a

/-! ## The documented order -/

/-- A run that has returned reported its states as documented: it began,
received its pages, drained if it failed, and finished. -/
def Documented (r : Run) (result : Except EnumerationError ResultSet) : Prop :=
  match result with
  | .ok _ =>
    r.transitions = pagingReports r.enumerator r.received ++
      [.runFinished .succeeded r.pages r.submitted.length]
  | .error _ =>
    ∃ outstanding, r.transitions = pagingReports r.enumerator r.received ++
      [.runDraining outstanding,
        .runFinished .failed r.pages r.submitted.length]

/-- A run that has returned reported that it began, then the pages it received
by number, then that it drains exactly if it was cancelled when its paging
ended, and last its result.  So it followed the documented order exactly if it
has succeeded or was cancelled by then; one that failed later reported no
draining. -/
theorem documented_iff (e : Enumerator) (signals : Signals)
    (caller : Cancellation) (actions : List Action)
    (result : Except EnumerationError ResultSet)
    (hd : ((start e signals caller).after actions).driver = .returned result) :
    ∃ u, (start e signals caller).EndedPaging actions u ∧
      ((start e signals caller).after actions).transitions =
        .runStarted e.concurrency ::
          (((start e signals caller).after actions).received.mapIdx
            fun k p => .pageFetched (k + 1) p.items.length) ++
          (if u.isCancelled then [.runDraining u.workers.length] else []) ++
          [.runFinished (.of result)
            ((start e signals caller).after actions).pages
            ((start e signals caller).after actions).submitted.length] ∧
      (u.isCancelled = true → ∃ err, result = .error err) ∧
      (((start e signals caller).after actions).Documented result ↔
        u.isCancelled = true ∨ ∃ found, result = .ok found) := by
  have h := reports_after e signals caller actions
  unfold Reported at h
  simp only [hd] at h
  obtain ⟨u, hu, hreports, hfailed⟩ := h
  have hbounds : (start e signals caller).enumerator = e := by rw [start_eq]
  have hbounds' : ((start e signals caller).after actions).enumerator = e := by
    refine (reaches_after _ actions).keeps (I := fun r => r.enumerator =
      e) hbounds ?_
    exact fun v w b hv he => he.fixed.1.trans hv
  rw [hbounds] at hreports
  refine ⟨u, hu, hreports, hfailed, ?_⟩
  cases hc : u.isCancelled with
  | true =>
    obtain ⟨err, rfl⟩ := hfailed hc
    refine iff_of_true ⟨u.workers.length, ?_⟩ (.inl rfl)
    rw [hreports, hbounds', drainingReport, if_pos hc]
    simp [finalReport, RunState.of]
  | false =>
    rw [drainingReport, hc] at hreports
    cases result with
    | ok found =>
      refine iff_of_true ?_ (.inr ⟨found, rfl⟩)
      show _ = _
      rw [hreports, hbounds']
      simp [finalReport, RunState.of]
    | error err =>
      refine iff_of_false ?_ (by simp)
      rintro ⟨outstanding, hdrained⟩
      rw [hreports, hbounds'] at hdrained
      simp [finalReport, RunState.of] at hdrained

/-- The page limit is reached while a lookup is under way. -/
def earlyFailure : List Action :=
  [.drive, .answer (.value ⟨["a"], some "b"⟩), .drive, .drive, .work 0,
    .drive, .work 0, .unwind 0, .work 0, .drive]

theorem documented_iff_early :
    ((start { concurrency := 1, pageLimit := some 1 } { count := 1 }
      ⟨0, []⟩).after
        earlyFailure).driver = .returned (.error (.pageLimitExceeded 1)) ∧
      ((start { concurrency := 1, pageLimit := some 1 } { count := 1 }
        ⟨0, []⟩).after
        earlyFailure).Documented (.error (.pageLimitExceeded 1)) := by
  have hd : ((start { concurrency := 1, pageLimit := some 1 } { count := 1 }
      ⟨0, []⟩).after
      earlyFailure).driver = .returned (.error (.pageLimitExceeded 1)) := rfl
  obtain ⟨u, _, hreports, _, hiff⟩ := documented_iff _ _ _ _ _ hd
  refine ⟨hd, hiff.2 (.inl (Decidable.byContradiction fun hnot => ?_))⟩
  rw [if_neg hnot] at hreports
  have hlength : ((start { concurrency := 1, pageLimit := some 1 }
      { count := 1 } ⟨0, []⟩).after earlyFailure).transitions.length = 4 := rfl
  rw [hreports] at hlength
  exact absurd hlength (by decide)

/-- The only lookup fails after its page, which is the last one, was
submitted. -/
def lateFailure : List Action :=
  [.drive, .answer (.value ⟨["a"], none⟩), .drive, .drive, .work 0,
    .report 0 (.failed ⟨"broken", []⟩), .work 0, .drive]

theorem not_documented_late :
    ¬∀ (e : Enumerator) (signals : Signals) (caller : Cancellation) (actions :
      List Action)
        (result : Except EnumerationError ResultSet),
      ((start e signals caller).after actions).driver = .returned result →
        ((start e signals caller).after actions).Documented result := by
  intro h
  have hd : ((start { concurrency := 1 } { count := 1 } ⟨0, []⟩).after
        lateFailure).driver =
      .returned (.error (.enrichment "a" ⟨"broken", []⟩)) := rfl
  have hlength : ((start { concurrency := 1 } { count := 1 } ⟨0, []⟩).after
      lateFailure).transitions.length = 3 := rfl
  obtain ⟨outstanding, hreports⟩ := h _ _ _ _ _ hd
  rw [hreports] at hlength
  exact absurd hlength (show ¬4 = 3 by decide)

end Run

end CloudAccess
