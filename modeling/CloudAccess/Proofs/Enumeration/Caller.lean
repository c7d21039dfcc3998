import CloudAccess.Proofs.Enumeration.Closing

/-!
# The caller cancels a run

A run whose caller is cancelled returns that it was cancelled, and it cancels
no handle but its own.

* `Called` is the invariant of a run that was cancelled before any failure was
  recorded, while its driver waited or before it moved: from then on no failure
  is recorded, and the only result is the cancellation.
* `Idle` is that of a run that was cancelled before it began: no page was
  asked for and no reference was submitted.
* `cancelled_after` finds the cancellation that a run without a failure has
  seen, and `isCancelled_after_iff` says which handles are cancelled after a
  list of actions: those that someone has cancelled.
* `caller_cancellation` puts these together.
-/

namespace CloudAccess

/-! ## Which handles a cancellation reaches -/

theorem Cancellation.isCancelled_iff_path {h : Cancellation} {s : Signals} :
    h.isCancelled s = true ↔ ∃ n ∈ h.path, n ∈ s.raised := by
  simp [Cancellation.isCancelled_iff, Cancellation.path]

/-- A cancellation reaches the handles whose way to the root has its signal. -/
theorem Cancellation.isCancelled_cancel_iff {h g : Cancellation} {s : Signals} :
    h.isCancelled (s.cancel g) = true ↔
      h.isCancelled s = true ∨ g.own ∈ h.path := by
  simp only [Cancellation.isCancelled_iff_path, Signals.mem_raised_cancel]
  constructor
  · rintro ⟨n, hn, rfl | hraised⟩
    · exact .inr hn
    · exact .inl ⟨n, hn, hraised⟩
  · rintro (⟨n, hn, hraised⟩ | hon)
    · exact ⟨n, hn, .inr hraised⟩
    · exact ⟨g.own, hon, .inl rfl⟩

namespace Run

variable {r t : Run} {a : Action} {actions : List Action} {e : Enumerator}
  {signals : Signals} {caller : Cancellation}

/-- A run keeps the handle that it was given at its start. -/
theorem Reaches.handle (h : (start e signals caller).Reaches r) :
    r.handle = ⟨signals.count, caller.own :: caller.ancestors⟩ := by
  refine h.keeps (I := fun u =>
    u.handle = ⟨signals.count, caller.own :: caller.ancestors⟩)
    (by rw [start_eq]) ?_
  intro u v a hu he
  exact he.fixed.2.2.trans hu

/-- A run is cancelled with its caller. -/
theorem Reaches.isCancelled_of_caller (h : (start e signals caller).Reaches r)
    (hc : caller.isCancelled r.signals = true) : r.isCancelled = true := by
  obtain ⟨n, hn, hraised⟩ := Cancellation.isCancelled_iff_path.1 hc
  refine Cancellation.isCancelled_iff_path.2 ⟨n, ?_, hraised⟩
  rw [h.handle]
  exact List.mem_cons_of_mem _ hn

/-! ## A run that was cancelled in time -/

/-- Whether the driver waits: for a page, for a permit, or for the workers. -/
def Driver.isSuspended : Driver → Bool
  | fetching _ | queueing _ _ _ | draining => true
  | _ => false

/-- A run that was cancelled before a failure was recorded.  Its driver looks
for the cancellation next, waits for the workers, or has returned. -/
structure Called (r : Run) : Prop where
  cancelled : r.isCancelled = true
  unfailed : r.firstError = none
  place : r.canQuit = true ∨ r.driver = .draining ∨
  r.driver = .returned (.error .cancelled)

/-- Unless the caller gives the run up, it goes on to return that it was
cancelled. -/
theorem Called.act (h : r.Called) (he : r.Effect a t) (hdrop : a ≠ .drop) :
    t.Called := by
  obtain ⟨hcancelled, hunfailed, hplace⟩ := h
  refine ⟨he.isCancelled hcancelled, ?_, ?_⟩
  · rcases he.signals with ⟨_, hsame⟩ | ⟨_, hfailed⟩ | ⟨g, _, _, hsame⟩
    · rw [hsame, hunfailed]
    · -- a failure is observed only in a run that is not cancelled, or at
      -- the page limit
      cases he with
      | exceed hd hlimit hpages =>
        simp [canQuit, hd, hlimit, Option.filter, hpages] at hplace
      | fetchFailed _ hc | lookupFailed _ _ hc | lookupCrashed _ _ hc =>
        simp [hcancelled] at hc
      | _ =>
        simp [leave_eq, release_eq, ungrant_eq, Run.finish, setStage, spawn,
          Run.conclude, emit, Run.cancel, hunfailed] at hfailed
    · rw [hsame, hunfailed]
  · cases hdrivers : a.isDrivers with
    | false =>
      obtain ⟨hd, _, _, hp, _⟩ := he.paging hdrivers
      simpa only [canQuit, hd, hp, he.fixed.1] using hplace
    | true =>
      cases he with
      | idle => exact hplace
      | quit => exact .inr (.inl (by rw [leave_eq]))
      | conclude => simp [Run.conclude, result, hunfailed, hcancelled]
      | exceed hd hlimit hpages =>
        simp [canQuit, hd, hlimit, Option.filter, hpages] at hplace
      | ask _ _ hc | fetchCrashed _ hc | fetchFailed _ hc | fetched _ hc
      | grant _ hc =>
        simp [hcancelled] at hc
      | complete hd | next hd | pass hd | refuse hd | employ hd | queue hd =>
        simp [canQuit, hd] at hplace
      | drop => exact absurd rfl hdrop
      | _ => cases hdrivers

/-- A run that was cancelled in time can only return that. -/
theorem Called.returned (h : r.Called) (hover : r.driver.isOver = true) :
    r.driver = .returned (.error .cancelled) := by
  rcases h.place with hquit | hdraining | hreturned
  · cases hd : r.driver <;> simp [canQuit, hd] at hquit <;>
      simp [hd, Driver.isOver] at hover
  · rw [hdraining] at hover
    cases hover
  · exact hreturned

/-- A run whose driver waits may be cancelled in time. -/
theorem called_of_isSuspended (hd : r.driver.isSuspended = true)
    (hc : r.isCancelled = true) (hnone : r.firstError = none) : r.Called := by
  refine ⟨hc, hnone, ?_⟩
  cases hat : r.driver <;> simp [Driver.isSuspended, hat] at hd <;>
    simp [canQuit, hat]

/-- So may a run at its start. -/
theorem called_start (hfit : e.concurrency ≤ Enumerator.maxPermits)
    (hlimit : ∀ limit ∈ e.pageLimit, 1 ≤ limit)
    (hc : caller.isCancelled signals = true) :
    (start e signals caller).Called := by
  refine ⟨Reaches.isCancelled_of_caller .refl (by rw [start_eq]; exact hc),
    by rw [start_eq], .inl ?_⟩
  rw [start_eq]
  simp only [canQuit, hfit, if_true, Option.isNone_iff_eq_none,
    Option.filter_eq_none_iff]
  intro limit hin
  have hpos := hlimit limit hin
  simp only [decide_eq_true_eq]
  omega

/-! ## A run that was cancelled before it began -/

/-- A run that has asked for no page and submitted no reference, and never
will. -/
structure Idle (r : Run) : Prop where
  cancelled : r.isCancelled = true
  asked : r.asked = []
  submitted : r.submitted = []
  workers : r.workers = []
  place : ∀ items next, r.driver ≠ .submitting items next

theorem Idle.act (h : r.Idle) (he : r.Effect a t) : t.Idle := by
  obtain ⟨hcancelled, hasked, hsubmitted, hworkers, hplace⟩ := h
  have hnone {i : Nat} {w : Worker} : r.workers[i]? ≠ some w := by
    simp [hworkers]
  cases he with
  | idle => exact ⟨hcancelled, hasked, hsubmitted, hworkers, hplace⟩
  | exceed | quit =>
    exact ⟨by simp [hcancelled], by simpa [leave_eq, fail_eq] using hasked,
      by simpa [leave_eq, fail_eq] using hsubmitted, by
      simpa [leave_eq, fail_eq] using hworkers, by simp [leave_eq]⟩
  | ask _ _ hc | fetchCrashed _ hc | fetchFailed _ hc | fetched _ hc
  | grant _ hc =>
    simp [hcancelled] at hc
  | complete hd | next hd | pass hd | refuse hd | employ hd | queue hd =>
    exact absurd hd (hplace _ _)
  | conclude | drop =>
    exact ⟨by simpa [isCancelled, Run.conclude, emit,
      ungrant_eq] using hcancelled,
      by simpa [Run.conclude, emit, ungrant_eq] using hasked,
      by simpa [Run.conclude, emit, ungrant_eq] using hsubmitted,
      by simpa [Run.conclude, emit, ungrant_eq] using hworkers, by
      simp [Run.conclude]⟩
  | look hw | stop hw | finish hw | accept hw | lookupFailed hw
  | lookupCrashed hw | abandon hw
  | report hw | unwindStopping hw | unwindAbandoned hw => exact absurd hw hnone
  | cancel =>
    exact ⟨Cancellation.isCancelled_cancel hcancelled, hasked, hsubmitted,
      hworkers, hplace⟩

/-- A run whose caller is cancelled at the start never does anything. -/
theorem Reaches.idle (h : (start e signals caller).Reaches r)
    (hc : caller.isCancelled signals = true) : r.Idle := by
  refine h.keeps (I := Idle) ?_ fun _ _ _ hu he => hu.act he
  refine ⟨Reaches.isCancelled_of_caller .refl (by rw [start_eq]; exact hc),
    ?_, ?_, ?_, ?_⟩
  all_goals rw [start_eq]
  intro items next
  by_cases hfit : e.concurrency ≤ Enumerator.maxPermits <;> simp [hfit]

/-! ## Who cancelled -/

/-- A run without a failure is cancelled only from outside. -/
theorem cancelled_after (r : Run) (actions : List Action)
    (hnone : (r.after actions).firstError = none)
    (hc : (r.after actions).isCancelled = true) :
    r.isCancelled = true ∨
      ∃ before g later, actions = before ++ .cancel g :: later ∧
        g.own ∈ r.handle.path ∧
        (r.after before).firstError = none ∧
        ((r.after actions).driver.isOver = false →
          (r.after before).driver.isOver = false) := by
  induction actions using List.reverseRecOn with
  | nil => exact .inl hc
  | append_singleton actions a ih =>
    rw [after_concat] at hnone hc ⊢
    have he := (r.after actions).effect_act a
    have hpresent (hd : ((r.after actions).act a).driver.isOver = false) :
        (r.after actions).driver.isOver = false := by
      cases hover : (r.after actions).driver.isOver with
      | false => rfl
      | true => rwa [he.isOver hover, hover] at hd
    have hhandle : (r.after actions).handle = r.handle := by
      refine (reaches_after r actions).keeps (I := fun u =>
        u.handle = r.handle) rfl ?_
      intro u v b hu hb
      exact hb.fixed.2.2.trans hu
    -- either the last action cancels the run, or the run was cancelled before
    -- it
    have hlast : (∃ g, a = .cancel g ∧ g.own ∈ r.handle.path) ∨
        (r.after actions).isCancelled = true := by
      rcases he.signals with ⟨hs, _⟩ | ⟨_, hf⟩ | ⟨g, rfl, hs, _⟩
      · right
        unfold isCancelled at hc ⊢
        rwa [hs, he.fixed.2.2] at hc
      · rw [hnone] at hf
        cases hf
      · rcases Cancellation.isCancelled_cancel_iff.1 hc with hwas | hon
        · exact .inr hwas
        · exact .inl ⟨g, rfl, hhandle ▸ hon⟩
    have hnone' : (r.after actions).firstError = none := by
      rcases he.signals with ⟨_, hf⟩ | ⟨_, hf⟩ | ⟨_, _, _, hf⟩
      · rw [← hf, hnone]
      · rw [hnone] at hf
        cases hf
      · rw [← hf, hnone]
    rcases hlast with ⟨g, rfl, hon⟩ | hwas
    · exact .inr ⟨actions, g, [], rfl, hon, hnone', hpresent⟩
    · rcases ih hnone' hwas with
        hstart | ⟨before, g, later, rfl, hg, hfirst, hd⟩
      · exact .inl hstart
      · exact .inr ⟨before, g, later ++ [a],
          by simp, hg, hfirst, fun h => hd (hpresent h)⟩

/-- What a run has returned was its result while its driver was still there. -/
theorem exists_result {result : Except EnumerationError ResultSet}
    (hr : r.driver.isOver = false)
    (hd : (r.after actions).driver = .returned result) :
    ∃ before later, actions = before ++ later ∧
      (r.after before).driver.isOver = false ∧
      (r.after before).result = result := by
  induction actions using List.reverseRecOn with
  | nil =>
    rw [after, List.foldl_nil] at hd
    rw [hd] at hr
    cases hr
  | append_singleton actions a ih =>
    rw [after_concat] at hd
    have he := (r.after actions).effect_act a
    cases hover : (r.after actions).driver.isOver with
    | true =>
      obtain ⟨before, later, rfl, hpresent, hresult⟩ :=
        ih (he.isOver hover ▸ hd)
      exact ⟨before, later ++ [a], by simp, hpresent, hresult⟩
    | false =>
      refine ⟨actions, [a], rfl, hover, ?_⟩
      rcases he.returned hd with hreturned | ⟨-, hconcluded⟩
      · rw [hreturned] at hover
        cases hover
      · rw [hconcluded] at hd
        injection hd

/-- An action cancels a handle that does not descend from that of the run only
if it is such a cancellation. -/
theorem isCancelled_act_iff (r : Run) (a : Action) {h : Cancellation}
    (hforeign : r.handle.own ∉ h.path) :
    h.isCancelled (r.act a).signals = true ↔
      h.isCancelled r.signals = true ∨ ∃ g, a = .cancel g ∧ g.own ∈ h.path := by
  by_cases hcancel : ∃ g, a = .cancel g
  · obtain ⟨g, rfl⟩ := hcancel
    simp only [Action.cancel.injEq, exists_eq_left']
    exact Cancellation.isCancelled_cancel_iff
  · have hnone : ¬∃ g, a = .cancel g ∧ g.own ∈ h.path :=
      fun ⟨g, ha, _⟩ => hcancel ⟨g, ha⟩
    rcases (r.effect_act a).signals with ⟨hs, _⟩ | ⟨hs, _⟩ | ⟨g, ha, _⟩
    · simp [hs, hnone]
    · rw [hs, Cancellation.isCancelled_cancel_iff]
      simp [hforeign, hnone]
    · exact absurd ⟨g, ha⟩ hcancel

/-- Among the handles that do not descend from that of the run, the cancelled
ones are those that were and those that someone cancels. -/
theorem isCancelled_after_iff (r : Run) (actions : List Action)
    {h : Cancellation} (hforeign : r.handle.own ∉ h.path) :
    h.isCancelled (r.after actions).signals = true ↔
      h.isCancelled r.signals = true ∨ ∃ g, .cancel g ∈ actions ∧
        g.own ∈ h.path := by
  induction actions generalizing r with
  | nil => simp [after]
  | cons a actions ih =>
    have hforeign' : (r.act a).handle.own ∉ h.path := by
      rwa [(r.effect_act a).fixed.2.2]
    have hrest := ih (r.act a) hforeign'
    rw [isCancelled_act_iff r a hforeign] at hrest
    refine hrest.trans ?_
    simp only [List.mem_cons, or_and_right, exists_or, or_assoc, eq_comm]

/-- A run returns that it was cancelled only without a failure, and when it
is. -/
theorem cancelled_of_result (h : (start e signals caller).Reaches r)
    (hr : r.result = .error .cancelled) :
    r.firstError = none ∧ r.isCancelled = true := by
  obtain ⟨actions, rfl⟩ := h.exists_after
  unfold result at hr
  cases hfirst : ((start e signals caller).after actions).firstError with
  | some err =>
    rw [hfirst] at hr
    have hknown :=
      (firstError_after (Reaches.counted .refl) (by rw [start_eq])).1 hfirst
    injection hr with hr
    exact absurd hr hknown.known.1
  | none =>
    rw [hfirst] at hr
    refine ⟨rfl, ?_⟩
    by_contra hc
    simp [hc] at hr

/-- A run that is cancelled at its start has a cancelled caller. -/
theorem caller_cancelled_of_start (hsound : signals.Sound)
    (hc : (start e signals caller).isCancelled = true) :
    caller.isCancelled signals = true := by
  have hfresh : signals.count ∉ signals.raised :=
    fun hin => Nat.lt_irrefl _ (hsound _ hin)
  rw [start_eq] at hc
  obtain ⟨n, hn, hraised⟩ := Cancellation.isCancelled_iff_path.1 hc
  rcases List.mem_cons.1 hn with rfl | hn
  · exact absurd hraised hfresh
  · exact Cancellation.isCancelled_iff_path.2 ⟨n, hn, hraised⟩

/-! ## Caller and run -/

/-- A run within the number of permits that there can be, and with no page
limit or one of at least one page.

When its caller, or a handle from which the caller descends, is cancelled
before the run has recorded a failure, at the start or while the driver waits,
then the run moves by itself, in no more actions than it has before it, until
it returns that it was cancelled, whatever its fetch and its lookups bring.  A
run whose caller was cancelled at the start asks for no page and submits no
reference, and in its scenes there is never a fetch or a lookup.

Unless someone cancels the handle of the run itself, it returns that it was
cancelled only after a cancellation of its caller or above, before it was over
and before a failure was recorded.  Of the handles that do not descend from
that of the run, only those are cancelled that were, or that someone
cancels. -/
theorem caller_cancellation (e : Enumerator) (signals : Signals)
    (caller : Cancellation) (hsound : signals.Sound)
    (hfit : e.concurrency ≤ Enumerator.maxPermits)
    (hlimit : ∀ limit ∈ e.pageLimit, 1 ≤ limit) :
    (∀ r, (start e signals caller).Reaches r →
      caller.isCancelled r.signals = true →
      r.firstError = none → (r = start e signals caller ∨
        r.driver.isSuspended = true) →
        ∀ k t, r.Course k t →
          k ≤ r.effort [] ∧
          (t.driver.isOver = false → ∃ a : Action, a.isMove = true ∧
            t.Enabled a) ∧
          (t.driver.isOver = true → t.driver = .returned (.error .cancelled))) ∧
    (caller.isCancelled signals = true →
      (∀ r, (start e signals caller).Reaches r →
        r.asked = [] ∧ r.submitted = [] ∧ r.workers = []) ∧
      ∀ (ω φ κ : Type) (remote : Remote ω φ κ) (s t : RunScene ω φ κ),
        s.Opens e signals caller → (RunScene.play remote).Reaches s t →
          t.fetch = none ∧ t.lookups = []) ∧
    (∀ actions : List Action, (∀ g, .cancel g ∈ actions →
      g.own ≠ signals.count) →
      ((start e signals caller).after actions).driver =
          .returned (.error .cancelled) →
        caller.isCancelled signals = true ∨
          ∃ before g later, actions = before ++ .cancel g :: later ∧
            g.own ∈ caller.path ∧
            ((start e signals caller).after before).driver.isOver = false ∧
            ((start e signals caller).after before).firstError = none) ∧
    ∀ (actions : List Action) (h : Cancellation), signals.count ∉ h.path →
      (h.isCancelled ((start e signals caller).after actions).signals = true ↔
        h.isCancelled signals = true ∨ ∃ g, .cancel g ∈ actions ∧
          g.own ∈ h.path) := by
  have hsignals : (start e signals caller).signals =
      { signals with count := signals.count + 1 } := by rw [start_eq]
  have hstart : (start e signals caller).driver.isOver = false := by
    rw [start_eq]
    simp [hfit, Driver.isOver]
  refine ⟨fun r hr hc hnone hwhen k t ht => ?_, fun hc => ⟨fun r hr => ?_, ?_⟩,
    fun actions hothers hd => ?_, fun actions h hforeign => ?_⟩
  · have hcancelled := hr.isCancelled_of_caller hc
    have hcalled : r.Called := by
      rcases hwhen with rfl | hsuspended
      · rw [hsignals] at hc
        exact called_start hfit hlimit hc
      · exact called_of_isSuspended hsuspended hcancelled hnone
    have hend : t.Called :=
      ht.keeps hcalled fun _ _ _ hu he hdrop => hu.act he hdrop
    refine ⟨ht.length_le (.inl hcancelled), fun hpresent => ?_, hend.returned⟩
    exact IsClosed.moves (.inl hend.cancelled) fun hover => by
      simp [hpresent] at hover
  · obtain ⟨-, hasked, hsubmitted, hworkers, -⟩ := hr.idle hc
    exact ⟨hasked, hsubmitted, hworkers⟩
  · intro ω φ κ remote s t hs ht
    have hattended := RunScene.reaches_attended ht hs.attended
    have hrun : (start e signals caller).Reaches t.run :=
      hs.run_eq ▸ RunScene.reaches_run ht
    have hidle := hrun.idle hc
    refine ⟨?_, hattended.lookups_eq_nil (by simp [hidle.workers])⟩
    by_contra hsome
    obtain ⟨cursor, hd⟩ :=
      hattended.fetch_iff.1 (Option.isSome_iff_ne_none.2 hsome)
    have hcounted := hrun.counted
    simp [Counted, hd, hidle.asked] at hcounted
  · obtain ⟨before, later, rfl, hpresent, hresult⟩ := exists_result hstart hd
    obtain ⟨hnone, hc⟩ := cancelled_of_result (reaches_after _ before) hresult
    rcases cancelled_after _ before hnone hc with
      hc | ⟨earlier, g, rest, rfl, hg, hfirst, hd'⟩
    · exact .inl (caller_cancelled_of_start hsound hc)
    · refine .inr ⟨earlier, g, rest ++ later, by simp, ?_, hd' hpresent, hfirst⟩
      rw [Reaches.handle .refl] at hg
      exact (List.mem_cons.1 hg).resolve_left (hothers g (by simp))
  · have hown : (start e signals caller).handle.own = signals.count := by
      rw [start_eq]
    have hiff :=
      isCancelled_after_iff (start e signals caller) actions (h := h)
        (hown ▸ hforeign)
    rwa [hsignals] at hiff

/-- A handle above the caller is cancelled while a lookup is under way and the
driver waits for its worker. -/
def calledActions : List Action :=
  [.drive, .answer (.value ⟨["a"], none⟩), .drive, .work 0, .drive,
    .cancel ⟨0, []⟩]

/-- The run after that. -/
def calledRun : Run :=
  (start { concurrency := 2 } { count := 3 } ⟨1, [0]⟩).after calledActions

/-- The lookup fails then. -/
def failedCall : Run := calledRun.act (.report 0 (.failed ⟨"denied", []⟩))

theorem caller_cancellation_late :
    (Cancellation.isCancelled ⟨1, [0]⟩ calledRun.signals = true ∧
      calledRun.firstError = none ∧
        calledRun.driver.isSuspended = true ∧
        ((failedCall.act (.work 0)).act .drive).driver =
          .returned (.error .cancelled)) ∧
      ((start { concurrency := 2 } { count := 3, raised := [0] } ⟨1, [0]⟩).after
        calledActions).submitted = [] ∧
      ¬Cancellation.isCancelled ⟨2, []⟩ calledRun.signals = true := by
  obtain ⟨hreturns, -, -, hforeign⟩ :=
    caller_cancellation { concurrency := 2 } { count := 3 } ⟨1, [0]⟩
      (by decide) (by decide) (by simp)
  obtain ⟨-, hnothing, -, -⟩ :=
    caller_cancellation { concurrency := 2 } { count := 3, raised := [0] }
      ⟨1, [0]⟩ (by decide) (by decide) (by simp)
  have hreported : calledRun.Course 1 failedCall :=
    Course.start.act ⟨"a", rfl⟩ (by simp) (by simp)
  have hfinished : calledRun.Course 2 (failedCall.act (.work 0)) :=
    hreported.act (a := .work 0) rfl (by simp) (by simp)
  have hreturned : calledRun.Course 3 ((failedCall.act (.work 0)).act .drive) :=
    hfinished.act (a := .drive) rfl (by simp) (by simp)
  have hreach : (start { concurrency := 2 } { count := 3 } ⟨1, [0]⟩).Reaches
      calledRun :=
    reaches_after _ _
  refine ⟨⟨rfl, rfl, rfl, ?_⟩, ?_, fun hc => ?_⟩
  · exact (hreturns calledRun hreach rfl rfl (.inr rfl) 3 _ hreturned).2.2 rfl
  · exact ((hnothing rfl).1 _ (reaches_after _ _)).2.1
  · have hcancels := (hforeign calledActions ⟨2, []⟩ (by decide)).1 hc
    simp [calledActions, Cancellation.path, Cancellation.isCancelled]
      at hcancels

/-- A run whose caller was cancelled does not return when it needs more permits
than there can be: it crashes before it has begun. -/
theorem not_cancelled_of_many_permits :
    ∃ (e : Enumerator) (signals : Signals) (caller : Cancellation),
      e.pageLimit = none ∧ signals.Sound ∧ signals.Issued caller ∧
        caller.isCancelled signals = true ∧
        (start e signals caller).firstError = none ∧
        ∀ t, (start e signals caller).Reaches t → t.driver = .crashed := by
  refine ⟨{ concurrency := Enumerator.maxPermits + 1
            concurrency_pos := Nat.succ_pos _ },
    { count := 1, raised := [0] }, ⟨0, []⟩, rfl, by decide, by decide, rfl, by
    rw [start_eq], fun t ht => ?_⟩
  refine ht.keeps (I := fun u => u.driver = .crashed)
    (by rw [start_eq]; simp) ?_
  intro u v a hu he
  rw [he.isOver (by rw [hu]; rfl), hu]

end Run

end CloudAccess
