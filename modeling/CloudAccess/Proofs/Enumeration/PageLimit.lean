import CloudAccess.Proofs.Enumeration.Caller
import CloudAccess.Proofs.Enumeration.Undivided
import CloudAccess.Proofs.Enumeration.Unlimited
import CloudAccess.Proofs.NoDeadlock

/-!
# The page limit of an enumeration

An enumeration with a page limit is that without it, as long as its pages end
within the limit, and stops at the limit otherwise.

* `Finishes` says how an enumeration comes to its end that its caller does not
  give up.
* `stops_at_page_limit` puts together how many fetches there are, when the limit
  makes no difference, when it is exceeded, and that the enumeration ends.
-/

namespace CloudAccess

namespace RunScene

variable {ω φ κ : Type} {remote : Remote ω φ κ} {s t : RunScene ω φ κ}
  {e : Enumerator} {signals : Signals} {caller : Cancellation}

/-- An enumeration is over: it has returned, or it has crashed because a fetch
under way did. -/
def Finishes (remote : Remote ω φ κ) (s t : RunScene ω φ κ) : Prop :=
  t.isOver = true ∧
    ((∃ result, t.run.driver = .returned result) ∨
      t.run.driver = .crashed ∧ FetchCrashed remote s t)

/-- Within the number of permits that there can be, an enumeration whose caller
does not give it up is over once it has returned, or once a fetch has
crashed. -/
theorem Opens.finishes (hs : s.Opens e signals caller)
    (hfit : e.concurrency ≤ Enumerator.maxPermits) (hdrop : s.dropAt = none)
    (ht : (play remote).Reaches s t) (hover : t.isOver = true) :
    Finishes remote s t := by
  refine ⟨hover, ?_⟩
  rcases concludes hs ht hover with
    hreturned | ⟨hcrashed, hmany | hfetch⟩ | ⟨_, hintends⟩
  · exact .inl hreturned
  · exact absurd hfit (Nat.not_le_of_lt hmany)
  · exact .inr ⟨hcrashed, hfetch⟩
  · rw [hdrop] at hintends
    cases hintends

/-- Where no task waits for ever, such an enumeration with a page limit comes to
its end in every order of the steps and in every rehearsal that is granted
enough of them. -/
theorem Opens.exists_finishes (hs : s.Opens e signals caller)
    (hlimit : e.pageLimit.isSome = true)
    (hfit : e.concurrency ≤ Enumerator.maxPermits) (hdrop : s.dropAt = none)
    {f : Gauge φ} {l : Gauge κ} (hr : remote.Ends f l) :
    (∀ order, (play remote).Unfolds order → order 0 = s →
      ∃ n, Finishes remote s (order n)) ∧
      ∃ n t, Finishes remote s t ∧
        ∀ steps, n ≤ steps → (play remote).run steps [] s = .complete t := by
  obtain ⟨within, hw, hbounded⟩ := exists_reckons (r := remote) (.inl hlimit) hs
  have hstart : Standing remote f l within s := hs.standing hbounded
  have hsinks := standing_sinks hr hw
  refine ⟨fun order horder hfirst => ?_, ?_⟩
  · obtain ⟨n, hover, -, hreach⟩ :=
      hsinks.exists_isOver horder (hfirst ▸ hstart)
    exact ⟨n, hs.finishes hfit hdrop (hfirst ▸ hreach) hover⟩
  · obtain ⟨n, t, hover, -, hreach, hrun⟩ := hsinks.run_complete hstart []
    exact ⟨n, t, hs.finishes hfit hdrop hreach hover, hrun⟩

end RunScene

namespace Run

/-- An enumeration with a page limit, within the number of permits that there
can be.

* No more fetches are begun than the limit allows, whatever happens.
* As long as the pages received are the first ones of a listing that ends within
  the limit, every list of actions leads to the same run as without the limit,
  and so does every rehearsal.
* A run that is over, and was not given up, has returned that it exceeded the
  limit exactly when its driver came to look at the limit with as many pages
  received, another one to come, a worker for every reference on them, and no
  failure recorded.  When nothing interrupts a busy driver, as in a rehearsal,
  and the caller was not cancelled beforehand, that is so exactly when the run
  came so far, wherever its driver was, while it was not cancelled.
* Where no fetch and no lookup waits for ever, every order of the steps and
  every rehearsal that is granted enough of them comes to its end: the run
  returns, unless a fetch crashes. -/
theorem stops_at_page_limit (e : Enumerator) (signals : Signals)
    (caller : Cancellation) (limit : Nat) (hlimit : e.pageLimit = some limit)
    (hfit : e.concurrency ≤ Enumerator.maxPermits) :
    (∀ r, (start e signals caller).Reaches r → r.asked.length ≤ limit) ∧
    (∀ actions,
      ((start (e.withPageLimit none) signals caller).after actions).EndsBy
          limit →
        ((start e signals caller).after actions).unlimited =
          (start (e.withPageLimit none) signals caller).after actions) ∧
    (∀ actions t, t = (start e signals caller).after actions →
      t.driver.isOver = true →
      t.driver ≠ .dropped → ∀ n,
        (t.driver = .returned (.error (.pageLimitExceeded n)) ↔
          n = limit ∧ ∃ before later, actions = before ++ .drive :: later ∧
            (∃ cursor, ((start e signals caller).after before).driver =
              .turning cursor) ∧
            ((start e signals caller).after before).Full limit) ∧
        (signals.Sound → caller.isCancelled signals = false →
          (start e signals caller).Undivided actions →
            (t.driver = .returned (.error (.pageLimitExceeded n)) ↔
              n = limit ∧ ∃ before, before <+: actions ∧
                ((start e signals caller).after before).Full limit ∧
                ((start e signals caller).after before).isCancelled = false))) ∧
    ∀ (ω φ κ : Type) (remote : Remote ω φ κ) (s : RunScene ω φ κ),
      s.Opens e signals caller →
        (∀ steps, ((RunScene.play remote).run steps []
            s.unlimited).state.run.EndsBy limit →
          ((RunScene.play remote).run steps [] s).state.unlimited =
            ((RunScene.play remote).run steps [] s.unlimited).state) ∧
        ((∀ unit ∈ s.cancelAt, s.moment.unit < unit) →
          ∀ steps, ∃ actions, RunScene.Rehearses remote steps [] s actions) ∧
        ∀ (f : Gauge φ) (l : Gauge κ), remote.Ends f l → s.dropAt = none →
          (∀ order, (RunScene.play remote).Unfolds order → order 0 = s →
            ∃ n, s.Finishes remote (order n)) ∧
          ∃ n t, s.Finishes remote t ∧
            ∀ steps, n ≤ steps →
              (RunScene.play remote).run steps [] s = .complete t := by
  refine ⟨fun r h => h.asked_le hlimit, fun actions hends => ?_,
    fun actions t ht hover hkept n =>
    ⟨exceeds_iff hfit hlimit ht hover hkept n, ?_⟩,
    fun ω φ κ remote s hs => ⟨fun steps hends => ?_, fun hcancel steps => ?_,
      fun f l hr hdrop => hs.exists_finishes (by rw [hlimit]; rfl)
      hfit hdrop hr⟩⟩
  · rw [← unlimited_start] at hends ⊢
    exact Reaches.unlimited_after .refl hlimit hends
  · intro hsound hc hundivided
    have hcalm : (start e signals caller).isCancelled = false :=
      Bool.eq_false_iff.2 fun hcancelled => by
        rw [caller_cancelled_of_start hsound hcancelled] at hc
        cases hc
    exact exceeds_iff_of_undivided hfit hlimit hcalm hundivided ht hover hkept n
  · have hstart : (start e signals caller).Reaches s.run := by
      rw [hs.run_eq]
      exact .refl
    exact RunScene.unlimited_run steps [] hstart hlimit hends
  · refine RunScene.rehearses steps fun _ => .inr ⟨rfl, ?_⟩
    show s.cancelAt.any (· ≤ s.moment.unit) = false
    simpa [Option.any_eq_false] using hcancel

/-- At most so many pages, and one lookup at a time. -/
def pagesAtMost (limit : Nat) : Enumerator where
  concurrency := 1
  pageLimit := some limit
  concurrency_pos := Nat.one_pos

/-- A listing whose page goes on to itself for ever. -/
def endless : Listing :=
  { pages :=
      [(none, { content := ⟨["a"], some "next"⟩ }),
        (some "next", { content := ⟨["a", "b"], some "next"⟩, delay := 1 })]
    lookups := [("a", { delay := 3 })] }

/-- A listing of two pages. -/
def twoPages : Listing :=
  { pages :=
      [(none, { content := ⟨["a"], some "next"⟩ }),
        (some "next", { content := ⟨["a", "b"], none⟩, delay := 1 })]
    lookups := [("a", { delay := 3 })] }

/-- The enumeration of at most two pages, before its first step. -/
def twoPagesScene : RunScene Diary Listing.Fetch Listing.Lookup :=
  .start (pagesAtMost 2) {} false none none

/-- Where the rehearsal of a listing comes with it in a number of steps. -/
def twoPagesRun (l : Listing) (steps : Nat) : Run :=
  ((RunScene.play l.remote).run steps [] twoPagesScene).state.run

theorem stops_at_page_limit_two :
    ((twoPagesRun endless 40).driver =
      .returned (.error (.pageLimitExceeded 2)) ∧
        (twoPagesRun endless 40).asked.length ≤ 2 ∧
        ∃ k ≤ 40, (twoPagesRun endless k).Full 2 ∧
          (twoPagesRun endless k).isCancelled = false) ∧
      (∃ n t, twoPagesScene.Finishes endless.remote t ∧ ∀ steps, n ≤ steps →
        (RunScene.play endless.remote).run steps [] twoPagesScene =
          .complete t) ∧
      (twoPagesRun twoPages 40).driver = .returned (.ok ⟨[]⟩) ∧
        (twoPagesRun twoPages 40).unlimited =
          ((RunScene.play twoPages.remote).run 40 []
            twoPagesScene.unlimited).state.run := by
  have hopens : twoPagesScene.Opens (pagesAtMost 2) { count := 1 } ⟨0, []⟩ :=
    ⟨rfl, rfl, rfl⟩
  obtain ⟨hfetches, -, hexceeds, hscenes⟩ :=
    stops_at_page_limit (pagesAtMost 2) { count := 1 } ⟨0, []⟩ 2 rfl (by decide)
  have hreturned : (twoPagesRun endless 40).driver =
      .returned (.error (.pageLimitExceeded 2)) := rfl
  obtain ⟨-, hrehearses, hends⟩ :=
    hscenes _ _ _ endless.remote twoPagesScene hopens
  obtain ⟨actions, hactions⟩ :=
    hrehearses (by simp [twoPagesScene, RunScene.start]) 40
  obtain ⟨-, before, hbefore, hfull, hcalm⟩ :=
    ((hexceeds actions (twoPagesRun endless 40) hactions.ends
      (by rw [hreturned]; rfl)
      (by rw [hreturned]; simp) 2).2 (by decide) rfl hactions.undivided).1
      hreturned
  obtain ⟨k, hk, hsame⟩ := (hactions.passes _).1 ⟨before, hbefore, rfl⟩
  have hreach : (start (pagesAtMost 2) { count := 1 } ⟨0, []⟩).Reaches
      (twoPagesRun endless 40) :=
    (show twoPagesRun endless 40 = _ from hactions.ends) ▸
      reaches_after _ actions
  have hwithin : ((RunScene.play twoPages.remote).run 40 []
      twoPagesScene.unlimited).state.run.EndsBy 2 :=
    ⟨_, List.prefix_rfl, Nat.le_refl 2, _, rfl, rfl⟩
  refine ⟨⟨hreturned, hfetches _ hreach, k, hk, ?_⟩, ?_, rfl, ?_⟩
  · rw [show twoPagesRun endless k = _ from hsame.symm]
    exact ⟨hfull, hcalm⟩
  · refine (hends _ _ (endless.ends fun x => ?_) rfl).2
    unfold Listing.lookup endless
    simp only [List.lookup_cons, List.lookup_nil]
    split <;> rfl
  · unfold twoPagesRun
    rw [← RunScene.run_unlimited,
      (hscenes _ _ _ twoPages.remote twoPagesScene hopens).1 40 hwithin]

/-- More lookups at a time than there can be permits, and no page. -/
def manyPermits : Enumerator where
  concurrency := Enumerator.maxPermits + 1
  pageLimit := some 0
  concurrency_pos := Nat.succ_pos _

/-- A listing whose first page crashes. -/
def crashingPage : Listing :=
  { pages := [(none, { content := ⟨[], none⟩, crashes := true })]
    lookups := [] }

/-- The one worker of a full run fails, and hears of it before its driver has
looked at the page limit. -/
def interruption : List Action :=
  [.work 0, .report 0 (.failed ⟨"denied", []⟩), .work 0, .drive, .drive, .drive]

/-- The run before that. -/
def interruptedRun : Run :=
  (start (pagesAtMost 1) { count := 1 } ⟨0, []⟩).after
    [.drive, .answer (.value ⟨["a"], some "next"⟩), .drive]

/-- A full run whose caller is not cancelled does not always return that its
page limit is exceeded.  When it needs more permits than there can be, it
crashes before it has begun; and when its driver is interrupted before it looks
at the page limit, it may return another failure.  Nor does an enumeration with
a page limit return when a fetch of it crashes. -/
theorem not_exceeded_of_full :
    ((manyPermits.pageLimit = some 0 ∧ Signals.Sound { count := 1 } ∧
        Cancellation.isCancelled ⟨0, []⟩ { count := 1 } = false) ∧
      ((start manyPermits { count := 1 } ⟨0, []⟩).Full 0 ∧
        (start manyPermits { count := 1 } ⟨0, []⟩).isCancelled = false) ∧
      ∀ t, (start manyPermits { count := 1 } ⟨0, []⟩).Reaches t →
        t.driver = .crashed) ∧
    ((interruptedRun.Full 1 ∧ interruptedRun.isCancelled = false) ∧
      (interruptedRun.after interruption).driver =
        .returned (.error (.enrichment "a" ⟨"denied", []⟩))) ∧
    (∃ f l, crashingPage.remote.Ends f l) ∧
      ∃ t, (RunScene.play crashingPage.remote).run 4 [] twoPagesScene =
          .complete t ∧
        t.run.driver = .crashed := by
  have hd : (start manyPermits { count := 1 } ⟨0, []⟩).driver = .crashed := by
    rw [start_eq]
    simp [manyPermits]
  have hfull : (start manyPermits { count := 1 } ⟨0, []⟩).Full 0 := by
    rw [start_eq]
    exact ⟨rfl, by simp, rfl, rfl⟩
  have hinterrupted : interruptedRun.Full 1 :=
    ⟨rfl, fun p hp => by cases hp; rfl, rfl, rfl⟩
  have hover : (RunScene.play crashingPage.remote).isOver
      ((RunScene.play crashingPage.remote).run 4 [] twoPagesScene).state =
      true := rfl
  refine ⟨⟨⟨rfl, by decide, rfl⟩, ⟨hfull, by rw [start_eq]; rfl⟩,
    fun t ht => ?_⟩,
    ⟨⟨hinterrupted, rfl⟩, rfl⟩, ⟨_, _, crashingPage.ends fun _ => rfl⟩, _,
    Play.run_eq_complete hover, rfl⟩
  rw [ht.isOver (by rw [hd]; rfl), hd]

end Run

end CloudAccess
