import CloudAccess.Proofs.Enumeration.Closing
import CloudAccess.Proofs.Enumeration.Planned

/-!
# A run that fails returns at once

In the unit in which a run first fails or is cancelled it comes to its end,
however long its fetch and its lookups would still take.

* `not_waits` says that no time passes in a scene whose run fails until the
  scene is over: the driver, a worker or the end of a lookup can go on.
* `Aftermath` is what holds of a scene after its run has failed, up to its end.
* `prompt_return` says that every order of steps leads to an end at the same
  moment, whatever the fetch and the lookups are waiting for.
-/

namespace CloudAccess.RunScene

variable {ω φ κ : Type} {r : Remote ω φ κ} {f : Gauge φ} {l : Gauge κ}
  {s t u v : RunScene ω φ κ} {within : Nat → RunScene ω φ κ → Prop}
  {e : Enumerator} {signals : Signals} {caller : Cancellation}

/-! ## No time passes -/

/-- What the run can do by itself is up to a task that is ready. -/
theorem exists_ready {a : Run.Action} (hmove : a.isMove = true)
    (ha : s.run.Enabled a) :
    ∃ task ∈ (play r).tasks s, (play r).ready s task = true := by
  cases a with
  | drive =>
    refine ⟨.driver, by simp [play], ?_⟩
    show (s.run.driverReady || s.fetchReady r) = true
    rw [show s.run.driverReady = true from ha, Bool.true_or]
  | work i =>
    have hready : s.run.workerReady i = true := ha
    refine ⟨.worker i, ?_, hready⟩
    have hlt : i < s.run.workers.length := by
      by_contra hout
      simp [Run.workerReady, List.getElem?_eq_none_iff.2
        (Nat.le_of_not_lt hout)] at hready
    simp [play, hlt]
  | unwind i =>
    obtain ⟨x, hw⟩ := ha
    have hlt : i < s.run.workers.length := by
      rcases hw with hw | hw <;> exact (List.getElem?_eq_some_iff.1 hw).1
    refine ⟨.lookup i, by simp [play, hlt], ?_⟩
    show s.lookupReady r i = true
    rcases hw with hw | hw <;> simp [lookupReady, hw]
  | answer | report | cancel | drop => cases hmove

/-- Until it is over, somebody can go on in a scene whose run fails. -/
theorem not_waits (h : s.run.Fails) (hover : s.isOver = false) :
    ¬Waits r s := by
  intro hwaits
  have hquiet (hd : s.run.driver.isOver = true) : s.run.isQuiet = false := by
    simpa [isOver, hd] using hover
  obtain ⟨a, hmove, ha⟩ := h.moves hquiet
  obtain ⟨task, hmem, hready⟩ := exists_ready (r := r) hmove ha
  rw [hwaits task hmem] at hready
  cases hready

/-- So no time passes in it. -/
theorem step_of_fails (h : s.run.Fails) (hover : s.isOver = false)
    (hstep : (play r).Step s t) :
    t.moment = s.moment ∧
      ∃ task, (play r).ready s task = true ∧ t = s.step r task := by
  cases hstep with
  | @task task _ hready => exact ⟨moment_step r s task, task, hready, rfl⟩
  | time hwaits => exact absurd hwaits (not_waits h hover)

/-- A scene that is over stays so. -/
theorem isOver_step (hover : s.isOver = true) (hstep : (play r).Step s t) :
    t.isOver = true := by
  rw [isOver, Bool.and_eq_true] at hover ⊢
  obtain ⟨hd, hq⟩ := hover
  rcases (move hstep).run_eq with hsame | ⟨a, hrun⟩
  · rw [hsame]
    exact ⟨hd, hq⟩
  · have hfinished : ∀ w ∈ s.run.workers, w.stage = .finished := by
      simpa [Run.isQuiet] using hq
    obtain ⟨hworkers, hdriver, _⟩ := (s.run.effect_act a).still hd hfinished
    rw [hrun, hdriver, Run.isQuiet, hworkers]
    exact ⟨hd, hq⟩

/-! ## After a failure -/

/-- A driver is dropped only by a caller who intended to. -/
theorem Move.dropped (hm : Move r s t) (hd : t.run.driver = .dropped) :
    s.run.driver = .dropped ∨ s.dropAt.isSome = true := by
  have hact {a : Run.Action} (ha : a ≠ .drop) (hrun : t.run = s.run.act a) :
      s.run.driver = .dropped ∨ s.dropAt.isSome = true :=
    .inl (((hrun ▸ s.run.effect_act a : s.run.Effect a t.run).dropped
      hd).resolve_right ha)
  cases hm with
  | ask | drive => exact hact (a := .drive) (by simp) rfl
  | fetch _ _ _ _ hrun | lookup _ _ _ hrun =>
    rcases hrun with rfl | ⟨g, rfl⟩ <;> exact .inl hd
  | @answer _ o => exact hact (a := .answer o) (by simp) rfl
  | @work i => exact hact (a := .work i) (by simp) rfl
  | @report i _ o => exact hact (a := .report i o) (by simp) rfl
  | @unwind i => exact hact (a := .unwind i) (by simp) rfl
  | cancel => exact .inl hd
  | giveUp hat => exact .inr (by rw [hat]; rfl)
  | time => exact .inl hd

/-- What the caller intends is never added to. -/
theorem Move.dropAt (hm : Move r s t) (h : t.dropAt.isSome = true) :
    s.dropAt.isSome = true := by
  cases hm with
  | giveUp => cases h
  | _ => exact h

/-- What holds of a scene that comes, at the same moment, after a scene `t`
whose run has failed. -/
structure Aftermath (t s : RunScene ω φ κ) : Prop where
  fails : s.run.Fails
  moment : s.moment = t.moment
  cancelled : t.run.isCancelled = true → s.run.isCancelled = true
  intends : s.dropAt.isSome = true → t.dropAt.isSome = true
  returned : ∀ result, s.run.driver = .returned result →
    ∃ err, result = .error err
  crashed : s.run.driver = .crashed → t.run.isCancelled = false
  dropped : s.run.driver = .dropped → t.dropAt.isSome = true

/-- The aftermath of a failure begins with it. -/
theorem aftermath_refl (h : t.run.Fails) (hd : t.run.driver.isOver = false) :
    Aftermath t t := by
  refine ⟨h, rfl, id, id, fun result hat => ?_, fun hat => ?_,
    fun hat => ?_⟩ <;>
    · rw [hat] at hd
      cases hd

/-- It goes on until the scene is over. -/
theorem Aftermath.step (h : Aftermath t s) (hover : s.isOver = false)
    (hstep : (play r).Step s u) : Aftermath t u := by
  have hm := move hstep
  have hmoment := (step_of_fails h.fails hover hstep).1
  rcases hm.run_eq with hsame | ⟨a, hrun⟩
  · exact ⟨hsame ▸ h.fails, hmoment.trans h.moment, hsame ▸ h.cancelled,
      fun hu => h.intends (hm.dropAt hu), hsame ▸ h.returned, hsame ▸ h.crashed,
      hsame ▸ h.dropped⟩
  · have he : s.run.Effect a u.run := hrun ▸ s.run.effect_act a
    refine ⟨he.fails h.fails, hmoment.trans h.moment, fun hc =>
      he.isCancelled (h.cancelled hc),
      fun hu => h.intends (hm.dropAt hu), fun result hat => ?_, fun hat => ?_,
      fun hat => ?_⟩
    · cases hd : s.run.driver.isOver with
      | true => exact h.returned result (he.isOver hd ▸ hat)
      | false => exact h.fails.returned he hd hat
    · rcases (he.crashed hat).2 with hbefore | ⟨hcalm, -⟩
      · exact h.crashed hbefore
      · by_contra hc
        rw [h.cancelled (by simpa using hc)] at hcalm
        cases hcalm
    · rcases hm.dropped hat with hbefore | hintends
      · exact h.dropped hbefore
      · exact h.intends hintends

/-- How a run that has failed in a scene `t` ends in `s`, at the same moment:
it returns an error; it crashes, unless it was cancelled; or its caller gives
it up, if the caller intended to. -/
def FailsAt (t s : RunScene ω φ κ) : Prop :=
  s.moment = t.moment ∧
    ((∃ err, s.run.driver = .returned (.error err)) ∨
      (s.run.driver = .crashed ∧ t.run.isCancelled = false) ∨
      (s.run.driver = .dropped ∧ t.dropAt.isSome = true))

theorem Aftermath.failsAt (h : Aftermath t s) (hover : s.isOver = true) :
    FailsAt t s := by
  refine ⟨h.moment, ?_⟩
  rw [isOver, Bool.and_eq_true] at hover
  cases hd : s.run.driver with
  | returned result =>
    obtain ⟨err, rfl⟩ := h.returned result hd
    exact .inl ⟨err, rfl⟩
  | crashed => exact .inr (.inl ⟨rfl, h.crashed hd⟩)
  | dropped => exact .inr (.inr ⟨rfl, h.dropped hd⟩)
  | _ => simp [hd, Run.Driver.isOver] at hover

/-- A scene whose run has failed cannot go on for ever. -/
theorem aftermath_sinks (hr : r.Rests f l) (hw : Reckons r within)
    (t : RunScene ω φ κ) :
    (play r).Sinks (fun s => Standing r f l within s ∧ Aftermath t s)
      (left r f l within) where
  keeps _ _ h hover hstep := ⟨h.1.step hr hw hstep, h.2.step hover hstep⟩
  falls s u h hover hstep := by
    obtain ⟨-, task, hready, rfl⟩ := step_of_fails h.2.fails hover hstep
    exact h.1.left_step_lt hr hw hready
  goesOn _ h hover :=
    Play.exists_step fun hwaits => absurd hwaits (not_waits h.2.fails hover)

/-- Wherever steps lead from a scene whose run fails, as long as the scene is
not over, the moment is the same, no step takes time, and somebody can go on
without the time or the fetch or a lookup.  When each task comes to wait at
some point, and the chain of pages is finite or a page limit is set, every
order of steps leads to the end of the run at that moment, and so does a
rehearsal that is granted enough steps, whatever the fetch and the lookups
would still wait for. -/
theorem prompt_return (r : Remote ω φ κ) (e : Enumerator) (signals : Signals)
    (caller : Cancellation) (s t : RunScene ω φ κ)
    (hs : s.Opens e signals caller) (ht : (play r).Reaches s t)
    (hfails : t.run.Fails) (hd : t.run.driver.isOver = false) :
    (∀ u, (play r).Reaches t u → u.isOver = false →
      u.moment = t.moment ∧ (∀ v, (play r).Step u v → v.moment = t.moment) ∧
        ∃ a : Run.Action, a.isMove = true ∧ u.run.Enabled a) ∧
    ∀ (f : Gauge φ) (l : Gauge κ), r.Rests f l → r.Finite e →
      (∀ order, (play r).Unfolds order → order 0 = t →
        ∃ n, (order n).isOver = true ∧ FailsAt t (order n)) ∧
      ∃ n u, u.isOver = true ∧ FailsAt t u ∧
        ∀ steps, n ≤ steps → (play r).run steps [] t = .complete u := by
  have hstart := aftermath_refl hfails hd
  refine ⟨fun u hu hover => ?_, fun f l hr hfinite => ?_⟩
  · have hafter : u.isOver = true ∨ Aftermath t u := by
      refine hu.invariant (I := fun u => u.isOver = true ∨ Aftermath t u)
        (.inr hstart) ?_
      intro v w hv hstep
      cases hover : v.isOver with
      | true => exact .inl (isOver_step hover hstep)
      | false =>
        exact .inr ((hv.resolve_left (by simp [hover])).step hover hstep)
    have hafter := hafter.resolve_left (by simp [hover])
    have hquiet (hd : u.run.driver.isOver = true) : u.run.isQuiet = false := by
      simpa [isOver, hd] using hover
    exact ⟨hafter.moment, fun v hstep => (hafter.step hover hstep).moment,
      hafter.fails.moves hquiet⟩
  · obtain ⟨within, hw, hbounded⟩ := exists_reckons hfinite hs
    have hstanding : Standing r f l within t :=
      (hs.standing hbounded).reaches hr hw ht
    have hsinks := aftermath_sinks hr hw t
    refine ⟨fun order horder hfirst => ?_, ?_⟩
    · obtain ⟨n, hover, ⟨-, hafter⟩, -⟩ :=
        hsinks.exists_isOver horder (by rw [hfirst]; exact ⟨hstanding, hstart⟩)
      exact ⟨n, hover, hafter.failsAt hover⟩
    · obtain ⟨n, u, hover, ⟨-, hafter⟩, -, hrun⟩ :=
        hsinks.run_complete ⟨hstanding, hstart⟩ []
      exact ⟨n, u, hover, hafter.failsAt hover, hrun⟩

/-- Two items on a page: the lookup of the first one fails in the unit 1, and
that of the second one waits until the run is cancelled. -/
def stalling : Listing :=
  { pages := [(none, { content := ⟨["a", "b"], none⟩ })]
    lookups :=
      [("a", { delay := 1, error := some "denied" }),
        ("b", { awaitsCancel := true })] }

/-- Their enumeration at its start. -/
def stallingScene : RunScene Diary Listing.Fetch Listing.Lookup :=
  .start { concurrency := 2, concurrency_pos := Nat.two_pos } {} false none none

/-- Their enumeration when the lookup of the first item has failed. -/
def failedScene : RunScene Diary Listing.Fetch Listing.Lookup :=
  ((play stalling.remote).run 15 [] stallingScene).state

theorem prompt_return_stalling :
    failedScene.moment = ⟨1, 1⟩ ∧
      failedScene.run.workers =
        [⟨"a", .reported (.failed ⟨"denied", []⟩)⟩, ⟨"b", .looking⟩] ∧
      ∃ n u, u.isOver = true ∧ FailsAt failedScene u ∧
        ∀ steps, n ≤ steps →
          (play stalling.remote).run steps [] failedScene = .complete u := by
  have hlookups : failedScene.run.workers =
      [⟨"a", .reported (.failed ⟨"denied", []⟩)⟩, ⟨"b", .looking⟩] := by rfl
  have hfails : failedScene.run.Fails :=
    .inr ⟨0, "a", .failed ⟨"denied", []⟩, by rw [hlookups]; rfl, by simp⟩
  have hfinite : stalling.remote.Finite
      { concurrency := 2, concurrency_pos := Nat.two_pos } := by
    refine .inr ⟨_, Listing.leads (n := 0) fun p page next hp hvalue hnext =>
      ?_⟩
    obtain rfl : { content := ⟨["a", "b"], none⟩ } = p := Option.some.inj hp
    obtain rfl : ⟨["a", "b"], none⟩ = page := Outcome.value.inj hvalue
    cases hnext
  obtain ⟨signals, caller, hopens⟩ :
    ∃ signals caller, stallingScene.Opens _ signals caller :=
    opens_start _ _ _ _ _
  obtain ⟨-, hends⟩ :=
    prompt_return stalling.remote _ signals caller stallingScene
      failedScene hopens (Play.reaches_run _ _ _ _) hfails rfl
  exact ⟨rfl, hlookups, (hends _ _ stalling.rests hfinite).2⟩

end CloudAccess.RunScene
