import CloudAccess.Proofs.Enumeration.Prompt

/-!
# A run that is given up

A caller may give a run up at any point, whether its driver is busy with a page,
waits for one or for a permit, or waits for its workers.

* `drop_eq` says what giving a run up does to it, and `Effect.signals_of_gone`
  that from then on a handle is cancelled only from outside.
* `Gone` says that nothing of a run is alive in a scene, and `Gone.step` that
  this is for good.
* `GivenUp` is what holds of a scene after its run was given up, until nothing
  is alive: no time passes, and somebody can go on.
* `given_up_stops` puts these together, for runs and for scenes.
-/

namespace CloudAccess

namespace Run

variable {r t : Run} {a : Action}

/-! ## The run -/

/-- A run that is given up has lost its driver. -/
theorem drop_eq (hd : r.driver.isOver = false) :
    r.act .drop = { r.ungrant with driver := .dropped } := by
  show r.drop = _
  unfold drop
  rw [hd]
  rfl

/-- Giving a run up cancels no handle, begins no fetch and takes no page and no
worker. -/
theorem halts_drop (hd : r.driver.isOver = false) :
    (r.act .drop).signals = r.signals ∧ r.Halts (r.act .drop) := by
  rw [drop_eq hd, ungrant_eq]
  exact ⟨rfl, rfl, rfl, rfl⟩

/-- Without its driver a run cancels nothing: a handle is cancelled only from
outside. -/
theorem Effect.signals_of_gone (he : r.Effect a t) (hg : r.driver.isGone = true)
    (ha : ∀ g, a ≠ .cancel g) : t.signals = r.signals := by
  cases he with
  | exceed hd | fetchFailed hd => simp [hd, Driver.isGone] at hg
  | lookupFailed _ hthere | lookupCrashed _ hthere => simp [hg] at hthere
  | cancel => exact absurd rfl (ha _)
  | _ =>
    simp [leave_eq, release_eq, ungrant_eq, Run.finish, setStage, spawn,
      Run.conclude, emit]

/-- A run that was given up stays so. -/
theorem Reaches.dropped (h : r.Reaches t) (hd : r.driver = .dropped) :
    t.driver = .dropped :=
  (h.isOver (by rw [hd]; rfl)).trans hd

/-- What becomes of a run that halts is what has become of it before. -/
theorem Halts.trans {u : Run} (h : r.Halts t) (h' : t.Halts u) : r.Halts u :=
  ⟨h'.asked.trans h.asked, h'.received.trans h.received,
    h'.references.trans h.references⟩

end Run

namespace RunScene

variable {ω φ κ : Type} {r : Remote ω φ κ} {f : Gauge φ} {l : Gauge κ}
  {s t u v : RunScene ω φ κ} {i : Nat}

/-! ## Nothing is alive -/

/-- Nothing of a run is alive in a scene: no fetch, no worker and no lookup. -/
structure Gone (s : RunScene ω φ κ) : Prop where
  fetch : s.fetch = none
  workers : ∀ w ∈ s.run.workers, w.stage = .finished
  lookups : s.lookups = []

/-- Nothing is alive in a scene that is over. -/
theorem Attended.gone (h : s.Attended) (hover : s.isOver = true) : s.Gone := by
  rw [isOver, Bool.and_eq_true] at hover
  have hfinished : ∀ w ∈ s.run.workers, w.stage = .finished := by
    simpa [Run.isQuiet] using hover.2
  exact ⟨h.fetch_eq_none hover.1, hfinished, h.lookups_eq_nil hfinished⟩

/-- A worker that has finished is not ready, nor is its lookup. -/
theorem Gone.not_ready (h : s.Gone) (i : Nat) :
    s.run.workerReady i = false ∧ s.lookupReady r i = false := by
  unfold Run.workerReady lookupReady
  cases hw : s.run.workers[i]? with
  | none => exact ⟨rfl, rfl⟩
  | some w =>
    obtain ⟨x, stage⟩ := w
    have hfinished : stage = .finished := h.workers _ (List.mem_of_getElem? hw)
    subst hfinished
    exact ⟨rfl, rfl⟩

/-- What a step finds alive of a run is what was alive before, so that where
nothing was, the workers, the fetches and the world stay as they are. -/
theorem Gone.step (h : s.Gone) (hd : s.run.driver.isOver = true)
    (hstep : (play r).Step s t) :
    t.Gone ∧ t.run.driver = s.run.driver ∧ t.run.workers = s.run.workers ∧
      t.run.asked = s.run.asked ∧ t.world = s.world := by
  cases hstep with
  | time => exact ⟨⟨h.fetch, h.workers, h.lookups⟩, rfl, rfl, rfl, rfl⟩
  | @task task _ hready =>
    cases task with
    | cancel => exact ⟨⟨h.fetch, h.workers, h.lookups⟩, rfl, rfl, rfl, rfl⟩
    | giveUp =>
      -- the driver has come to its end, and there is no fetch to abandon
      have hsame : (play r).step s .giveUp = { s with dropAt := none } := by
        show ({ s with run := s.run.drop, dropAt := none } : RunScene ω φ
          κ).dropFetch r = _
        have hrun : s.run.drop = s.run := by rw [Run.drop, if_pos hd]
        rw [hrun, dropFetch, h.fetch]
      rw [hsame]
      exact ⟨⟨h.fetch, h.workers, h.lookups⟩, rfl, rfl, rfl, rfl⟩
    | worker i =>
      exact absurd hready (by simp [play, (h.not_ready (r := r) i).1])
    | lookup i =>
      exact absurd hready (by simp [play, (h.not_ready (r := r) i).2])
    | driver =>
      have hidle : s.run.driverReady = false := by
        cases hat : s.run.driver <;>
          simp_all [Run.driverReady, Run.Driver.isOver]
      exact absurd hready (by simp [play, hidle, fetchReady, h.fetch])

/-- So it is wherever steps lead. -/
theorem Gone.reaches (h : s.Gone) (hd : s.run.driver.isOver = true)
    (hreach : (play r).Reaches s t) :
    t.Gone ∧ t.run.workers = s.run.workers ∧ t.run.asked = s.run.asked ∧
      t.world = s.world := by
  have hkept : t.Gone ∧ t.run.driver = s.run.driver ∧ t.run.workers =
      s.run.workers ∧ t.run.asked = s.run.asked ∧ t.world = s.world := by
    refine hreach.invariant (I := fun t => t.Gone ∧
      t.run.driver = s.run.driver ∧
      t.run.workers = s.run.workers ∧ t.run.asked = s.run.asked ∧
      t.world = s.world) ⟨h, rfl, rfl, rfl, rfl⟩ ?_
    rintro u v ⟨hgone, hdriver, hworkers, hasked, hworld⟩ hstep
    obtain ⟨hgone', hdriver', hworkers', hasked', hworld'⟩ :=
      hgone.step (hdriver ▸ hd) hstep
    exact ⟨hgone', hdriver'.trans hdriver, hworkers'.trans hworkers,
      hasked'.trans hasked, hworld'.trans hworld⟩
  exact ⟨hkept.1, hkept.2.2⟩

/-! ## Until nothing is alive -/

/-- What holds of a scene that comes, at the same moment, after the run of a
scene `t` was given up. -/
structure GivenUp (t s : RunScene ω φ κ) : Prop where
  attended : s.Attended
  driver : s.run.driver = .dropped
  moment : s.moment = t.moment

theorem GivenUp.fails (h : GivenUp t s) : s.run.Fails :=
  .inl (.inr (by rw [h.driver]; rfl))

/-- It goes on until the scene is over. -/
theorem GivenUp.step (h : GivenUp t s) (hover : s.isOver = false)
    (hstep : (play r).Step s u) :
    GivenUp t u where
  attended := reaches_attended (.single hstep) h.attended
  driver := (reaches_run (.single hstep)).dropped h.driver
  moment := (step_of_fails h.fails hover hstep).1.trans h.moment

/-- As long as something is alive, no time has passed and somebody can go on. -/
theorem GivenUp.reaches (h : GivenUp t s) (hreach : (play r).Reaches s u) :
    u.isOver = true ∨ GivenUp t u := by
  refine hreach.invariant (I := fun u => u.isOver = true ∨
    GivenUp t u) (.inr h) ?_
  intro v w hv hstep
  cases hover : v.isOver with
  | true => exact .inl (isOver_step hover hstep)
  | false => exact .inr ((hv.resolve_left (by simp [hover])).step hover hstep)

/-- A driver that is gone receives no page. -/
theorem reckons_of_gone (r : Remote ω φ κ) :
    Reckons r fun _ s => s.run.driver.isGone = true := by
  intro n s t _ hg hm
  dsimp only at hg ⊢
  rcases hm.run_eq with hsame | ⟨a, hrun⟩
  · exact ⟨n, Nat.le_refl n, by rw [hsame]; exact hg, fun hne => absurd (by
      rw [hsame]) hne⟩
  · have he := s.run.effect_act a
    rw [← hrun] at he
    exact ⟨n, Nat.le_refl n, he.isGone hg, fun hne =>
      absurd (he.halts (.inr hg)).received hne⟩

/-- A scene whose run was given up cannot go on for ever. -/
theorem givenUp_sinks (hr : r.Rests f l) (t : RunScene ω φ κ) :
    (play r).Sinks
      (fun s => Standing r f l (fun _ s => s.run.driver.isGone = true) s ∧
        GivenUp t s)
      (left r f l fun _ s => s.run.driver.isGone = true) where
  keeps _ _ h hover hstep :=
    ⟨h.1.step hr (reckons_of_gone r) hstep, h.2.step hover hstep⟩
  falls s u h hover hstep := by
    obtain ⟨-, task, hready, rfl⟩ := step_of_fails h.2.fails hover hstep
    exact h.1.left_step_lt hr (reckons_of_gone r) hready
  goesOn _ h hover :=
    Play.exists_step fun hwaits => absurd hwaits (not_waits h.2.fails hover)

/-- The run of a scene is given up. -/
theorem giveUp_eq (r : Remote ω φ κ) (t : RunScene ω φ κ) :
    ∃ world, t.step r .giveUp =
      { t with
        run := t.run.act .drop
        fetch := none
        world := world
        dropAt := none } := by
  obtain ⟨world, heq⟩ := dropFetch_eq r ({ t with dropAt := none }.act .drop)
  exact ⟨world, heq⟩

/-- Giving up a run takes no time. -/
theorem givenUp_giveUp (h : t.Attended) (hd : t.run.driver.isOver = false) :
    GivenUp t (t.step r .giveUp) := by
  obtain ⟨world, heq⟩ := giveUp_eq r t
  have hdropped : (t.run.act .drop).driver = .dropped := by rw [Run.drop_eq hd]
  rw [heq]
  refine ⟨⟨?_, ?_⟩, hdropped, rfl⟩
  · simp [hdropped]
  · exact h.watches.act (t.run.effect_act .drop) (by simp)

end RunScene

/-! ## Giving a run up -/

/-- Whatever has happened to a run, and in whatever order, its caller may give
it up as long as its driver has not come to its end.

* That cancels no handle.  From then on nothing but a cancellation from outside
  cancels one, nothing is fetched and no worker is added, and as long as a
  worker has not finished some move is possible, of which there are only so
  many.
* In a scene the fetch is gone at once.  As long as a worker or a lookup is
  alive, no time passes and some task is ready, so that the tasks have not all
  come to wait.  Once nothing is alive it stays so: nothing is begun, and no
  task does anything to the world any more.
* When each task comes to wait at some point, that is so in the same moment, in
  every order of the steps and in every rehearsal that is granted enough of
  them. -/
theorem given_up_stops (e : Enumerator) (signals : Signals)
    (caller : Cancellation) :
    (∀ r, (Run.start e signals caller).Reaches r → r.driver.isOver = false →
      ((r.act .drop).driver = .dropped ∧ (r.act .drop).signals = r.signals) ∧
      ∀ t, (r.act .drop).Reaches t →
        (t.driver = .dropped ∧ r.Halts t) ∧
        (∀ a, (∀ g, a ≠ .cancel g) → (t.act a).signals = t.signals) ∧
        (t.isQuiet = false → ∃ a : Run.Action, a.isMove = true ∧ t.Enabled a) ∧
        ∀ k u, t.Course k u → k ≤ t.effort []) ∧
    ∀ (ω φ κ : Type) (remote : Remote ω φ κ) (s t d : RunScene ω φ κ),
      s.Opens e signals caller → (RunScene.play remote).Reaches s t →
      t.run.driver.isOver = false → d = t.step remote .giveUp →
        (d.run = t.run.act .drop ∧ d.fetch = none ∧ d.moment = t.moment) ∧
        (∀ u, (RunScene.play remote).Reaches d u →
          (u.Gone ∨ u.moment = t.moment ∧ ¬RunScene.Waits remote u) ∧
          (u.Gone → ∀ v, (RunScene.play remote).Reaches u v →
            v.Gone ∧ v.run.workers = u.run.workers ∧ v.run.asked = u.run.asked ∧
              v.world = u.world)) ∧
        ∀ (f : Gauge φ) (l : Gauge κ), remote.Rests f l →
          (∀ order, (RunScene.play remote).Unfolds order → order 0 = d →
            ∃ n, (order n).Gone ∧ (order n).moment = t.moment) ∧
          ∃ n u, u.Gone ∧ u.moment = t.moment ∧
            ∀ steps, n ≤ steps →
              (RunScene.play remote).run steps [] d = .complete u := by
  refine ⟨fun r _ hd => ?_, fun ω φ κ remote s t d hs ht hd hgivenUp => ?_⟩
  · obtain ⟨hsignals, hhalts⟩ := Run.halts_drop hd
    have hdropped : (r.act .drop).driver = .dropped := by rw [Run.drop_eq hd]
    refine ⟨⟨hdropped, hsignals⟩, fun t ht => ?_⟩
    have hat := ht.dropped hdropped
    have hgone : t.driver.isGone = true := by rw [hat]; rfl
    have hclosed : (r.act .drop).IsClosed := .inr (by rw [hdropped]; rfl)
    refine ⟨⟨hat, hhalts.trans (ht.halts hclosed)⟩,
      fun a ha => (t.effect_act a).signals_of_gone hgone ha, fun hq => ?_,
      fun k u hu => hu.length_le (.inr hgone)⟩
    exact Run.IsClosed.moves (.inr hgone) fun _ => hq
  · have hattended := RunScene.reaches_attended ht hs.attended
    have hstart := RunScene.givenUp_giveUp (r := remote) hattended hd
    obtain ⟨world, heq⟩ := RunScene.giveUp_eq remote t
    rw [← hgivenUp] at hstart heq
    refine ⟨by rw [heq]; exact ⟨rfl, rfl, rfl⟩, fun u hu => ⟨?_,
      fun hgone v hv => ?_⟩, fun f l hr => ?_⟩
    · rcases hstart.reaches hu with hover | hafter
      · exact .inl ((RunScene.reaches_attended hu hstart.attended).gone hover)
      · cases hover : u.isOver with
        | true => exact .inl (hafter.attended.gone hover)
        | false =>
          exact .inr ⟨hafter.moment, RunScene.not_waits hafter.fails hover⟩
    · have hat := (RunScene.reaches_run hu).dropped hstart.driver
      exact hgone.reaches (by rw [hat]; rfl) hv
    · have howned : RunScene.Owned f l t :=
        ht.invariant hs.owned fun _ _ hu hstep =>
          hu.step hr (RunScene.move hstep)
      have hpermitted : d.run.Permitted := by
        have hrun : (Run.start e signals caller).Reaches t.run :=
          hs.run_eq ▸ RunScene.reaches_run ht
        rw [heq]
        exact (t.run.effect_act .drop).permitted
          (hrun.permitted (Run.permitted_start e signals caller))
      have hstanding : RunScene.Standing remote f l
          (fun _ s => s.run.driver.isGone = true) d := by
        refine ⟨hstart.attended, hpermitted, ?_, ?_, 0,
          by rw [hstart.driver]; rfl⟩
        · rw [heq]
          exact fun _ htask => by cases htask
        · rw [heq]
          exact howned.lookups
      have hsinks := RunScene.givenUp_sinks hr t
      refine ⟨fun order horder hfirst => ?_, ?_⟩
      · obtain ⟨n, hover, ⟨-, hafter⟩, -⟩ :=
          hsinks.exists_isOver horder
            (by rw [hfirst]; exact ⟨hstanding, hstart⟩)
        exact ⟨n, hafter.attended.gone hover, hafter.moment⟩
      · obtain ⟨n, u, hover, ⟨-, hafter⟩, -, hrun⟩ :=
          hsinks.run_complete ⟨hstanding, hstart⟩ []
        exact ⟨n, u, hafter.attended.gone hover, hafter.moment, hrun⟩

/-- The enumeration of two items whose driver waits for its workers, with both
lookups under way. -/
def drainingScene : RunScene Diary Listing.Fetch Listing.Lookup :=
  ((RunScene.play RunScene.stalling.remote).run 12 []
    RunScene.stallingScene).state

theorem given_up_stops_draining :
    drainingScene.run.workers = [⟨"a", .looking⟩, ⟨"b", .looking⟩] ∧
      drainingScene.lookups.length = 2 ∧
      ∃ n u, u.Gone ∧ u.moment = drainingScene.moment ∧
        ∀ steps, n ≤ steps →
          (RunScene.play RunScene.stalling.remote).run steps []
            (drainingScene.step RunScene.stalling.remote .giveUp) =
            .complete u := by
  obtain ⟨signals, caller, hopens⟩ :
      ∃ signals caller, RunScene.stallingScene.Opens _ signals caller :=
    RunScene.opens_start _ _ _ _ _
  obtain ⟨-, hscenes⟩ := given_up_stops _ signals caller
  obtain ⟨-, -, hends⟩ :=
    hscenes _ _ _ RunScene.stalling.remote RunScene.stallingScene
    drainingScene _ hopens (Play.reaches_run _ _ _ _) rfl rfl
  exact ⟨by rfl, rfl, (hends _ _ RunScene.stalling.rests).2⟩

end CloudAccess
