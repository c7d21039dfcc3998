import CloudAccess.Proofs.Provider.Serving

/-!
# What a step of an enumeration does

The steps of a scene in which the permission sets are enumerated, with the calls
that they let go on.

* `Move` lists what a step does, and `Served.move` proves the list complete.
* `Served.step` says that each step keeps what holds of a scene, and
  `served_reaches` that it holds wherever steps lead.
-/

namespace CloudAccess

namespace Serving

variable {v : Serving} {s t : DirectoryScene} {i : Nat} {x : String}

/-- What a step of a scene does: the driver moves, a fetch goes on or ends, a
worker moves, a lookup goes on, ends or is gone, or the time moves on. -/
inductive Move (v : Serving) (s : DirectoryScene) : DirectoryScene → Prop
  | ask {cursor : Option String} (hready : s.run.driverReady = true)
      (hnone : s.fetch = none)
      (hd : (s.run.act .drive).driver = .fetching cursor) :
      Move v s { s with
        run := s.run.act .drive
        fetch := some (v.directory.listPermissionSets
          (s.run.act .drive).pages cursor) }
  | drive {world : DirectoryWorld} (hready : s.run.driverReady = true)
      (hd : ∀ cursor, (s.run.act .drive).driver ≠ .fetching cursor)
      (hworld : world.scene =
        s.fetch.elim s.world.scene (·.stage.abandon s.world.scene)) :
      Move v s { s with run := s.run.act .drive, fetch := none, world := world }
  | fetch {call call' : Call Page} {cursor : Option String}
      {world : DirectoryWorld} (hfetch : s.fetch = some call)
      (hd : s.run.driver = .fetching cursor)
      (hready : call.stage.ready s.world.scene s.moment = true)
      (hmakes : Call.Makes v.credentials
        (v.directory.listPermissionSets s.run.pages cursor) call')
      (hgoes : Call.Stage.Goes v.credentials s.world.scene s.moment call.stage
        world.scene call'.stage) :
      Move v s { s with fetch := some call', world := world }
  | answer {call : Call Page} {cursor : Option String} {o : Outcome Page}
      (hfetch : s.fetch = some call) (hd : s.run.driver = .fetching cursor)
      (hc : s.run.isCancelled = false)
      (hover : call.stage.Unsupplied s.world.scene)
      (ho : Ends v.credentials
        (v.directory.permissionSets.answer s.run.pages cursor) o) :
      Move v s { s with run := s.run.act (.answer o), fetch := none }
  | work {i : Nat} (ha : s.run.Enabled (.work i)) :
      Move v s { s with run := s.run.act (.work i) }
  | lookup {i : Nat} {x : String} {task : SetLookup} {world : DirectoryWorld}
      (hw : s.run.workers[i]? = some ⟨x, .looking⟩)
      (hready : (v.lookupOf s i x).stage.ready s.world.scene s.moment = true)
      (hon : SetLookup.OnTask v.directory v.credentials x (v.tags x) task)
      (hgoes : SetLookup.Goes v.directory v.credentials s.world.scene s.moment
        (v.lookupOf s i x) world.scene task) :
      Move v s { s with
        lookups := (i, task) :: s.lookups.filter (·.1 ≠ i), world := world }
  | report {i : Nat} {x : String} {o : Outcome EnrichedItem}
      (hw : s.run.workers[i]? = some ⟨x, .looking⟩)
      (hover : (v.lookupOf s i x).stage.Unsupplied s.world.scene)
      (ho : SetLookup.EndsIn v.directory v.credentials x (v.tags x)
        s.run.isCancelled o) :
      Move v s { s with
        run := s.run.act (.report i o), lookups := s.lookups.filter (·.1 ≠ i) }
  | unwind {i : Nat} {world : DirectoryWorld} (ha : s.run.Enabled (.unwind i))
      (hworld : world.scene =
        (s.lookup? i).elim s.world.scene (·.stage.abandon s.world.scene)) :
      Move v s { s with
        run := s.run.act (.unwind i)
        lookups := s.lookups.filter (·.1 ≠ i)
        world := world }
  | time {unit : Nat}
      (hwaits : ∀ task ∈ (RunScene.play v.remote).tasks s,
        (RunScene.play v.remote).ready s task = false)
      (hdue : (RunScene.play v.remote).due s = some unit) :
      Move v s { s with moment := s.moment.moveTo unit }

/-! ## The list is complete -/

/-- A driver that moves asks for a page only when none is being fetched. -/
theorem fetch_eq_none (h : s.Attended) (hready : s.run.driverReady = true)
    {cursor : Option String}
    (hd : (s.run.act .drive).driver = .fetching cursor) : s.fetch = none := by
  cases hfetch : s.fetch with
  | none => rfl
  | some call =>
    -- a driver that waits for a page moves only to end paging
    obtain ⟨before, hwaits⟩ := h.fetch_iff.1 (by rw [hfetch]; rfl)
    have hc : s.run.isCancelled = true := by
      simpa [Run.driverReady, hwaits] using hready
    simp [Run.act, Run.drive, hwaits, hc, Run.leave_eq] at hd

/-- The driver moves. -/
theorem Served.move_drive (h : v.Served s) (hready : s.run.driverReady = true) :
    v.Move s (s.drive v.remote) := by
  unfold RunScene.drive
  dsimp only
  split
  · rename_i cursor hd
    exact .ask hready (fetch_eq_none h.attended hready hd) hd
  · rename_i hd
    unfold RunScene.dropFetch
    cases hfetch : s.fetch with
    | none =>
      simp only [RunScene.act, hfetch]
      exact .drive hready hd (by rw [hfetch]; rfl)
    | some call =>
      have habandon (w : DirectoryWorld) (situation : Situation) :
          (v.remote.fetching.abandon w situation call).scene =
            call.stage.abandon w.scene :=
        Call.scene_abandon w situation call
      simp only [RunScene.act, hfetch]
      exact .drive hready hd (by rw [hfetch, habandon]; rfl)

/-- The fetch under way takes a turn. -/
theorem Served.move_fetchTurn (h : v.Served s) {call : Call Page}
    (hfetch : s.fetch = some call) (hdriver : s.run.driverReady = false)
    (hready : call.stage.ready s.world.scene s.moment = true) :
    v.Move s (s.fetchTurn v.remote call) := by
  obtain ⟨cursor, hd⟩ := h.attended.fetch_iff.1 (by rw [hfetch]; rfl)
  have hc : s.run.isCancelled = false := by
    simpa [Run.driverReady, hd] using hdriver
  have hturn : Call.Effect v.credentials s.world s.situation.moment
      (v.directory.listPermissionSets s.run.pages cursor) call
      (v.remote.fetching.turn s.world s.situation call) :=
    Call.effect_turn (h.fetch call hfetch cursor hd) s.world s.situation
  unfold RunScene.fetchTurn
  generalize v.remote.fetching.turn s.world s.situation call = turned at hturn
  cases hturn with
  | goOn hmakes hgoes => exact .fetch hfetch hd hready hmakes hgoes
  | done hover ho => exact .answer hfetch hd hc hover ho

/-- The lookup of a worker that looks something up takes a turn. -/
theorem Served.move_lookupTurn (h : v.Served s)
    (hw : s.run.workers[i]? = some ⟨x, .looking⟩)
    (hready : (v.lookupOf s i x).stage.ready s.world.scene s.moment = true) :
    v.Move s (s.lookupTurn v.remote i (v.lookupOf s i x)) := by
  obtain ⟨heard, htold⟩ := h.told
  have hturn : SetLookup.Effect v.directory v.credentials s.world s.situation
      x (v.tags x) (v.lookupOf s i x)
      (v.remote.looking.turn s.world s.situation (v.lookupOf s i x)) :=
    SetLookup.effect_turn (h.onTask hw)
      (v.tagged x (htold.listed (List.mem_of_getElem? hw))) s.world s.situation
  unfold RunScene.lookupTurn
  generalize v.remote.looking.turn s.world s.situation (v.lookupOf s i x) =
    turned at hturn
  cases hturn with
  | goOn hon hgoes => exact .lookup hw hready hon hgoes
  | done hover ho => exact .report hw hover ho

/-- A lookup that was stopped is gone. -/
theorem move_unwind (v : Serving) (ha : s.run.Enabled (.unwind i)) :
    v.Move s (s.unwind v.remote i) := by
  unfold RunScene.unwind
  split
  · rename_i hnone
    have hmove : v.Move s { s with
        run := s.run.act (.unwind i)
        lookups := s.lookups.filter (·.1 ≠ i)
        world := s.world } :=
      .unwind ha (by rw [hnone]; rfl)
    rwa [RunScene.filter_lookups_of_none hnone] at hmove
  · rename_i task hsome
    have habandon : (v.remote.looking.abandon s.world s.situation task).scene =
        task.stage.abandon s.world.scene := SetLookup.scene_abandon _ _ _ _ _
    exact .unwind ha (by rw [hsome]; exact habandon)

/-- A step of a task is one of the listed moves. -/
theorem Served.move_step (h : v.Served s) {task : RunTask}
    (hready : (RunScene.play v.remote).ready s task = true) :
    v.Move s (s.step v.remote task) := by
  cases task with
  | cancel => simp [RunScene.play, h.uncalled.1] at hready
  | giveUp => simp [RunScene.play, h.uncalled.2] at hready
  | worker i => exact .work hready
  | driver =>
    have hready : (s.run.driverReady || s.fetchReady v.remote) = true := hready
    change v.Move s (s.driverStep v.remote)
    unfold RunScene.driverStep
    split
    · rename_i hdrives
      exact h.move_drive hdrives
    · rename_i hwaits
      rw [Bool.not_eq_true] at hwaits
      rw [hwaits, Bool.false_or, RunScene.fetchReady, Option.any_eq_true]
        at hready
      obtain ⟨call, hfetch, hgoes⟩ := hready
      rw [hfetch]
      exact h.move_fetchTurn hfetch hwaits
        ((Call.ready_eq _ _ _).symm.trans hgoes)
  | lookup i =>
    have hready : s.lookupReady v.remote i = true := hready
    change v.Move s (s.lookupStep v.remote i)
    unfold RunScene.lookupReady at hready
    unfold RunScene.lookupStep
    split at hready
    · rename_i x hw
      refine h.move_lookupTurn hw ?_
      unfold lookupOf
      cases htask : s.lookup? i with
      | none => rfl
      | some task =>
        rw [htask, Option.all_some] at hready
        exact (SetLookup.ready_eq _ _ _ _ _).symm.trans hready
    · rename_i x hw
      exact v.move_unwind ⟨x, .inl hw⟩
    · rename_i x hw
      exact v.move_unwind ⟨x, .inr hw⟩
    · cases hready

/-- Every step is one of the listed moves. -/
theorem Served.move (h : v.Served s)
    (hstep : (RunScene.play v.remote).Step s t) : v.Move s t := by
  cases hstep with
  | task _ hready => exact h.move_step hready
  | time hwaits hdue => exact .time hwaits hdue

/-! ## What the moves keep -/

/-- After what is no move of the driver the fetch under way is for the same
page. -/
theorem Served.fetch_act (h : v.Served s) {a : Run.Action}
    (hdrivers : a.isDrivers = false) :
    ∀ call ∈ s.fetch, ∀ cursor, (s.run.act a).driver = .fetching cursor →
      Call.Makes v.credentials
        (v.directory.listPermissionSets (s.run.act a).pages cursor) call := by
  intro call hcall cursor hd
  obtain ⟨hsame, _, _, hpages, _⟩ := (s.run.effect_act a).paging hdrivers
  rw [hpages]
  exact h.fetch call hcall cursor (hsame ▸ hd)

/-- What is no move of the driver leaves the fetch under way as it is. -/
theorem Served.act (h : v.Served s) {a : Run.Action} (hmove : a.isMove = true)
    (hdrivers : a.isDrivers = false) (ha : s.run.Enabled a)
    {lookups : List (Nat × SetLookup)} (hsub : ∀ p ∈ lookups, p ∈ s.lookups)
    (world : DirectoryWorld) :
    v.Course { s with
      run := s.run.act a, lookups := lookups, world := world } := by
  obtain ⟨heard, htold⟩ := h.told
  refine ⟨⟨heard, htold.move hmove ha⟩,
    headsFor_act h.heads a fun _ _ heq => ?_,
    h.fetch_act hdrivers, fun p hp => h.lookups_act a p (hsub p hp), h.uncalled⟩
  subst heq
  cases hdrivers

/-- A move keeps the course of the scene. -/
theorem Move.course (hm : v.Move s t) (h : v.Served s) : v.Course t := by
  obtain ⟨heard, htold⟩ := h.told
  have hfilter {i : Nat} (p : Nat × SetLookup)
      (hp : p ∈ s.lookups.filter (·.1 ≠ i)) :
      p ∈ s.lookups := (List.mem_filter.1 hp).1
  have hdriven (hready : s.run.driverReady = true) :
      v.Told heard (s.run.act .drive) :=
    htold.move rfl hready
  cases hm with
  | @ask cursor hready _ hd =>
    refine ⟨⟨heard, hdriven hready⟩, headsFor_act h.heads .drive fun _ _ ha =>
      (by cases ha),
      fun call hcall cursor' hd' => ?_, h.lookups_act .drive, h.uncalled⟩
    obtain rfl := Option.mem_some_iff.1 hcall
    have hsame : (s.run.act .drive).driver = .fetching cursor' := hd'
    rw [hd] at hsame
    injection hsame with hsame
    exact hsame ▸ Call.makes_begun rfl
  | drive hready =>
    exact ⟨⟨heard, hdriven hready⟩,
      headsFor_act h.heads .drive fun _ _ ha => (by cases ha),
      fun _ hcall => (by cases hcall), h.lookups_act .drive, h.uncalled⟩
  | fetch _ hd _ hmakes =>
    refine ⟨⟨heard, htold⟩, h.heads, fun call hcall cursor hd' => ?_,
      h.lookups, h.uncalled⟩
    obtain rfl := Option.mem_some_iff.1 hcall
    rw [show s.run.driver = .fetching cursor from hd'] at hd
    injection hd with hd
    exact hd ▸ hmakes
  | @answer call cursor o hfetch hd hc hover ho =>
    refine ⟨⟨_, htold.answer ⟨⟨cursor, hd⟩, hc⟩ (h.answered hd) ho⟩, ?_,
      fun _ hcall => (by cases hcall), h.lookups_act _, h.uncalled⟩
    -- the page that was received is the one planned, so the listing goes on
    -- after it
    refine headsFor_act h.heads (.answer o) fun cursor' p ha hd' => ?_
    injection ha with ha
    subst ha
    rw [hd] at hd'
    injection hd' with hd'
    exact hd' ▸ ho.value
  | work ha => exact h.act rfl rfl ha (fun _ hp => hp) s.world
  | @lookup i x task world hw hready hon =>
    refine ⟨⟨heard, htold⟩, h.heads, h.fetch, fun p hp w hw' => ?_, h.uncalled⟩
    rcases List.mem_cons.1 hp with rfl | hp
    · obtain rfl := Option.some.inj (hw.symm.trans hw')
      exact hon
    · exact h.lookups p (hfilter p hp) w hw'
  | @report i x o hw _ ho =>
    exact ⟨⟨_, htold.report hw ho⟩, headsFor_act h.heads _ fun _ _ ha =>
      (by cases ha),
      h.fetch_act rfl, fun p hp => h.lookups_act _ p (hfilter p hp), h.uncalled⟩
  | unwind ha => exact h.act rfl rfl ha hfilter _
  | time => exact ⟨⟨heard, htold⟩, h.heads, h.fetch, h.lookups, h.uncalled⟩

/-- Each step keeps what holds of a scene. -/
theorem Served.step (h : v.Served s)
    (hstep : (RunScene.play v.remote).Step s t) : v.Served t :=
  ⟨(h.move hstep).course h, RunScene.reaches_attended
    (.single hstep) h.attended⟩

/-- Wherever the steps of the enumeration lead, its scene is served. -/
theorem served_reaches {world : DirectoryWorld}
    (h : (RunScene.play v.remote).Reaches (v.opening world) s) : v.Served s :=
  h.invariant (v.served_opening world) fun _ _ hu hstep => hu.step hstep

end Serving

end CloudAccess
