import CloudAccess.Proofs.Enumeration.Pending
import CloudAccess.Proofs.Provider.Provisions

/-!
# Enumerations of the permission sets come to their end

Whatever the order of its steps, an enumeration over finite chains of pages
comes to its end.

* `left` is what is left to do: for the run, for the fetch under way, and for
  the lookup of each worker.  A page or a worker to come is worth more than the
  calls that it leads to.
* `Move.left_lt` says that each move does some of it.
* `Provisioned.goesOn` says that there is a step until the scene is over: who
  waits, waits for a call that can go on at some unit.
* `winds` puts these together.
-/

namespace CloudAccess

namespace Serving

variable {v : Serving} {s t : DirectoryScene} {i j : Nat} {x : String}
  {stage : Call.Stage} {task : SetLookup}

/-! ## The bounds of a listing -/

/-- The pages of the listing, one for each answer. -/
def pages (v : Serving) : List Page :=
  v.listing.map fun
    | .value p => p
    | .failed _ | .crashed => Page.empty

/-- The permission sets of the listing. -/
def references (v : Serving) : List String := v.pages.flatMap (·.items)

theorem mem_references (h : Listed v.listing x) : x ∈ v.references := by
  obtain ⟨p, hp, hx⟩ := h
  exact List.mem_flatMap.2 ⟨p, List.mem_map.2 ⟨_, hp, rfl⟩, hx⟩

/-- A bound on the pages of tags of a permission set. -/
def depth (v : Serving) : Nat :=
  (v.references.map fun x => (v.tags x).length).sum

/-- What a lookup has before it at its beginning. -/
theorem left_lookup_le (hx : Listed v.listing x) (p : PlannedCache)
    (m : Moment) :
    (v.remote.lookup x).left v.directory p m ≤ 10 + 11 * v.depth := by
  have hahead : (v.remote.lookup x).ahead v.directory = (v.tags x).length :=
    Chain.count_eq (v.tagged x hx)
  have hstage : (v.remote.lookup x).stage.left p m = 10 := rfl
  have hle : (v.tags x).length ≤ v.depth :=
    List.le_sum_of_mem (List.mem_map_of_mem (mem_references hx))
  rw [SetLookup.left, hahead, hstage]
  omega

/-! ## What is left to do -/

/-- The lookup of a worker that is yet to end. -/
def pending (v : Serving) (s : DirectoryScene) (i : Nat) : Option SetLookup :=
  (s.run.workers[i]?.filter Worker.isPending).map fun w =>
    v.lookupOf s i w.reference

/-- What is left of the fetch under way. -/
def fetchLeft (s : DirectoryScene) : Nat :=
  s.fetch.elim 0 (·.stage.left s.world.scene s.moment)

/-- What is left of the lookup of a worker. -/
noncomputable def lookupLeft (v : Serving) (s : DirectoryScene) (i : Nat) :
    Nat :=
  (v.pending s i).elim 0 (·.left v.directory s.world.scene s.moment)

/-- What is left of the lookups. -/
noncomputable def lookupsLeft (v : Serving) (s : DirectoryScene) : Nat :=
  ((List.range s.run.workers.length).map (v.lookupLeft s)).sum

/-- What is left to do in a scene.  A move of the run is worth more than a fetch
and a lookup, for it may bring one of each. -/
noncomputable def left (v : Serving) (s : DirectoryScene) : Nat :=
  (22 + 11 * v.depth) * s.run.effort v.pages + fetchLeft s + v.lookupsLeft s

theorem pending_eq_some_iff :
    v.pending s i = some task ↔
      ∃ w, s.run.workers[i]? = some w ∧ w.isPending = true ∧
        v.lookupOf s i w.reference = task :=
  RunScene.pending_eq_some_iff

/-- A worker that looks something up has a lookup that is yet to end. -/
theorem pending_looking (hw : s.run.workers[i]? = some ⟨x, .looking⟩) :
    v.pending s i = some (v.lookupOf s i x) :=
  RunScene.pending_looking hw

/-- The retrieval of a lookup that is yet to end is held. -/
theorem held_of_pending (h : v.pending s i = some task)
    (hstage : task.stage = .retrieving j) : Held s j := by
  obtain ⟨w, _, _, rfl⟩ := pending_eq_some_iff.1 h
  obtain ⟨task, htask, hat⟩ := retrieving_lookupOf.1 hstage
  exact .inr ⟨_, RunScene.mem_of_lookup? htask, hat⟩

/-- The fetch under way has no more to do when its call has not. -/
theorem fetchLeft_le (hfetch : t.fetch = s.fetch)
    (hle : ∀ call : Call Page, s.fetch = some call →
      call.stage.left t.world.scene t.moment ≤
      call.stage.left s.world.scene s.moment) : fetchLeft t ≤ fetchLeft s := by
  rw [fetchLeft, fetchLeft, hfetch]
  cases hcall : s.fetch with
  | none => exact Nat.le_refl _
  | some call => exact hle call hcall

/-- A lookup has no more to do when its call has not. -/
theorem lookupLeft_le
    (hle : ∀ task, v.pending t i = some task → v.pending s i = some task ∧
      task.stage.left t.world.scene t.moment ≤
      task.stage.left s.world.scene s.moment) :
    v.lookupLeft t i ≤ v.lookupLeft s i := by
  unfold lookupLeft
  cases htask : v.pending t i with
  | none => exact Nat.zero_le _
  | some task =>
    obtain ⟨hbefore, hstage⟩ := hle task htask
    rw [hbefore]
    exact Nat.add_le_add_right hstage _

/-! ## Moves of the run -/

/-- What happens to the run begins no lookup but that of a new worker. -/
theorem lookupsLeft_act_le (h : v.Served s) (ht : v.Served t) {a : Run.Action}
    (hrun : t.run = s.run.act a)
    (hlookup : ∀ i w, t.run.workers[i]? = some w → w.isPending = true →
      t.lookup? i = s.lookup? i)
    (hle : ∀ stage : Call.Stage,
      stage.left t.world.scene t.moment ≤ stage.left s.world.scene s.moment) :
    v.lookupsLeft t ≤ v.lookupsLeft s + (10 + 11 * v.depth) := by
  have he : s.run.Effect a t.run := hrun ▸ s.run.effect_act a
  -- a lookup from before was pending before
  have hold {i : Nat} (hlt : i < s.run.workers.length) :
      v.lookupLeft t i ≤ v.lookupLeft s i :=
    lookupLeft_le fun _ hpending =>
      ⟨RunScene.pending_act hrun hlookup hlt hpending, hle _⟩
  rcases he.hires with hsame | ⟨_, _, x, hadded⟩
  · have hsum : v.lookupsLeft t ≤ v.lookupsLeft s := by
      unfold lookupsLeft
      rw [hsame]
      exact List.sum_le_sum fun i hi => hold (List.mem_range.1 hi)
    omega
  · -- the new worker has all of its lookup before it
    have hnew : v.lookupLeft t s.run.workers.length ≤ 10 + 11 * v.depth := by
      have hw : t.run.workers[s.run.workers.length]? = some ⟨x, .spawned⟩ := by
        rw [hadded]
        exact List.getElem?_concat_length
      have hfresh : t.lookup? s.run.workers.length = none := by
        rw [hlookup _ _ hw rfl, h.attended.lookup?_length]
      have hpending : v.pending t s.run.workers.length =
          some (v.remote.lookup x) :=
        pending_eq_some_iff.2 ⟨_, hw, rfl, by rw [lookupOf, hfresh]; rfl⟩
      obtain ⟨heard, htold⟩ := ht.told
      rw [lookupLeft, hpending]
      exact left_lookup_le (htold.listed (List.mem_of_getElem? hw)) _ _
    have hsum : ((List.range s.run.workers.length).map (v.lookupLeft t)).sum ≤
        v.lookupsLeft s :=
      List.sum_le_sum fun i hi => hold (List.mem_range.1 hi)
    have hlength : t.run.workers.length = s.run.workers.length + 1 := by
      simp [hadded]
    rw [lookupsLeft, hlength, List.range_succ, List.map_append, List.sum_append]
    simpa using Nat.add_le_add hsum hnew

/-- What happens to the run does some of what is left to do. -/
theorem left_act_lt (h : v.Served s) (ht : v.Served t) {a : Run.Action}
    (hrun : t.run = s.run.act a) (ha : s.run.Enabled a)
    (hcancel : ∀ h, a ≠ .cancel h) (hdrop : a ≠ .drop)
    (hpage : ∀ cursor p, s.run.driver = .fetching cursor →
      a = .answer (.value p) →
      v.directory.permissionSets.answer s.run.pages cursor = .value p)
    (hfetch : t.fetch = s.fetch ∨ fetchLeft t ≤ 10)
    (hlookup : ∀ i w, t.run.workers[i]? = some w → w.isPending = true →
      t.lookup? i = s.lookup? i)
    (hle : ∀ stage : Call.Stage, stage.left t.world.scene t.moment ≤
      stage.left s.world.scene s.moment) : v.left t < v.left s := by
  have heffort : t.run.effort v.pages < s.run.effort v.pages := by
    rw [hrun]
    refine (s.run.effect_act a).effort_lt ha hcancel hdrop
      fun cursor p hd hanswer => ?_
    rw [pages, List.getElem?_map, h.answered hd, hpage cursor p hd hanswer]
    rfl
  have hlookups := lookupsLeft_act_le h ht hrun hlookup hle
  have hten : fetchLeft t ≤ fetchLeft s + 10 := by
    rcases hfetch with hsame | hfew
    · exact Nat.le_trans (fetchLeft_le hsame fun _ _ => hle _)
        (Nat.le_add_right _ _)
    · exact Nat.le_trans hfew (Nat.le_add_left _ _)
  -- the one that the run gives away pays for a fetch and a lookup that begin
  have hworth :=
    Nat.mul_le_mul_left (22 + 11 * v.depth) (Nat.succ_le_of_lt heffort)
  rw [Nat.mul_succ] at hworth
  unfold left
  omega

/-! ## Who waits -/

/-- Nobody can go on. -/
def Waits (v : Serving) (s : DirectoryScene) : Prop :=
  ∀ task ∈ (RunScene.play v.remote).tasks s, (RunScene.play v.remote).ready s
    task = false

/-- A fetch that is under way waits. -/
theorem Waits.fetch (h : v.Waits s) {call : Call Page}
    (hfetch : s.fetch = some call) :
    call.stage.ready s.world.scene s.moment = false :=
  (Call.ready_eq _ _ _).symm.trans (RunScene.Waits.fetch h hfetch)

/-- A lookup that is under way waits, for a worker that looks something up. -/
theorem Waits.lookup (h : v.Waits s) (hs : s.Attended)
    (htask : s.lookup? i = some task) :
    (∃ x, s.run.workers[i]? = some ⟨x, .looking⟩) ∧
      task.stage.ready s.world.scene s.moment = false := by
  obtain ⟨hlooking, hready⟩ := RunScene.Waits.lookup h hs htask
  exact ⟨hlooking, (SetLookup.ready_eq _ _ _ _ _).symm.trans hready⟩

/-- Every call under way waits. -/
theorem Waits.not_ready (h : v.Waits s) (hs : s.Attended)
    (hunder : Underway s stage) :
    stage.ready s.world.scene s.moment = false := by
  rcases hunder with ⟨call, hfetch, rfl⟩ | ⟨⟨i, task⟩, hin, rfl⟩
  · exact h.fetch hfetch
  · exact (h.lookup hs ((lookup?_eq_some_iff hs.watches).2 hin)).2

/-- Until the scene is over, who waits waits for a call. -/
theorem Waits.exists_underway (h : v.Waits s) (hs : v.Served s)
    (hover : s.isOver = false) : ∃ stage, Underway s stage := by
  obtain ⟨_, htold⟩ := hs.told
  obtain ⟨_, hway⟩ := htold.tale.way (fun _ => .crashed) fun _ => .crashed
  rcases RunScene.Waits.exists_task h hs.attended hway.permitted hover with
    hfetch | ⟨i, task, htask⟩
  · obtain ⟨call, hcall⟩ := Option.isSome_iff_exists.1 hfetch
    exact ⟨_, .inl ⟨call, hcall, rfl⟩⟩
  · exact ⟨_, .inr ⟨_, RunScene.mem_of_lookup? htask, rfl⟩⟩

/-- The time can move on to a unit at which a call can go on. -/
theorem isSome_due (hs : s.Attended) (hunder : Underway s stage)
    (hdue : (stage.due s.world.scene s.moment).isSome = true) :
    ((RunScene.play v.remote).due s).isSome = true := by
  obtain ⟨unit, hat⟩ := Option.isSome_iff_exists.1 hdue
  rcases hunder with ⟨call, hfetch, rfl⟩ | ⟨⟨i, task⟩, hin, rfl⟩
  · exact RunScene.isSome_due (.inl ⟨call, hfetch,
      (Call.due_eq _ _ _).trans hat⟩)
  · obtain ⟨w, hw, _⟩ := hs.watches.looking _ hin
    obtain ⟨hlt, _⟩ := List.getElem?_eq_some_iff.1 hw
    exact RunScene.isSome_due (.inr ⟨i, hlt, task,
      (lookup?_eq_some_iff hs.watches).2 hin,
      (SetLookup.due_eq _ _ _ _ _).trans hat⟩)

/-- When the time moves on, it is to a unit at which a call can go on. -/
theorem exists_due (h : v.Served s) {unit : Nat}
    (hdue : (RunScene.play v.remote).due s = some unit) :
    (∃ call, s.fetch = some call ∧
      call.stage.due s.world.scene s.moment = some unit) ∨
      ∃ i < s.run.workers.length, ∃ task, s.lookup? i = some task ∧
        task.stage.due s.world.scene s.moment = some unit := by
  rcases RunScene.due_eq_some hdue with
    ⟨call, hcall, hat⟩ | hcancel | hdrop | ⟨i, hlt, task, htask, hat⟩
  · exact .inl ⟨call, hcall, (Call.due_eq _ _ _).symm.trans hat⟩
  · rw [h.uncalled.1] at hcancel
    cases hcancel
  · rw [h.uncalled.2] at hdrop
    cases hdrop
  · exact .inr ⟨i, hlt, task, htask,
      (SetLookup.due_eq _ _ _ _ _).symm.trans hat⟩

/-- There is a step until the scene is over. -/
theorem Provisioned.goesOn (h : v.Provisioned s) (hover : s.isOver = false) :
    ∃ t, (RunScene.play v.remote).Step s t := by
  refine Play.exists_step fun hwaits => ?_
  have hwaits : v.Waits s := hwaits
  obtain ⟨stage, hunder⟩ := hwaits.exists_underway h.toServed hover
  have hready := hwaits.not_ready h.attended hunder
  rcases Call.Stage.exists_due hready (fun i hi => by
      subst hi
      exact ⟨h.supplied (h.needs hunder), hunder⟩) with hdue | ⟨j, hheld, hgoes⟩
  · exact isSome_due h.attended hunder hdue
  · -- the call that waits for another's retrieval goes on with that one
    have hnot := hwaits.not_ready h.attended hheld
    simp only [Call.Stage.ready, Bool.or_eq_false_iff] at hnot
    rcases hgoes with hgoes | hdue
    · rw [hnot.2] at hgoes
      cases hgoes
    · exact isSome_due h.attended hheld hdue

/-! ## Each move does some of what is left -/

/-- The time moves on. -/
theorem left_time_lt (h : v.Served s) (hwaits : v.Waits s) {unit : Nat}
    (hdue : (RunScene.play v.remote).due s = some unit) :
    v.left { s with moment := s.moment.moveTo unit } < v.left s := by
  set t : DirectoryScene := { s with moment := s.moment.moveTo unit } with ht
  have hfetch : fetchLeft t ≤ fetchLeft s :=
    fetchLeft_le rfl fun _ _ => Call.Stage.left_moveTo_le _ _ _ _
  have hlookup (i : Nat) : v.lookupLeft t i ≤ v.lookupLeft s i :=
    lookupLeft_le fun _ hpending =>
      ⟨hpending, Call.Stage.left_moveTo_le _ _ _ _⟩
  have hlookups : v.lookupsLeft t ≤ v.lookupsLeft s :=
    List.sum_le_sum fun i _ => hlookup i
  have hrun : t.run = s.run := rfl
  rcases exists_due h hdue with ⟨call, hcall, hat⟩ | ⟨i, hlt, task, htask, hat⟩
  · have hless := Call.Stage.left_lt_of_due (hwaits.fetch hcall) hat
    have hfetchlt : fetchLeft t < fetchLeft s := by
      simpa only [fetchLeft, ht, hcall, Option.elim_some] using hless
    simp only [left, hrun]
    omega
  · obtain ⟨⟨x, hw⟩, hready⟩ := hwaits.lookup h.attended htask
    have hless := Call.Stage.left_lt_of_due hready hat
    have hpending : v.pending s i = some task := by
      rw [pending_looking hw, lookupOf, htask]
      rfl
    have hone : v.lookupLeft t i < v.lookupLeft s i := by
      show (v.pending s i).elim 0 _ < (v.pending s i).elim 0 _
      rw [hpending]
      exact Nat.add_lt_add_right hless _
    have hlookupslt : v.lookupsLeft t < v.lookupsLeft s :=
      List.sum_lt_sum _ _ (fun i _ => hlookup i) ⟨i, List.mem_range.2 hlt, hone⟩
    simp only [left, hrun]
    omega

/-- A fetch goes on. -/
theorem left_fetch_lt (h : v.Provisioned s) {call call' : Call Page}
    {world : DirectoryWorld} (hfetch : s.fetch = some call)
    (hready : call.stage.ready s.world.scene s.moment = true)
    (hgoes : Call.Stage.Goes v.credentials s.world.scene s.moment call.stage
      world.scene call'.stage) :
    v.left { s with fetch := some call', world := world } < v.left s := by
  set t : DirectoryScene :=
    { s with fetch := some call', world := world } with ht
  have hless : fetchLeft t < fetchLeft s := by
    simpa only [fetchLeft, ht, hfetch, Option.elim_some]
      using hgoes.left_lt hready
  have hlookups : v.lookupsLeft t ≤ v.lookupsLeft s :=
    List.sum_le_sum fun i _ => lookupLeft_le fun task hpending =>
      have hbefore : v.pending s i = some task := hpending
      ⟨hbefore, hgoes.left_le hready fun j hj =>
        h.present (held_of_pending hbefore hj)⟩
  have hrun : t.run = s.run := rfl
  simp only [left, hrun]
  omega

/-- A lookup goes on. -/
theorem left_lookup_lt (h : v.Provisioned s) {world : DirectoryWorld}
    (hw : s.run.workers[i]? = some ⟨x, .looking⟩)
    (hready : (v.lookupOf s i x).stage.ready s.world.scene s.moment = true)
    (hgoes : SetLookup.Goes v.directory v.credentials s.world.scene s.moment
      (v.lookupOf s i x) world.scene task) :
    v.left { s with
      lookups := (i, task) :: s.lookups.filter (·.1 ≠ i)
      world := world } <
      v.left s := by
  set t : DirectoryScene :=
    { s with
      lookups := (i, task) :: s.lookups.filter (·.1 ≠ i)
      world := world } with ht
  have hrun : t.run = s.run := rfl
  have hother {j : Nat} (hne : j ≠ i) : v.pending t j = v.pending s j :=
    RunScene.pending_of_ne (s := s) rfl rfl hne
  have hone : v.lookupLeft t i < v.lookupLeft s i := by
    have hafter : v.pending t i = some task :=
      RunScene.pending_goesOn (s := s) rfl rfl hw
    rw [lookupLeft, lookupLeft, hafter, pending_looking hw]
    exact hgoes.left_lt hready
  have hlookup (j : Nat) : v.lookupLeft t j ≤ v.lookupLeft s j := by
    rcases eq_or_ne j i with rfl | hne
    · exact Nat.le_of_lt hone
    · refine lookupLeft_le fun other hpending => ?_
      rw [hother hne] at hpending
      exact ⟨hpending,
        hgoes.left_le hready fun k hk =>
        h.present (held_of_pending hpending hk)⟩
  have hlookups : v.lookupsLeft t < v.lookupsLeft s :=
    List.sum_lt_sum _ _ (fun j _ => hlookup j)
      ⟨i, List.mem_range.2 (List.getElem?_eq_some_iff.1 hw).1, hone⟩
  have hfetch : fetchLeft t ≤ fetchLeft s :=
    fetchLeft_le rfl fun call hcall =>
      hgoes.left_le hready fun j hj => h.present (.inl ⟨call, hcall, hj⟩)
  simp only [left, hrun]
  omega

/-- Abandoning a call, if there is one, leaves the others no more to do. -/
theorem left_abandon_elim_le {κ : Type} (abandoned : Option κ)
    (stageOf : κ → Call.Stage) (p : PlannedCache) (m : Moment)
    (other : Call.Stage) :
    other.left (abandoned.elim p fun k => (stageOf k).abandon p) m ≤
      other.left p m := by
  cases abandoned with
  | none => exact Nat.le_refl _
  | some k => exact Call.Stage.left_abandon_le _ _ _ _

/-- Each move does some of what is left to do. -/
theorem Move.left_lt (hm : v.Move s t) (h : v.Provisioned s) (ht : v.Served t) :
    v.left t < v.left s := by
  have hserved := h.toServed
  cases hm with
  | ask hready hnone =>
    have hten : (Call.Stage.begun).left s.world.scene s.moment ≤ 10 :=
      Nat.le_refl _
    exact left_act_lt hserved ht (a := .drive) rfl hready (by simp)
      (by simp) (by simp)
      (.inr hten) (fun _ _ _ _ => rfl) fun _ => Nat.le_refl _
  | drive hready _ hworld =>
    refine left_act_lt hserved ht (a := .drive) rfl hready (by simp)
      (by simp) (by simp)
      (.inr (Nat.zero_le _)) (fun _ _ _ _ => rfl) fun stage => ?_
    rw [hworld]
    exact left_abandon_elim_le _ _ _ _ _
  | fetch hfetch _ hready _ hgoes => exact left_fetch_lt h hfetch hready hgoes
  | @answer call cursor o _ hd hc _ ho =>
    refine left_act_lt hserved ht (a := .answer o) rfl ⟨⟨cursor, hd⟩, hc⟩
      (by simp) (by simp)
      (fun cursor' p hd' hanswer => ?_) (.inr (Nat.zero_le _))
      (fun _ _ _ _ => rfl) fun _ => Nat.le_refl _
    rw [hd] at hd'
    injection hd' with hd'
    injection hanswer with hanswer
    subst hanswer
    exact hd' ▸ ho.value
  | @work i ha =>
    exact left_act_lt hserved ht (a := .work i) rfl ha (by simp)
      (by simp) (by simp) (.inl rfl) (fun _ _ _ _ => rfl) fun _ => Nat.le_refl _
  | lookup hw hready _ hgoes => exact left_lookup_lt h hw hready hgoes
  | @report i x o hw =>
    refine left_act_lt hserved ht (a := .report i o) rfl ⟨x, hw⟩ (by simp)
      (by simp) (by simp)
      (.inl rfl) (RunScene.lookup?_of_filter rfl fun w hw' => ?_) fun _ =>
      Nat.le_refl _
    have hat : (s.run.act (.report i o)).workers[i]? =
        some ⟨x, .reported o⟩ := by
      simp [Run.act, Run.report, hw]
    obtain rfl := Option.some.inj (hat.symm.trans hw')
    rfl
  | @unwind i world ha hworld =>
    refine left_act_lt hserved ht (a := .unwind i) rfl ha (by simp)
      (by simp) (by simp)
      (.inl rfl) (RunScene.lookup?_of_filter rfl ?_) fun stage => ?_
    · obtain ⟨x, hw | hw⟩ :=
        ha <;> exact RunScene.not_pending_act s.run _ hw rfl
    · rw [hworld]
      exact left_abandon_elim_le _ _ _ _ _
  | time hwaits hdue => exact left_time_lt hserved hwaits hdue

/-- An enumeration of the permission sets comes to its end in every order of its
steps. -/
theorem winds (v : Serving) :
    (RunScene.play v.remote).Winds v.Provisioned v.left where
  keeps _ _ h hstep := h.step hstep
  falls _ _ h _ hstep :=
    (h.toServed.move hstep).left_lt h (h.toServed.step hstep)
  goesOn _ h hover := h.goesOn hover

end Serving

end CloudAccess
