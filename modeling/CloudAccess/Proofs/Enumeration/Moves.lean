import CloudAccess.Proofs.Enumeration.Tasks
import CloudAccess.Proofs.Rehearsal

/-!
# What a step of a scene does

A scene lets its run act and its tasks take their turns.  This module says once
what one step of it comes to, whoever answers the run.

* `Process.GoesOn` is a turn of a task after which it is still under way, and
  `Process.Keeps` what every turn of a task does to the world.
* `Move` lists what a step of a scene does, and `move` proves the list
  complete.
* `Waits` says that every task of a scene waits, and the lemmas beside it what
  this says about the driver, the workers and the lookups.
-/

namespace CloudAccess

/-- A turn of a task after which it is still under way. -/
def Process.GoesOn {ω κ α : Type} (p : Process ω κ α) (world : ω)
    (s : Situation) (task : κ) (world' : ω) (task' : κ) : Prop :=
  p.turn world s task = (world', .goOn task') ∨
    ∃ target, p.turn world s task = (world', .cancels target task')

/-- What a relation says of the world before and after each turn of a task, and
before and after a task is abandoned. -/
structure Process.Keeps {ω κ α : Type} (p : Process ω κ α) (R : ω → ω → Prop) :
    Prop where
  turn : ∀ world s task, R world (p.turn world s task).1
  abandon : ∀ world s task, R world (p.abandon world s task)

namespace RunScene

variable {ω φ κ : Type} {r : Remote ω φ κ} {s t : RunScene ω φ κ} {i : Nat}
  {x : String}

/-- The lookup of a worker that looks something up, begun or not. -/
def lookupOf (r : Remote ω φ κ) (s : RunScene ω φ κ) (i : Nat) (x : String) :
    κ :=
  (s.lookup? i).getD (r.lookup x)

/-- What a step of a scene does: the driver moves, a fetch goes on or ends, a
worker moves, a lookup goes on, ends or is gone, the caller cancels the run or
gives it up, or the time moves on.  A turn of a task may cancel a handle. -/
inductive Move (r : Remote ω φ κ) (s : RunScene ω φ κ) : RunScene ω φ κ → Prop
  | ask {cursor : Option String} (hready : s.run.driverReady = true)
      (hd : (s.run.act .drive).driver = .fetching cursor) :
      Move r s { s with
        run := s.run.act .drive
        fetch := some (r.fetch (s.run.act .drive).pages cursor) }
  | drive {world : ω} (hready : s.run.driverReady = true)
      (hd : ∀ cursor, (s.run.act .drive).driver ≠ .fetching cursor) :
      Move r s { s with run := s.run.act .drive, fetch := none, world := world }
  | fetch {task task' : φ} {world : ω} {run : Run}
      (hfetch : s.fetch = some task) (hwaits : s.run.driverReady = false)
      (hready : r.fetching.ready s.world s.situation task = true)
      (hgoes : r.fetching.GoesOn s.world s.situation task world task')
      (hrun : run = s.run ∨ ∃ g, run = s.run.cancel g) :
      Move r s { s with run := run, fetch := some task', world := world }
  | answer {task : φ} {o : Outcome Page} {world : ω}
      (hfetch : s.fetch = some task) (hwaits : s.run.driverReady = false)
      (hdone : r.fetching.turn s.world s.situation task = (world, .done o)) :
      Move r s { s with
        run := s.run.act (.answer o), fetch := none, world := world }
  | work {i : Nat} (ha : s.run.Enabled (.work i)) :
      Move r s { s with run := s.run.act (.work i) }
  | lookup {i : Nat} {x : String} {task : κ} {world : ω} {run : Run}
      (hw : s.run.workers[i]? = some ⟨x, .looking⟩)
      (hready : (s.lookup? i).all (r.looking.ready s.world s.situation) = true)
      (hgoes : r.looking.GoesOn s.world s.situation
        (lookupOf r s i x) world task)
      (hrun : run = s.run ∨ ∃ g, run = s.run.cancel g) :
      Move r s { s with
        run := run
        lookups := (i, task) :: s.lookups.filter (·.1 ≠ i)
        world := world }
  | report {i : Nat} {x : String} {o : Outcome EnrichedItem} {world : ω}
      (hw : s.run.workers[i]? = some ⟨x, .looking⟩) :
      Move r s { s with
        run := s.run.act (.report i o)
        lookups := s.lookups.filter (·.1 ≠ i)
        world := world }
  | unwind {i : Nat} {world : ω} (ha : s.run.Enabled (.unwind i)) :
      Move r s { s with
        run := s.run.act (.unwind i)
        lookups := s.lookups.filter (·.1 ≠ i)
        world := world }
  | cancel {unit : Nat} (hat : s.cancelAt = some unit)
      (hdue : unit ≤ s.moment.unit) :
      Move r s { s with run := s.run.cancel s.caller, cancelAt := none }
  | giveUp {unit : Nat} {world : ω} (hat : s.dropAt = some unit)
      (hdue : unit ≤ s.moment.unit) :
      Move r s { s with
        run := s.run.act .drop, fetch := none, world := world, dropAt := none }
  | time {unit : Nat}
      (hwaits : ∀ task ∈ (play r).tasks s, (play r).ready s task = false)
      (hdue : (play r).due s = some unit) :
      Move r s { s with moment := s.moment.moveTo unit }

/-! ## Lookups by their workers -/

theorem mem_of_lookup? {task : κ} (h : s.lookup? i = some task) :
    (i, task) ∈ s.lookups := by
  obtain ⟨before, after, hsplit, _⟩ := List.lookup_eq_some_iff.1 h
  simp [hsplit]

/-! ## The list is complete -/

/-- Without its fetch a scene has none. -/
theorem dropFetch_eq (r : Remote ω φ κ) (s : RunScene ω φ κ) :
    ∃ world, s.dropFetch r = { s with fetch := none, world := world } := by
  unfold dropFetch
  split
  · rename_i hnone
    exact ⟨s.world, by rw [← hnone]⟩
  · exact ⟨_, rfl⟩

/-- What a task cancels is some handle. -/
theorem cancel_eq (s : RunScene ω φ κ) (target : CancelTarget) :
    ∃ g, s.cancel target = { s with run := s.run.cancel g } := by
  cases target with
  | run => exact ⟨s.run.handle, rfl⟩
  | caller => exact ⟨s.caller, rfl⟩

/-- The driver moves. -/
theorem move_drive (r : Remote ω φ κ) (hready : s.run.driverReady = true) :
    Move r s (s.drive r) := by
  unfold RunScene.drive
  dsimp only
  split
  · rename_i cursor hd
    exact .ask hready hd
  · rename_i hd
    obtain ⟨world, heq⟩ := dropFetch_eq r (s.act .drive)
    rw [heq]
    exact .drive hready hd

/-- The fetch under way takes a turn. -/
theorem move_fetchTurn {task : φ} (hfetch : s.fetch = some task)
    (hwaits : s.run.driverReady = false)
    (hready : r.fetching.ready s.world s.situation task = true) :
    Move r s (s.fetchTurn r task) := by
  unfold RunScene.fetchTurn
  split
  · rename_i world task' hturn
    exact .fetch hfetch hwaits hready (.inl hturn) (.inl rfl)
  · rename_i world target task' hturn
    obtain ⟨g, heq⟩ :=
      cancel_eq { s with world := world, fetch := some task' } target
    rw [heq]
    exact .fetch hfetch hwaits hready (.inr ⟨target, hturn⟩) (.inr ⟨g, rfl⟩)
  · rename_i world answer hturn
    exact .answer hfetch hwaits hturn

/-- The lookup of a worker takes a turn. -/
theorem move_lookupTurn (hw : s.run.workers[i]? = some ⟨x, .looking⟩)
    (hready : (s.lookup? i).all (r.looking.ready s.world s.situation) = true) :
    Move r s (s.lookupTurn r i (lookupOf r s i x)) := by
  unfold RunScene.lookupTurn
  split
  · rename_i world task hturn
    exact .lookup hw hready (.inl hturn) (.inl rfl)
  · rename_i world target task hturn
    obtain ⟨g, heq⟩ :=
      cancel_eq ({ s with world := world }.setLookup i task) target
    rw [heq]
    exact .lookup hw hready (.inr ⟨target, hturn⟩) (.inr ⟨g, rfl⟩)
  · exact .report hw

/-- A worker that is looked for in vain has no lookup under way. -/
theorem filter_lookups_of_none (hnone : s.lookup? i = none) :
    s.lookups.filter (·.1 ≠ i) = s.lookups := by
  rw [lookup?, List.lookup_eq_none_iff] at hnone
  refine List.filter_eq_self.2 fun p hp => ?_
  have hne : i ≠ p.1 := by simpa using hnone p hp
  exact decide_eq_true (Ne.symm hne)

/-- A lookup that was stopped is gone. -/
theorem move_unwind (r : Remote ω φ κ) (ha : s.run.Enabled (.unwind i)) :
    Move r s (s.unwind r i) := by
  unfold RunScene.unwind
  split
  · rename_i hnone
    have hmove : Move r s { s with
        run := s.run.act (.unwind i)
        lookups := s.lookups.filter (·.1 ≠ i)
        world := s.world } :=
      .unwind ha
    rwa [filter_lookups_of_none hnone] at hmove
  · exact .unwind ha

/-- A step of a task is one of the listed moves. -/
theorem move_step {task : RunTask} (hready : (play r).ready s task = true) :
    Move r s (s.step r task) := by
  cases task with
  | cancel =>
    obtain ⟨unit, hat, hdue⟩ := (Option.any_eq_true _ s.cancelAt).1 hready
    exact .cancel hat (by simpa using hdue)
  | giveUp =>
    obtain ⟨unit, hat, hdue⟩ := (Option.any_eq_true _ s.dropAt).1 hready
    obtain ⟨world, heq⟩ := dropFetch_eq r ({ s with dropAt := none }.act .drop)
    show Move r s (({ s with dropAt := none }.act .drop).dropFetch r)
    rw [heq]
    exact .giveUp hat (by simpa using hdue)
  | worker i => exact .work hready
  | driver =>
    have hready : (s.run.driverReady || s.fetchReady r) = true := hready
    change Move r s (s.driverStep r)
    unfold RunScene.driverStep
    split
    · rename_i hdrives
      exact move_drive r hdrives
    · rename_i hwaits
      rw [Bool.not_eq_true] at hwaits
      rw [hwaits, Bool.false_or, fetchReady, Option.any_eq_true] at hready
      obtain ⟨task, hfetch, hgoes⟩ := hready
      rw [hfetch]
      exact move_fetchTurn hfetch hwaits hgoes
  | lookup i =>
    have hready : s.lookupReady r i = true := hready
    change Move r s (s.lookupStep r i)
    unfold RunScene.lookupReady at hready
    unfold RunScene.lookupStep
    split at hready
    · rename_i x hw
      exact move_lookupTurn hw hready
    · rename_i x hw
      exact move_unwind r ⟨x, .inl hw⟩
    · rename_i x hw
      exact move_unwind r ⟨x, .inr hw⟩
    · cases hready

/-- Every step is one of the listed moves. -/
theorem move (hstep : (play r).Step s t) : Move r s t := by
  cases hstep with
  | task _ hready => exact move_step hready
  | time hwaits hdue => exact .time hwaits hdue

/-- A move lets the run act once, or leaves it alone. -/
theorem Move.run_eq (hm : Move r s t) :
    t.run = s.run ∨ ∃ a, t.run = s.run.act a := by
  cases hm with
  | ask | drive => exact .inr ⟨.drive, rfl⟩
  | fetch _ _ _ _ hrun | lookup _ _ _ hrun =>
    exact hrun.imp id fun ⟨g, h⟩ => ⟨.cancel g, h⟩
  | @answer _ o => exact .inr ⟨.answer o, rfl⟩
  | @work i => exact .inr ⟨.work i, rfl⟩
  | @report i _ o => exact .inr ⟨.report i o, rfl⟩
  | @unwind i => exact .inr ⟨.unwind i, rfl⟩
  | cancel => exact .inr ⟨.cancel s.caller, rfl⟩
  | giveUp => exact .inr ⟨.drop, rfl⟩
  | time => exact .inl rfl

/-! ## The moment of a step -/

@[simp] theorem moment_dropFetch (r : Remote ω φ κ) (s : RunScene ω φ κ) :
    (s.dropFetch r).moment = s.moment := by
  unfold dropFetch
  split <;> rfl

@[simp] theorem moment_cancel (s : RunScene ω φ κ) (target : CancelTarget) :
    (s.cancel target).moment = s.moment := by
  cases target <;> rfl

theorem moment_driverStep (r : Remote ω φ κ) (s : RunScene ω φ κ) :
    (s.driverStep r).moment = s.moment := by
  unfold driverStep
  split
  · unfold RunScene.drive
    dsimp only
    split
    · rfl
    · rw [moment_dropFetch]
      rfl
  · split
    · unfold fetchTurn
      split
      · rfl
      · rw [moment_cancel]
      · rfl
    · rfl

theorem moment_lookupStep (r : Remote ω φ κ) (s : RunScene ω φ κ) (i : Nat) :
    (s.lookupStep r i).moment = s.moment := by
  have hunwind : (s.unwind r i).moment = s.moment := by
    unfold RunScene.unwind
    split <;> rfl
  unfold lookupStep
  split
  · unfold lookupTurn
    split
    · rfl
    · rw [moment_cancel]
      rfl
    · rfl
  · exact hunwind
  · exact hunwind
  · rfl

/-- What a task does takes no time. -/
theorem moment_step (r : Remote ω φ κ) (s : RunScene ω φ κ) (task : RunTask) :
    (s.step r task).moment = s.moment := by
  cases task with
  | cancel => exact moment_cancel _ _
  | driver => exact moment_driverStep r s
  | giveUp => exact moment_dropFetch r _
  | worker => rfl
  | lookup i => exact moment_lookupStep r s i

/-! ## Who waits -/

/-- Every task of a scene waits. -/
def Waits (r : Remote ω φ κ) (s : RunScene ω φ κ) : Prop :=
  ∀ task ∈ (play r).tasks s, (play r).ready s task = false

theorem Waits.driver (h : Waits r s) :
    s.run.driverReady = false ∧ s.fetchReady r = false := by
  have hready : (s.run.driverReady || s.fetchReady r) = false :=
    h .driver (by simp [play])
  simpa using hready

theorem Waits.worker (h : Waits r s) (hlt : i < s.run.workers.length) :
    s.run.workerReady i = false ∧ s.lookupReady r i = false :=
  ⟨h (.worker i) (by simp [play, hlt]), h (.lookup i) (by simp [play, hlt])⟩

/-- A fetch that is under way waits. -/
theorem Waits.fetch (h : Waits r s) {task : φ} (hfetch : s.fetch = some task) :
    r.fetching.ready s.world s.situation task = false := by
  have hready := h.driver.2
  rwa [fetchReady, hfetch, Option.any_some] at hready

/-- A lookup that is under way waits, for a worker that looks something up. -/
theorem Waits.lookup (h : Waits r s) (hs : s.Attended) {task : κ}
    (htask : s.lookup? i = some task) :
    (∃ x, s.run.workers[i]? = some ⟨x, .looking⟩) ∧
      r.looking.ready s.world s.situation task = false := by
  obtain ⟨⟨x, stage⟩, hw, hlooks⟩ := hs.watches.looking _ (mem_of_lookup? htask)
  obtain ⟨hlt, _⟩ := List.getElem?_eq_some_iff.1 hw
  have hready := (h.worker hlt).2
  unfold lookupReady at hready
  rw [hw] at hready
  cases stage with
  | looking =>
    rw [htask] at hready
    exact ⟨⟨x, hw⟩, hready⟩
  | stopping | abandoned => simp at hready
  | spawned | reported | stopped | finished => cases hlooks

/-- What the caller intends is still to come. -/
theorem Waits.intents (h : Waits r s) :
    (∀ unit ∈ s.cancelAt, s.moment.unit < unit) ∧
    ∀ unit ∈ s.dropAt, s.moment.unit < unit := by
  have hcancel : s.cancelAt.any (· ≤ s.moment.unit) = false :=
    h .cancel (by simp [play])
  have hdrop : s.dropAt.any (· ≤ s.moment.unit) = false :=
    h .giveUp (by simp [play])
  simpa [Option.any_eq_false] using And.intro hcancel hdrop

/-- A worker that has not finished waits for its lookup. -/
theorem Waits.lookup_of_worker (h : Waits r s) {w : Worker}
    (hw : w ∈ s.run.workers) (hs : w.stage ≠ .finished) :
    ∃ i task, s.lookup? i = some task := by
  obtain ⟨i, hi⟩ := List.mem_iff_getElem?.1 hw
  obtain ⟨hlt, _⟩ := List.getElem?_eq_some_iff.1 hi
  obtain ⟨hworker, hlookup⟩ := h.worker hlt
  unfold Run.workerReady at hworker
  unfold lookupReady at hlookup
  rw [hi] at hworker hlookup
  obtain ⟨x, stage⟩ := w
  cases stage with
  | looking =>
    cases htask : s.lookup? i with
    | none => simp [htask] at hlookup
    | some task => exact ⟨i, task, htask⟩
  | spawned | reported | stopped => simp at hworker
  | stopping | abandoned => simp at hlookup
  | finished => exact absurd rfl hs

/-- The time can move on to a unit at which some task goes on, or the caller
intends something. -/
theorem due_eq_some {unit : Nat} (hdue : (play r).due s = some unit) :
    (∃ task, s.fetch = some task ∧
      r.fetching.due s.world s.situation task = some unit) ∨
      s.cancelAt = some unit ∨ s.dropAt = some unit ∨
      ∃ i < s.run.workers.length, ∃ task, s.lookup? i = some task ∧
        r.looking.due s.world s.situation task = some unit := by
  rcases List.mem_append.1 (earliest_eq_some hdue) with hin | hin
  · simp only [List.mem_cons, List.not_mem_nil, or_false] at hin
    rcases hin with hfetch | hcancel | hdrop
    · exact .inl (Option.bind_eq_some_iff.1 hfetch.symm)
    · exact .inr (.inl hcancel.symm)
    · exact .inr (.inr (.inl hdrop.symm))
  · obtain ⟨i, hi, hat⟩ := List.mem_map.1 hin
    obtain ⟨task, htask, hat⟩ := Option.bind_eq_some_iff.1 hat
    exact .inr (.inr (.inr ⟨i, List.mem_range.1 hi, task, htask, hat⟩))

/-- A unit at which a task under way goes on is one to which the time can move
on. -/
theorem isSome_due {unit : Nat}
    (h : (∃ task, s.fetch = some task ∧
        r.fetching.due s.world s.situation task = some unit) ∨
      ∃ i < s.run.workers.length, ∃ task, s.lookup? i = some task ∧
        r.looking.due s.world s.situation task = some unit) :
    ((play r).due s).isSome = true := by
  show (earliest (_ ++ _)).isSome = true
  rw [isSome_earliest, List.any_append, Bool.or_eq_true]
  rcases h with ⟨task, hfetch, hat⟩ | ⟨i, hlt, task, htask, hat⟩
  · exact .inl (List.any_eq_true.2 ⟨_, List.mem_cons_self,
      by simp [hfetch, hat]⟩)
  · refine .inr (List.any_eq_true.2 ⟨s.lookupDue r i,
      List.mem_map_of_mem (List.mem_range.2 hlt), ?_⟩)
    simp [lookupDue, htask, hat]

/-! ## The world of a scene -/

/-- The world of a scene changes by what its tasks do in their turns and when
they are abandoned. -/
theorem world_step {R : ω → ω → Prop} (hfetching : r.fetching.Keeps R)
    (hlooking : r.looking.Keeps R) (hrefl : ∀ world, R world world)
    (hstep : (play r).Step s t) : R s.world t.world := by
  have hcancel (u : RunScene ω φ κ) (target : CancelTarget) :
      (u.cancel target).world = u.world := by
    cases target <;> rfl
  have hdrop (u : RunScene ω φ κ) : R u.world (u.dropFetch r).world := by
    unfold dropFetch
    split
    · exact hrefl _
    · exact hfetching.abandon _ _ _
  cases hstep with
  | time => exact hrefl _
  | @task task =>
    cases task with
    | cancel =>
      rw [show (play r).step s .cancel =
        { s with cancelAt := none }.cancel .caller from rfl, hcancel]
      exact hrefl _
    | worker => exact hrefl _
    | giveUp => exact hdrop ({ s with dropAt := none }.act .drop)
    | driver =>
      show R s.world (s.driverStep r).world
      unfold driverStep
      split
      · unfold RunScene.drive
        dsimp only
        split
        · exact hrefl _
        · exact hdrop (s.act .drive)
      · split
        · rename_i task _
          have hturn := hfetching.turn s.world s.situation task
          unfold fetchTurn
          split <;> rename_i heq <;> rw [heq] at hturn
          · exact hturn
          · rw [hcancel]
            exact hturn
          · exact hturn
        · exact hrefl _
    | lookup i =>
      have hunwind : R s.world (s.unwind r i).world := by
        unfold RunScene.unwind
        split
        · exact hrefl _
        · exact hlooking.abandon _ _ _
      show R s.world (s.lookupStep r i).world
      unfold lookupStep
      split
      · rename_i x _
        have hturn :=
          hlooking.turn s.world s.situation ((s.lookup? i).getD (r.lookup x))
        unfold lookupTurn
        split <;> rename_i heq <;> rw [heq] at hturn
        · exact hturn
        · rw [hcancel]
          exact hturn
        · exact hturn
      · exact hunwind
      · exact hunwind
      · exact hrefl _

end RunScene

end CloudAccess
