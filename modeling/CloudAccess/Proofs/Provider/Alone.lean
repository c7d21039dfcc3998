import CloudAccess.Proofs.Provider.Supplies

/-!
# Tasks that make calls, by themselves

A task that makes one call after another, and that nobody shares the cache with.

* `Holds` says that the retrieval of the call under way is the only one.
* `WaitsOn` says that such a task is ready and due when the call under way is.
* `step_cases` says what a step of it is, and `exists_step` that there is one
  until it has ended.
-/

namespace CloudAccess

namespace Call.Stage

variable {credentials : Option Handle} {p p' : PlannedCache} {m : Moment}
  {stage stage' : Stage}

/-- The retrieval of a call at this stage is the only one that is held. -/
def Holds (p : PlannedCache) (stage : Stage) : Prop :=
  p.Supplied fun i => stage = retrieving i

theorem Holds.supplied (h : stage.Holds p) :
    p.Supplied fun i => False ∨ stage = retrieving i :=
  PlannedCache.Supplied.congr h fun i => by simp

/-- A call that goes on holds its retrieval. -/
theorem Goes.holds (h : Goes credentials p m stage p' stage')
    (hready : stage.ready p m = true) (hp : stage.Holds p) : stage'.Holds p' :=
  (h.resupplied hready hp.supplied).congr fun i => by simp

/-- After a call that has ended no retrieval is held. -/
theorem Unsupplied.free (h : stage.Unsupplied p) (hp : stage.Holds p) :
    p.Supplied fun _ => False :=
  h.supplied hp.supplied

/-- On a cache of which no retrieval is held a call begins. -/
theorem holds_begun (h : p.Supplied fun _ => False) : begun.Holds p :=
  h.congr fun i => by simp

end Call.Stage

namespace Solo

variable {κ ρ : Type} {p : Process DirectoryWorld κ ρ} {stage : κ → Call.Stage}
  {s t : Solo DirectoryWorld κ ρ} {k : κ}

/-- A task waits for the call under way, whose stage is given. -/
structure WaitsOn (p : Process DirectoryWorld κ ρ) (stage : κ → Call.Stage) :
    Prop where
  ready_eq : ∀ w s k, p.ready w s k = (stage k).ready w.scene s.moment
  due_eq : ∀ w s k, p.due w s k = (stage k).due w.scene s.moment

theorem WaitsOn.ready_play (hp : WaitsOn p stage) (htask : s.task = .inl k) :
    (play p).ready s () = (stage k).ready s.world.scene s.moment := by
  simp only [play, htask, Sum.elim_inl]
  exact hp.ready_eq s.world s.situation k

theorem WaitsOn.due_play (hp : WaitsOn p stage) (htask : s.task = .inl k) :
    (play p).due s = (stage k).due s.world.scene s.moment := by
  simp only [play, htask, Sum.elim_inl]
  exact hp.due_eq s.world s.situation k

/-- A task under way takes a turn when its call can go on, and else the time
moves on to when it can. -/
theorem WaitsOn.step_cases (hp : WaitsOn p stage) (hstep : (play p).Step s t) :
    ∃ k, s.task = .inl k ∧
      ((stage k).ready s.world.scene s.moment = true ∧ t = s.step p ∨
        ∃ unit, (stage k).ready s.world.scene s.moment = false ∧
          (stage k).due s.world.scene s.moment = some unit ∧
          t = { s with moment := s.moment.moveTo unit }) := by
  cases hstep with
  | task hmem hready =>
    rcases htask : s.task with k | r
    · exact ⟨k, rfl, .inl ⟨(hp.ready_play htask).symm.trans hready, rfl⟩⟩
    · simp [play, htask] at hready
  | @time unit hwaits hdue =>
    rcases htask : s.task with k | r
    · have hready := hwaits () (List.mem_singleton_self ())
      refine ⟨k, rfl, .inr ⟨unit, (hp.ready_play htask).symm.trans hready,
        (hp.due_play htask).symm.trans hdue, ?_⟩⟩
      rw [← htask]
      rfl
    · simp [play, htask] at hdue

/-- There is a step while a task is under way. -/
theorem WaitsOn.exists_step (hp : WaitsOn p stage) (htask : s.task = .inl k)
    (hholds : ∀ i, stage k = .retrieving i → (stage k).Holds s.world.scene) :
    ∃ t, (play p).Step s t := by
  refine Play.exists_step fun hwaits => ?_
  have hready : (stage k).ready s.world.scene s.moment = false :=
    (hp.ready_play htask).symm.trans (hwaits () (List.mem_singleton_self ()))
  rw [hp.due_play htask]
  rcases Call.Stage.exists_due hready fun i hi => ⟨hholds i hi, hi⟩ with
    hsome | ⟨i, hheld, hgoes⟩
  · exact hsome
  · -- the call waits for a retrieval of its own
    rw [hheld] at hready ⊢
    simp only [Call.Stage.ready, Bool.or_eq_false_iff] at hready
    exact hgoes.resolve_left (by simp [hready.2])

end Solo

end CloudAccess
