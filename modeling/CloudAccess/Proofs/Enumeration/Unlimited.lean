import CloudAccess.Proofs.Enumeration.Limit

/-!
# Runs without their page limit

A page limit matters only to a driver that finds it reached.

* `Run.unlimited` is a run without its page limit.
* `EndsBy` says that the pages received are the first ones of a listing that
  ends within a limit.
* `unlimited_act` says that an action does the same with and without the limit
  unless the driver exceeds it, and `unlimited_after` that so does a list of
  actions over pages that end within the limit.
* `RunScene.unlimited_run` says the same of a rehearsal.
-/

namespace CloudAccess

namespace Run

variable {r t : Run} {a : Action} {actions : List Action} {e : Enumerator}
  {signals : Signals} {caller : Cancellation} {limit : Nat}

/-- The run without its page limit. -/
def unlimited (r : Run) : Run :=
  { r with enumerator := r.enumerator.withPageLimit none }

theorem unlimited_start (e : Enumerator) (signals : Signals)
    (caller : Cancellation) :
    (start e signals caller).unlimited =
      start (e.withPageLimit none) signals caller := by
  rw [start_eq, start_eq]
  rfl

/-! ## Operations -/

theorem unlimited_fail (r : Run) (err : EnumerationError)
    (event : Option Event) :
    (r.fail err event).unlimited = r.unlimited.fail err event := by
  rw [fail_eq, fail_eq]
  rfl

theorem unlimited_leave (r : Run) : r.leave.unlimited = r.unlimited.leave := by
  rw [leave_eq, leave_eq]
  rfl

theorem unlimited_release (r : Run) :
    r.release.unlimited = r.unlimited.release := by
  rw [release_eq, release_eq]
  rfl

theorem unlimited_finish (r : Run) (i : Nat) :
    (r.finish i).unlimited = r.unlimited.finish i :=
  unlimited_release _

theorem unlimited_ungrant (r : Run) :
    r.ungrant.unlimited = r.unlimited.ungrant := by
  rw [ungrant_eq, ungrant_eq]
  rfl

/-- The driver finds the page limit reached. -/
def Exceeds (r : Run) : Prop :=
  ∃ cursor, r.driver = .turning cursor ∧ ∃ limit ∈ r.enumerator.pageLimit,
    limit ≤ r.pages

theorem unlimited_turn {cursor : Option String}
    (hd : r.driver = .turning cursor) (h : ¬r.Exceeds) :
    (r.turn cursor).unlimited = r.unlimited.turn cursor := by
  have hbelow : r.enumerator.pageLimit.filter (· ≤ r.pages) = none := by
    simp only [Option.filter_eq_none_iff, decide_eq_true_eq]
    exact fun limit hlimit hle => h ⟨cursor, hd, limit, hlimit, hle⟩
  have hnone : r.unlimited.enumerator.pageLimit.filter (· ≤ r.unlimited.pages) =
      none := rfl
  have hc : r.unlimited.isCancelled = r.isCancelled := rfl
  unfold turn
  rw [hbelow, hnone]
  dsimp only
  rw [hc]
  split
  · exact unlimited_leave r
  · rfl

theorem unlimited_submit (r : Run) (x : String) (items : List String)
    (next : Option String) :
    (r.submit x items next).unlimited = r.unlimited.submit x items next := by
  simp only [submit, apply_ite unlimited, unlimited_leave]
  rfl

theorem unlimited_drive (h : ¬r.Exceeds) :
    r.drive.unlimited = r.unlimited.drive := by
  have hd : r.unlimited.driver = r.driver := rfl
  unfold drive
  rw [hd]
  split
  · rename_i hat
    exact unlimited_turn hat h
  · rw [apply_ite unlimited, unlimited_leave]
    rfl
  · exact unlimited_leave r
  · rfl
  · exact unlimited_submit r _ _ _
  · rw [apply_ite unlimited, apply_ite unlimited, unlimited_leave]
    rfl
  · rw [apply_ite unlimited]
    rfl
  all_goals rfl

theorem unlimited_answer (r : Run) (o : Outcome Page) :
    (r.answer o).unlimited = r.unlimited.answer o := by
  have hd : r.unlimited.driver = r.driver := rfl
  have hc : r.unlimited.isCancelled = r.isCancelled := rfl
  unfold answer
  rw [hd, hc]
  split
  · split
    · rfl
    · cases o with
      | crashed | value => rfl
      | failed err =>
        dsimp only
        rw [unlimited_leave, unlimited_fail]
        rfl
  · rfl

theorem unlimited_drop (r : Run) : r.drop.unlimited = r.unlimited.drop := by
  have hd : r.unlimited.driver = r.driver := rfl
  unfold drop
  rw [hd, ← unlimited_ungrant]
  split <;> rfl

theorem unlimited_workOn (r : Run) (i : Nat) (w : Worker) :
    (r.workOn i w).unlimited = r.unlimited.workOn i w := by
  obtain ⟨x, stage⟩ := w
  have hc : r.unlimited.isCancelled = r.isCancelled := rfl
  cases stage with
  | spawned | stopping | abandoned | finished => rfl
  | looking => simp only [workOn, apply_ite unlimited]; rfl
  | stopped => exact unlimited_finish r i
  | reported o =>
    simp only [workOn, hc]
    split
    · exact unlimited_finish r i
    · cases o with
      | value item => exact unlimited_finish _ i
      | failed err | crashed =>
        exact (unlimited_finish _ i).trans (by rw [unlimited_fail]; rfl)

theorem unlimited_abandon (r : Run) (i : Nat) (w : Worker) :
    (r.abandon i w).unlimited = r.unlimited.abandon i w := by
  obtain ⟨x, stage⟩ := w
  cases stage with
  | spawned | reported | stopped => exact unlimited_finish r i
  | looking | stopping => exact unlimited_release _
  | abandoned | finished => rfl

theorem unlimited_work (r : Run) (i : Nat) :
    (r.work i).unlimited = r.unlimited.work i := by
  have hw : r.unlimited.workers = r.workers := rfl
  have hd : r.unlimited.driver = r.driver := rfl
  unfold work
  rw [hw, hd]
  split
  · rfl
  · split
    · exact unlimited_abandon r i _
    · exact unlimited_workOn r i _

/-- An action does the same without the page limit, unless the driver exceeds
that. -/
theorem unlimited_act (h : ¬r.Exceeds) (a : Action) :
    (r.act a).unlimited = r.unlimited.act a := by
  have hw : r.unlimited.workers = r.workers := rfl
  cases a with
  | drive => exact unlimited_drive h
  | answer o => exact unlimited_answer r o
  | work i => exact unlimited_work r i
  | report i o =>
    show (r.report i o).unlimited = r.unlimited.report i o
    unfold report
    rw [hw]
    split <;> rfl
  | unwind i =>
    show (r.unwind i).unlimited = r.unlimited.unwind i
    unfold unwind
    rw [hw]
    split <;> rfl
  | cancel g => rfl
  | drop => exact unlimited_drop r

/-! ## Pages that end within a limit -/

/-- The pages received are the first ones of a listing that ends within a
limit. -/
def EndsBy (limit : Nat) (r : Run) : Prop :=
  ∃ pages, r.received <+: pages ∧ pages.length ≤ limit ∧
    ∃ p ∈ pages.getLast?, p.isLast = true

/-- Pages are the first ones of a listing when those are that were received
later. -/
theorem EndsBy.of_grows (h : t.EndsBy limit)
    (hgrows : r.received <+: t.received) : r.EndsBy limit := by
  obtain ⟨pages, hpages, hlisting⟩ := h
  exact ⟨pages, hgrows.trans hpages, hlisting⟩

/-- A driver whose pages end within the page limit never finds that reached. -/
theorem Reaches.not_exceeds (h : (start e signals caller).Reaches r)
    (hlimit : e.pageLimit = some limit) (hends : r.EndsBy limit) :
    ¬r.Exceeds := by
  rintro ⟨cursor, hd, n, hn, hle⟩
  rw [h.enumerator, hlimit] at hn
  obtain rfl := Option.mem_some.1 hn
  obtain ⟨pages, hgrows, hwithin, p, hp, hlast⟩ := hends
  have hcounted := h.pages_eq (.inl ⟨cursor, hd⟩)
  obtain rfl : r.received = pages := hgrows.eq_of_length_le (by omega)
  have hcloses := h.closes
  simp only [Closes, hd] at hcloses
  rw [hcloses p hp] at hlast
  cases hlast

/-- Over pages that end within the page limit, actions do the same without
it. -/
theorem Reaches.unlimited_after (h : (start e signals caller).Reaches r)
    (hlimit : e.pageLimit = some limit)
    (hends : (r.unlimited.after actions).EndsBy limit) :
    (r.after actions).unlimited = r.unlimited.after actions := by
  induction actions generalizing r with
  | nil => rfl
  | cons a actions ih =>
    have hbefore : r.EndsBy limit :=
      hends.of_grows (reaches_after r.unlimited (a :: actions)).received_grows
    have hact := unlimited_act (h.not_exceeds hlimit hbefore) a
    have hsame : r.unlimited.after (a :: actions) =
        (r.act a).unlimited.after actions := by
      rw [hact]
      rfl
    rw [hsame] at hends ⊢
    exact ih (h.trans (reaches_act r a)) hends

end Run

namespace RunScene

variable {ω φ κ : Type} {remote : Remote ω φ κ} {s : RunScene ω φ κ}
  {e : Enumerator} {signals : Signals} {caller : Cancellation} {limit : Nat}

/-- The scene with its run without a page limit. -/
def unlimited (s : RunScene ω φ κ) : RunScene ω φ κ :=
  { s with run := s.run.unlimited }

@[simp] theorem run_unlimited (s : RunScene ω φ κ) :
    s.unlimited.run = s.run.unlimited := rfl

/-! ## Steps -/

theorem unlimited_act (h : ¬s.run.Exceeds) (a : Run.Action) :
    (s.act a).unlimited = s.unlimited.act a := by
  show ({ s with run := (s.run.act a).unlimited } : RunScene ω φ κ) = _
  rw [Run.unlimited_act h]
  rfl

theorem unlimited_dropFetch (remote : Remote ω φ κ) (s : RunScene ω φ κ) :
    (s.dropFetch remote).unlimited = s.unlimited.dropFetch remote := by
  have hfetch : s.unlimited.fetch = s.fetch := rfl
  unfold dropFetch
  rw [hfetch]
  split <;> rfl

theorem unlimited_drive (h : ¬s.run.Exceeds) :
    (s.drive remote).unlimited = s.unlimited.drive remote := by
  have hd : (s.unlimited.act .drive).run.driver =
      (s.act .drive).run.driver := by
    rw [← unlimited_act h]
    rfl
  unfold RunScene.drive
  dsimp only
  rw [hd, ← unlimited_act h]
  split
  · rfl
  · exact unlimited_dropFetch remote _

theorem unlimited_fetchTurn (h : ¬s.run.Exceeds) (task : φ) :
    (s.fetchTurn remote task).unlimited =
      s.unlimited.fetchTurn remote task := by
  have hworld : s.unlimited.world = s.world := rfl
  have hsituation : s.unlimited.situation = s.situation := rfl
  unfold fetchTurn
  rw [hworld, hsituation]
  split
  · rfl
  · rename_i target _ _
    cases target <;> rfl
  · rename_i world answer _
    exact unlimited_act (s := { s with world := world, fetch := none }) h
      (.answer answer)

theorem unlimited_driverStep (h : ¬s.run.Exceeds) :
    (s.driverStep remote).unlimited = s.unlimited.driverStep remote := by
  have hready : s.unlimited.run.driverReady = s.run.driverReady := rfl
  have hfetch : s.unlimited.fetch = s.fetch := rfl
  unfold driverStep
  rw [hready, hfetch]
  split
  · exact unlimited_drive h
  · split
    · exact unlimited_fetchTurn h _
    · rfl

theorem unlimited_lookupTurn (h : ¬s.run.Exceeds) (i : Nat) (task : κ) :
    (s.lookupTurn remote i task).unlimited =
      s.unlimited.lookupTurn remote i task := by
  have hworld : s.unlimited.world = s.world := rfl
  have hsituation : s.unlimited.situation = s.situation := rfl
  unfold lookupTurn
  rw [hworld, hsituation]
  split
  · rfl
  · rename_i target _ _
    cases target <;> rfl
  · rename_i world report _
    exact unlimited_act (s := { s with world := world }.endLookup i) h
      (.report i report)

theorem unlimited_unwind (h : ¬s.run.Exceeds) (i : Nat) :
    (s.unwind remote i).unlimited = s.unlimited.unwind remote i := by
  have hlookup : s.unlimited.lookup? i = s.lookup? i := rfl
  unfold RunScene.unwind
  rw [hlookup]
  split
  · exact unlimited_act h (.unwind i)
  · rename_i task _
    exact unlimited_act
      (s := { s with
        world := remote.looking.abandon s.world s.situation task }.endLookup i)
      h (.unwind i)

theorem unlimited_lookupStep (h : ¬s.run.Exceeds) (i : Nat) :
    (s.lookupStep remote i).unlimited = s.unlimited.lookupStep remote i := by
  have hworkers : s.unlimited.run.workers = s.run.workers := rfl
  unfold lookupStep
  rw [hworkers]
  split
  · exact unlimited_lookupTurn h i _
  · exact unlimited_unwind h i
  · exact unlimited_unwind h i
  · rfl

/-- A task does the same without the page limit, unless the driver exceeds
that. -/
theorem unlimited_step (h : ¬s.run.Exceeds) (task : RunTask) :
    (s.step remote task).unlimited = s.unlimited.step remote task := by
  cases task with
  | cancel => rfl
  | driver => exact unlimited_driverStep h
  | giveUp =>
    show (({ s with dropAt := none }.act .drop).dropFetch remote).unlimited = _
    rw [unlimited_dropFetch]
    exact congrArg (dropFetch remote)
      (unlimited_act (s := { s with dropAt := none }) h .drop)
  | worker i => exact unlimited_act h (.work i)
  | lookup i => exact unlimited_lookupStep h i

/-! ## Rehearsals -/

/-- Over pages that end within the page limit, a rehearsal goes the same way
without it. -/
theorem unlimited_run (steps : Nat) (queue : List RunTask)
    (hs : (Run.start e signals caller).Reaches s.run)
    (hlimit : e.pageLimit = some limit)
    (hends : ((play remote).run steps queue s.unlimited).state.run.EndsBy
      limit) :
    ((play remote).run steps queue s).state.unlimited =
      ((play remote).run steps queue s.unlimited).state := by
  have hover (s : RunScene ω φ κ) :
      (play remote).isOver s.unlimited = (play remote).isOver s :=
    rfl
  induction steps generalizing queue s with
  | zero => rw [Play.state_run_zero, Play.state_run_zero]
  | succ steps ih =>
    have hreach : (play remote).Reaches s.unlimited
        ((play remote).run (steps + 1) queue s.unlimited).state :=
        Play.reaches_run _ _ _ _
    have hbefore : s.run.EndsBy limit :=
      hends.of_grows (reaches_run hreach).received_grows
    have hexceeds := hs.not_exceeds hlimit hbefore
    have hline : (play remote).line queue s.unlimited =
        (play remote).line queue s := rfl
    have hdue : (play remote).due s.unlimited = (play remote).due s := rfl
    have hstep (task : RunTask) : (play remote).step s.unlimited task =
        ((play remote).step s task).unlimited :=
        (unlimited_step hexceeds task).symm
    have hadvance (unit : Nat) : (play remote).advance s.unlimited unit =
        ((play remote).advance s unit).unlimited := rfl
    unfold Play.run at hends ⊢
    simp only [hover, hline, hdue, hstep, hadvance] at hends ⊢
    cases hend : (play remote).isOver s with
    | true => rfl
    | false =>
      simp only [hend, Bool.false_eq_true, if_false] at hends ⊢
      cases hl : (play remote).line queue s with
      | cons task rest =>
        simp only [hl] at hends ⊢
        exact ih (task :: rest) (hs.trans (reaches_step remote s task)) hends
      | nil =>
        cases hd : (play remote).due s with
        | none => rfl
        | some unit =>
          simp only [hl, hd] at hends ⊢
          exact ih [] hs hends

end RunScene

end CloudAccess
