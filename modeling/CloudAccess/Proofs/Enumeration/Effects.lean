import CloudAccess.Enumeration.Run

/-!
# What an action does to a run

The statements about runs follow one step at a time.  This module says once
what a step can do, so that no other module opens the step functions again.

* `fail_eq`, `leave_eq` and `release_eq` write the three operations that
  branch as one update of the run each.
* `Enabled` says when an action applies.
* `Effect` lists what an action does, with one constructor for each way in
  which the driver, a worker or a lookup can move, and the facts under which
  it does.  `effect_act` proves the list complete.
-/

namespace CloudAccess.Run

/-! ## The operations that branch -/

/-- Only the first failure is kept and reported; each one cancels the run. -/
theorem fail_eq (r : Run) (e : EnumerationError) (event : Option Event) :
    r.fail e event =
      { r with
        firstError := some (r.firstError.getD e)
        events := r.events ++ (if r.firstError.isNone then event.toList else [])
        signals := r.signals.cancel r.handle } := by
  unfold fail
  cases h : r.firstError <;> simp [cancel, h]

theorem ungrant_eq (r : Run) :
    r.ungrant =
      { r with
        granted := false
        free := r.free + (if r.granted then 1 else 0) } := by
  obtain ⟨_, _, _, _, _, _, granted, _⟩ := r
  cases granted <;> rfl

/-- A driver that ends paging gives back the permit that it was granted. -/
theorem leave_eq (r : Run) :
    r.leave =
      { r with
        driver := .draining
        granted := false
        free := r.free + (if r.granted then 1 else 0)
        events := r.events ++
          (if r.isCancelled then [.runDraining r.workers.length]
            else []) } := by
  unfold leave
  rw [ungrant_eq]
  cases h : r.isCancelled <;> simp_all [isCancelled, emit]

/-- Whether the driver waits for a permit. -/
def isQueueing (r : Run) : Bool :=
  match r.driver with
  | .queueing _ _ _ => true
  | _ => false

/-- The reference that waits for a permit. -/
def awaited (r : Run) : List String :=
  match r.driver with
  | .queueing x _ _ => [x]
  | _ => []

/-- A permit that is given back goes to the driver when that waits for one. -/
theorem release_eq (r : Run) :
    r.release =
      { r with
        granted := r.granted || r.isQueueing
        free := r.free + (if r.isQueueing && !r.granted then 0 else 1) } := by
  obtain ⟨_, _, _, _, driver, _, granted, _⟩ := r
  cases driver <;> cases granted <;> rfl

@[simp] theorem isCancelled_leave (r : Run) :
    r.leave.isCancelled = r.isCancelled := by
  rw [leave_eq]
  rfl

@[simp] theorem isCancelled_release (r : Run) :
    r.release.isCancelled = r.isCancelled := by
  rw [release_eq]
  rfl

@[simp] theorem isCancelled_finish (r : Run) (i : Nat) :
    (r.finish i).isCancelled = r.isCancelled := by
  rw [finish, isCancelled_release]
  rfl

/-- A failure leaves the run cancelled. -/
@[simp] theorem isCancelled_fail (r : Run) (e : EnumerationError)
    (event : Option Event) : (r.fail e event).isCancelled = true := by
  rw [fail_eq]
  exact Cancellation.isCancelled_cancel_self r.handle r.signals

/-! ## When an action applies -/

/-- An action applies when the driver, the worker or the lookup that it moves
is at a point where it can move. -/
def Enabled (r : Run) : Action → Prop
  | .drive => r.driverReady = true
  | .answer _ => (∃ cursor, r.driver = .fetching cursor) ∧ r.isCancelled = false
  | .work i => r.workerReady i = true
  | .report i _ => ∃ x, r.workers[i]? = some ⟨x, .looking⟩
  | .unwind i =>
    ∃ x, r.workers[i]? = some ⟨x, .stopping⟩ ∨
      r.workers[i]? = some ⟨x, .abandoned⟩
  | .cancel _ => True
  | .drop => r.driver.isOver = false

/-! ## What an action does -/

/-- The driver looks for a cancellation in three places: before it asks for a
page, while it waits for one, and while it waits for a permit. -/
def canQuit (r : Run) : Bool :=
  match r.driver with
  | .turning _ => (r.enumerator.pageLimit.filter (· ≤ r.pages)).isNone
  | .fetching _ | .queueing _ _ _ => true
  | _ => false

/-- What an action does to a run. -/
inductive Effect (r : Run) : Action → Run → Prop
  | idle {a : Action} (hidle : ¬r.Enabled a) : Effect r a r
  -- the driver
  | exceed {cursor : Option String} {limit : Nat}
      (hd : r.driver = .turning cursor)
      (hlimit : r.enumerator.pageLimit = some limit)
      (hpages : limit ≤ r.pages) :
      Effect r .drive (r.fail (.pageLimitExceeded limit) none).leave
  | ask {cursor : Option String} (hd : r.driver = .turning cursor)
      (hlimit : ∀ limit ∈ r.enumerator.pageLimit, r.pages < limit)
      (hc : r.isCancelled = false) :
      Effect r .drive { r with
        driver := .fetching cursor, asked := r.asked ++ [cursor] }
  | quit (hd : r.canQuit = true) (hc : r.isCancelled = true) :
      Effect r .drive r.leave
  | complete (hd : r.driver = .submitting [] none) : Effect r .drive r.leave
  | next {cursor : String} (hd : r.driver = .submitting [] (some cursor)) :
      Effect r .drive { r with driver := .turning (some cursor) }
  | pass {x : String} {items : List String} {next : Option String}
      (hd : r.driver = .submitting (x :: items) next) (hx : x ∈ r.submitted) :
      Effect r .drive { r with driver := .submitting items next }
  | refuse {x : String} {items : List String} {next : Option String}
      (hd : r.driver = .submitting (x :: items) next) (hx : x ∉ r.submitted)
      (hc : r.isCancelled = true) :
      Effect r .drive ({ r with submitted := r.submitted ++ [x] } : Run).leave
  | employ {x : String} {items : List String} {next : Option String}
      (hd : r.driver = .submitting (x :: items) next) (hx : x ∉ r.submitted)
      (hc : r.isCancelled = false) (hfree : 0 < r.free) :
      Effect r .drive
        ({ r with submitted := r.submitted ++ [x], free := r.free - 1 }.spawn
          x items next)
  | queue {x : String} {items : List String} {next : Option String}
      (hd : r.driver = .submitting (x :: items) next) (hx : x ∉ r.submitted)
      (hc : r.isCancelled = false) (hfree : r.free = 0) :
      Effect r .drive
        { r with
          submitted := r.submitted ++ [x]
          driver := .queueing x items next }
  | grant {x : String} {items : List String} {next : Option String}
      (hd : r.driver = .queueing x items next) (hc : r.isCancelled = false)
      (hg : r.granted = true) :
      Effect r .drive ({ r with granted := false }.spawn x items next)
  | conclude (hd : r.driver = .draining) (hq : r.isQuiet = true) :
      Effect r .drive r.conclude
  -- the answer to a fetch
  | fetchCrashed {cursor : Option String} (hd : r.driver = .fetching cursor)
      (hc : r.isCancelled = false) :
      Effect r (.answer .crashed) { r with driver := .crashed }
  | fetchFailed {cursor : Option String} {e : RemoteError}
      (hd : r.driver = .fetching cursor) (hc : r.isCancelled = false) :
      Effect r (.answer (.failed e))
        (({ r with pages := r.pages + 1 } : Run).fail
          (.pageFetch (r.pages + 1) e) none).leave
  | fetched {cursor : Option String} {p : Page}
      (hd : r.driver = .fetching cursor) (hc : r.isCancelled = false) :
      Effect r (.answer (.value p))
        { r with
          pages := r.pages + 1
          events := r.events ++ [.pageFetched (r.pages + 1) p.items.length]
          driver := .submitting p.items p.nextCursor
          received := r.received ++ [p] }
  -- the workers
  | look {i : Nat} {x : String} (hw : r.workers[i]? = some ⟨x, .spawned⟩)
      (hg : r.driver.isGone = false) (hc : r.isCancelled = false) :
      Effect r (.work i) (r.setStage i .looking)
  | stop {i : Nat} {w : Worker} (hw : r.workers[i]? = some w)
      (hs : w.stage = .spawned ∨ w.stage = .looking)
      (hg : r.driver.isGone = false) (hc : r.isCancelled = true) :
      Effect r (.work i) (r.setStage i .stopping)
  | finish {i : Nat} {w : Worker} (hw : r.workers[i]? = some w)
      (hs : w.stage = .spawned ∨ (∃ o, w.stage = .reported o) ∨
        w.stage = .stopped)
      (hwhy : r.driver.isGone = true ∨ r.isCancelled = true ∨
        w.stage = .stopped) :
      Effect r (.work i) (r.finish i)
  | accept {i : Nat} {x : String} {item : EnrichedItem}
      (hw : r.workers[i]? = some ⟨x, .reported (.value item)⟩)
      (hg : r.driver.isGone = false) (hc : r.isCancelled = false) :
      Effect r (.work i)
        (({ r with found := r.found ++ item.option.toList } : Run).finish i)
  | lookupFailed {i : Nat} {x : String} {e : RemoteError}
      (hw : r.workers[i]? = some ⟨x, .reported (.failed e)⟩)
      (hg : r.driver.isGone = false) (hc : r.isCancelled = false) :
      Effect r (.work i) ((r.fail (.enrichment x e)
        (some .enrichmentFailed)).finish i)
  | lookupCrashed {i : Nat} {x : String}
      (hw : r.workers[i]? = some ⟨x, .reported .crashed⟩)
      (hg : r.driver.isGone = false) (hc : r.isCancelled = false) :
      Effect r (.work i) ((r.fail .workerPanicked
        (some .enricherPanicked)).finish i)
  | abandon {i : Nat} {w : Worker} (hw : r.workers[i]? = some w)
      (hs : w.stage = .looking ∨ w.stage = .stopping)
      (hg : r.driver.isGone = true) :
      Effect r (.work i) (r.setStage i .abandoned).release
  -- the lookups
  | report {i : Nat} {x : String} {o : Outcome EnrichedItem}
      (hw : r.workers[i]? = some ⟨x, .looking⟩) :
      Effect r (.report i o) (r.setStage i (.reported o))
  | unwindStopping {i : Nat} {x : String}
      (hw : r.workers[i]? = some ⟨x, .stopping⟩) :
      Effect r (.unwind i) (r.setStage i .stopped)
  | unwindAbandoned {i : Nat} {x : String}
      (hw : r.workers[i]? = some ⟨x, .abandoned⟩) :
      Effect r (.unwind i) (r.setStage i .finished)
  -- what comes from outside
  | cancel {h : Cancellation} : Effect r (.cancel h) (r.cancel h)
  | drop (hd : r.driver.isOver = false) :
      Effect r .drop { r.ungrant with driver := .dropped }

/-! ## The list is complete -/

theorem effect_turn {r : Run} {cursor : Option String}
    (hd : r.driver = .turning cursor) : r.Effect .drive (r.turn cursor) := by
  unfold turn
  split
  · rename_i limit hlimit
    simp only [Option.filter_eq_some_iff, decide_eq_true_eq] at hlimit
    exact .exceed hd hlimit.1 hlimit.2
  · rename_i hlimit
    split
    · rename_i hc
      exact .quit (by simp [canQuit, hd, hlimit]) hc
    · rename_i hc
      refine .ask hd (fun limit hin => ?_) (by simpa using hc)
      simp only [Option.filter_eq_none_iff, decide_eq_true_eq] at hlimit
      exact Nat.lt_of_not_le (hlimit limit hin)

theorem effect_submit {r : Run} {x : String} {items : List String}
    {next : Option String} (hd : r.driver = .submitting (x :: items) next) :
    r.Effect .drive (r.submit x items next) := by
  unfold submit
  split
  · rename_i hx
    exact .pass hd (by simpa using hx)
  · rename_i hx
    have hx : x ∉ r.submitted := by simpa using hx
    dsimp only
    split
    · rename_i hc
      exact .refuse hd hx hc
    · rename_i hc
      have hc : r.isCancelled = false := by simpa [isCancelled] using hc
      split
      · rename_i hfree
        exact .employ hd hx hc hfree
      · rename_i hfree
        exact .queue hd hx hc (Nat.eq_zero_of_not_pos hfree)

theorem effect_drive (r : Run) : r.Effect .drive r.drive := by
  unfold drive
  split
  · rename_i cursor hd
    exact effect_turn hd
  · rename_i hd
    split
    · rename_i hc
      exact .quit (by simp [canQuit, hd]) hc
    · rename_i hc
      exact .idle (by simpa [Enabled, driverReady, hd] using hc)
  · rename_i hd
    exact .complete hd
  · rename_i hd
    exact .next hd
  · rename_i hd
    exact effect_submit hd
  · rename_i hd
    split
    · rename_i hc
      exact .quit (by simp [canQuit, hd]) hc
    · rename_i hc
      split
      · rename_i hg
        exact .grant hd (by simpa using hc) hg
      · rename_i hg
        exact .idle (by simp [Enabled, driverReady, hd, hc, hg])
  · rename_i hd
    split
    · rename_i hq
      exact .conclude hd hq
    · rename_i hq
      exact .idle (by simpa [Enabled, driverReady, hd] using hq)
  all_goals
    rename_i hd
    exact .idle (by simp [Enabled, driverReady, hd])

theorem effect_answer (r : Run) (a : Outcome Page) :
    r.Effect (.answer a) (r.answer a) := by
  unfold answer
  split
  · rename_i cursor hd
    split
    · rename_i hc
      exact .idle (by simp [Enabled, hc])
    · rename_i hc
      have hc : r.isCancelled = false := by simpa using hc
      cases a with
      | crashed => exact .fetchCrashed hd hc
      | failed e => exact .fetchFailed hd hc
      | value p => exact .fetched hd hc
  · rename_i hd
    exact .idle (fun h => h.1.elim hd)

theorem effect_workOn {r : Run} {i : Nat} {w : Worker}
    (hw : r.workers[i]? = some w) (hg : r.driver.isGone = false) :
    r.Effect (.work i) (r.workOn i w) := by
  obtain ⟨x, stage⟩ := w
  cases hc : r.isCancelled with
  | true =>
    cases stage with
    | spawned => simpa [workOn, hc] using Effect.stop hw (.inl rfl) hg hc
    | looking => simpa [workOn, hc] using Effect.stop hw (.inr rfl) hg hc
    | reported o =>
      simpa [workOn, hc] using Effect.finish hw (.inr (.inl ⟨o, rfl⟩))
        (.inr (.inl hc))
    | stopped => exact .finish hw (.inr (.inr rfl)) (.inr (.inr rfl))
    | stopping => exact .idle (by simp [Enabled, workerReady, hw, hg])
    | abandoned | finished => exact .idle (by simp [Enabled, workerReady, hw])
  | false =>
    cases stage with
    | spawned => simpa [workOn, hc] using Effect.look hw hg hc
    | looking =>
      simpa [workOn, hc] using Effect.idle
        (by simp [Enabled, workerReady, hw, hc, hg])
    | reported o =>
      simp only [workOn, hc]
      cases o with
      | value item => exact .accept hw hg hc
      | failed e => exact .lookupFailed hw hg hc
      | crashed => exact .lookupCrashed hw hg hc
    | stopped => exact .finish hw (.inr (.inr rfl)) (.inr (.inr rfl))
    | stopping => exact .idle (by simp [Enabled, workerReady, hw, hg])
    | abandoned | finished => exact .idle (by simp [Enabled, workerReady, hw])

theorem effect_abandon {r : Run} {i : Nat} {w : Worker}
    (hw : r.workers[i]? = some w) (hg : r.driver.isGone = true) :
    r.Effect (.work i) (r.abandon i w) := by
  obtain ⟨x, stage⟩ := w
  cases stage with
  | spawned => exact .finish hw (.inl rfl) (.inl hg)
  | reported o => exact .finish hw (.inr (.inl ⟨o, rfl⟩)) (.inl hg)
  | stopped => exact .finish hw (.inr (.inr rfl)) (.inl hg)
  | looking => exact .abandon hw (.inl rfl) hg
  | stopping => exact .abandon hw (.inr rfl) hg
  | abandoned | finished => exact .idle (by simp [Enabled, workerReady, hw])

theorem effect_work (r : Run) (i : Nat) : r.Effect (.work i) (r.work i) := by
  unfold work
  split
  · rename_i hw
    exact .idle (by simp [Enabled, workerReady, hw])
  · rename_i w hw
    split
    · rename_i hg
      exact effect_abandon hw hg
    · rename_i hg
      exact effect_workOn hw (by simpa using hg)

/-- Every action has one of the listed effects. -/
theorem effect_act (r : Run) (a : Action) : r.Effect a (r.act a) := by
  cases a with
  | drive => exact effect_drive r
  | answer a => exact effect_answer r a
  | work i => exact effect_work r i
  | report i o =>
    show r.Effect _ (r.report i o)
    unfold report
    split
    · rename_i hw
      exact .report hw
    · rename_i hw
      exact .idle (fun ⟨x, h⟩ => hw x h)
  | unwind i =>
    show r.Effect _ (r.unwind i)
    unfold unwind
    split
    · rename_i hw
      exact .unwindStopping hw
    · rename_i hw
      exact .unwindAbandoned hw
    · rename_i hstopping habandoned
      exact .idle (fun ⟨x, h⟩ => h.elim (hstopping x) (habandoned x))
  | cancel h => exact .cancel
  | drop =>
    show r.Effect _ r.drop
    unfold drop
    split
    · rename_i hd
      exact .idle (by simp [Enabled, hd])
    · rename_i hd
      exact .drop (by simpa using hd)

/-! ## What no effect changes

The bounds and the handles stay what they were; a cancelled run stays
cancelled; and what belongs to the driver is changed by the driver alone. -/

variable {r t : Run} {a : Action}

/-- A run keeps its bounds, the handle of its caller and its own. -/
theorem Effect.fixed (h : r.Effect a t) :
    t.enumerator = r.enumerator ∧ t.caller = r.caller ∧
    t.handle = r.handle := by
  cases h <;>
    simp [fail_eq, leave_eq, release_eq, ungrant_eq, Run.finish,
      setStage, spawn, Run.conclude, emit, Run.cancel]

/-- The signals change with the first error, or by a cancellation from
outside. -/
theorem Effect.signals (h : r.Effect a t) :
    (t.signals = r.signals ∧ t.firstError = r.firstError) ∨
      (t.signals = r.signals.cancel r.handle ∧ t.firstError.isSome = true) ∨
      ∃ g, a = .cancel g ∧ t.signals = r.signals.cancel g ∧
        t.firstError = r.firstError := by
  cases h <;>
    simp [fail_eq, leave_eq, release_eq, ungrant_eq, Run.finish,
      setStage, spawn, Run.conclude, emit, Run.cancel]

/-- A signal that is raised stays raised. -/
theorem Effect.raised (h : r.Effect a t) {k : Nat} (hk : k ∈ r.signals.raised) :
    k ∈ t.signals.raised := by
  rcases h.signals with ⟨hs, _⟩ | ⟨hs, _⟩ | ⟨g, _, hs, _⟩ <;> rw [hs]
  · exact hk
  · exact Signals.mem_raised_cancel.2 (.inr hk)
  · exact Signals.mem_raised_cancel.2 (.inr hk)

/-- A cancelled run stays cancelled. -/
theorem Effect.isCancelled (h : r.Effect a t) (hc : r.isCancelled = true) :
    t.isCancelled = true := by
  unfold Run.isCancelled at hc ⊢
  rw [h.fixed.2.2]
  rw [Cancellation.isCancelled_iff] at hc ⊢
  rcases hc with hc | ⟨k, hk, hc⟩
  · exact .inl (h.raised hc)
  · exact .inr ⟨k, hk, h.raised hc⟩

/-- A run that is not cancelled was not cancelled before. -/
theorem Effect.calm (h : r.Effect a t) (hc : t.isCancelled = false) :
    r.isCancelled = false :=
  Bool.eq_false_iff.2 fun hbefore => by simp [h.isCancelled hbefore] at hc

/-- Whether an action is one of the driver, or ends it. -/
def Action.isDrivers : Action → Bool
  | .drive | .answer _ | .drop => true
  | _ => false

/-- The other actions leave alone what belongs to the driver. -/
theorem Effect.paging (h : r.Effect a t) (ha : a.isDrivers = false) :
    t.driver = r.driver ∧ t.received = r.received ∧ t.submitted = r.submitted ∧
      t.pages = r.pages ∧ t.asked = r.asked := by
  cases h <;> simp [Action.isDrivers] at ha <;>
    simp [fail_eq, release_eq, Run.finish, setStage, Run.cancel]

/-- The driver changes nothing of the workers, and adds to them: a worker for
the reference that it submits, or for the one that waited. -/
theorem Effect.staff (h : r.Effect a t) (ha : a.isDrivers = true) :
    t.workers = r.workers ∨
      ∃ x, (x ∈ t.submitted ∨ x ∈ r.awaited) ∧
        t.workers = r.workers ++ [⟨x, .spawned⟩] := by
  cases h with
  | employ => exact .inr ⟨_, .inl (by simp [spawn]), rfl⟩
  | grant hd => exact .inr ⟨_, .inr (by simp [awaited, hd]), rfl⟩
  | _ =>
    simp [Action.isDrivers] at ha <;>
      simp [fail_eq, leave_eq, ungrant_eq, Run.conclude, emit]

/-- A reference is submitted only when it was not submitted before. -/
theorem Effect.submits (h : r.Effect a t) :
    t.submitted = r.submitted ∨ ∃ x, x ∉ r.submitted ∧
      t.submitted = r.submitted ++ [x] := by
  cases h with
  | refuse _ hx | employ _ hx | queue _ hx =>
    exact .inr ⟨_, hx, by simp [leave_eq, spawn]⟩
  | _ =>
    simp [fail_eq, leave_eq, release_eq, ungrant_eq, Run.finish,
      setStage, spawn, Run.conclude, emit, Run.cancel]

/-- A reference that waits for a permit has waited before or is submitted. -/
theorem Effect.awaited (h : r.Effect a t) {x : String} (hx : x ∈ t.awaited) :
    x ∈ r.awaited ∨ x ∈ t.submitted := by
  cases h with
  | queue =>
    simp only [Run.awaited, List.mem_singleton] at hx
    exact .inr (by simp [hx])
  | _ =>
    simp_all [Run.awaited, fail_eq, leave_eq, release_eq, Run.finish,
      setStage, spawn, Run.conclude, emit, Run.cancel]

/-- The others move at most one worker, which gets a report only from a
report. -/
theorem Effect.moved (h : r.Effect a t) (ha : a.isDrivers = false) :
    t.workers = r.workers ∨
      ∃ i w stage, r.workers[i]? = some w ∧
        t.workers = (r.setStage i stage).workers ∧
        ∀ o, stage = .reported o → a = .report i o := by
  cases h with
  | idle | cancel => exact .inl rfl
  | look hw | stop hw | unwindStopping hw | unwindAbandoned hw =>
    exact .inr ⟨_, _, _, hw, rfl, by simp⟩
  | finish hw | accept hw | lookupFailed hw | lookupCrashed hw =>
    refine .inr ⟨_, _, .finished, hw, ?_, by simp⟩
    simp [Run.finish, release_eq, fail_eq, setStage]
  | abandon hw =>
    refine .inr ⟨_, _, .abandoned, hw, ?_, by simp⟩
    simp [release_eq, setStage]
  | report hw => exact .inr ⟨_, _, _, hw, rfl, by simp⟩
  | _ => simp [Action.isDrivers] at ha

/-- A driver that has come to its end stays there. -/
theorem Effect.isOver (h : r.Effect a t) (hd : r.driver.isOver = true) :
    t.driver = r.driver := by
  cases h with
  | quit hquit => cases hat : r.driver <;> simp_all [Driver.isOver, canQuit]
  | _ =>
    simp_all [Driver.isOver, release_eq, fail_eq, Run.finish,
      setStage, Run.cancel]

/-- A driver that is gone stays so. -/
theorem Effect.isGone (h : r.Effect a t) (hg : r.driver.isGone = true) :
    t.driver.isGone = true := by
  have hover : r.driver.isOver = true := by
    cases hd : r.driver <;> simp_all [Driver.isGone, Driver.isOver]
  rw [h.isOver hover, hg]

/-- A driver returns only by concluding the run. -/
theorem Effect.returned (h : r.Effect a t)
    {result : Except EnumerationError ResultSet}
    (hd : t.driver = .returned result) :
    r.driver = .returned result ∨ r.isQuiet = true ∧ t = r.conclude := by
  cases h with
  | conclude _ hq => exact .inr ⟨hq, rfl⟩
  | _ =>
    simp_all [fail_eq, leave_eq, release_eq, Run.finish, setStage,
      spawn, Run.cancel]

/-- A worker that is moved to a stage stands between the same workers as
before. -/
theorem workers_setStage {i : Nat} {w : Worker} (hw : r.workers[i]? = some w) :
    ∃ before after, r.workers = before ++ w :: after ∧
      ∀ stage,
        (r.setStage i stage).workers =
          before ++ { w with stage := stage } :: after := by
  obtain ⟨hi, rfl⟩ := List.getElem?_eq_some_iff.1 hw
  refine ⟨r.workers.take i, r.workers.drop (i + 1), ?_, fun stage => ?_⟩
  · rw [List.getElem_cons_drop hi, List.take_append_drop]
  · exact List.modify_eq_take_cons_drop hi

/-- A worker that is moved counts as what it has become. -/
theorem countP_setStage {i : Nat} {w : Worker} (p : Worker → Bool)
    (stage : Worker.Stage) (hw : r.workers[i]? = some w) :
    (r.setStage i stage).workers.countP p + (if p w then 1 else 0) =
      r.workers.countP p + (if p { w with stage := stage } then 1 else 0) := by
  obtain ⟨before, after, hsplit, hmoved⟩ := workers_setStage hw
  rw [hmoved, hsplit]
  simp only [List.countP_append, List.countP_cons]
  omega

/-- After a worker was moved, the workers are those from before and the moved
one. -/
theorem mem_setStage {i : Nat} {w v : Worker} {stage : Worker.Stage}
    (hw : r.workers[i]? = some w) (hv : v ∈ (r.setStage i stage).workers) :
    v ∈ r.workers ∨ v = { w with stage := stage } := by
  obtain ⟨before, after, hsplit, hmoved⟩ := workers_setStage hw
  simp only [hmoved, List.mem_append, List.mem_cons] at hv
  simp only [hsplit, List.mem_append, List.mem_cons]
  rcases hv with hv | rfl | hv
  · exact .inl (.inl hv)
  · exact .inr rfl
  · exact .inl (.inr (.inr hv))

/-- A worker after an effect was there before, or is new, or has been moved. -/
theorem Effect.mem_workers (h : r.Effect a t) {v : Worker}
    (hv : v ∈ t.workers) :
    v ∈ r.workers ∨
      (v.stage = .spawned ∧ (v.reference ∈ t.submitted ∨
        v.reference ∈ r.awaited)) ∨
      ∃ i w, r.workers[i]? = some w ∧ v.reference = w.reference ∧
        ∀ o, v.stage = .reported o → a = .report i o := by
  cases ha : a.isDrivers with
  | true =>
    rcases h.staff ha with hw | ⟨x, hx, hw⟩ <;> rw [hw] at hv
    · exact .inl hv
    · rw [List.mem_append, List.mem_singleton] at hv
      rcases hv with hv | rfl
      · exact .inl hv
      · exact .inr (.inl ⟨rfl, hx⟩)
  | false =>
    rcases h.moved ha with hw | ⟨i, w, stage, hi, hw, hreport⟩ <;> rw [hw] at hv
    · exact .inl hv
    · rcases mem_setStage hi hv with hv | rfl
      · exact .inl hv
      · exact .inr (.inr ⟨i, w, hi, rfl, hreport⟩)

/-! ## Runs -/

/-- What is kept by every effect holds wherever actions lead. -/
theorem Reaches.keeps {I : Run → Prop} (h : r.Reaches t) (hr : I r)
    (keep : ∀ u v a, I u → u.Effect a v → I v) : I t := by
  refine h.invariant hr fun u v hu hstep => ?_
  obtain ⟨a, rfl⟩ := hstep
  exact keep u _ a hu (u.effect_act a)

/-- A driver that has come to its end stays there wherever actions lead. -/
theorem Reaches.isOver (h : r.Reaches t) (hd : r.driver.isOver = true) :
    t.driver = r.driver :=
  h.keeps (I := fun t => t.driver = r.driver) rfl fun _ _ _ hu he =>
    (he.isOver (by rw [hu]; exact hd)).trans hu

/-- A run begins before its first page, without workers, and with all permits
free. -/
theorem start_eq (e : Enumerator) (signals : Signals) (caller : Cancellation) :
    start e signals caller =
      { enumerator := e
        signals := { signals with count := signals.count + 1 }
        caller := caller
        handle := ⟨signals.count, caller.own :: caller.ancestors⟩
        driver := if e.concurrency ≤ Enumerator.maxPermits then .turning none
          else .crashed
        free := e.concurrency
        events :=
          if e.concurrency ≤ Enumerator.maxPermits
            then [.runStarted e.concurrency] else [] } := by
  unfold start
  dsimp only [Signals.newChild]
  split <;> rfl

end CloudAccess.Run
