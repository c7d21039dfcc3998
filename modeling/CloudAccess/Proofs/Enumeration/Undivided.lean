import CloudAccess.Proofs.Enumeration.Limit

/-!
# A driver that is not interrupted

While it is busy between two pages or with the references on one, the driver of
a run waits for nobody.  Where only one task is carried on at a time, nothing
else happens then.

* `Undivided` says so of a list of actions.
* `Reaches.isBusy_of_full` and `Reaches.drive_of_full` say that the driver of a
  full run is busy and stays so until it looks at the page limit, and
  `exceeds_iff_of_undivided` that a run exceeds its limit exactly when it comes
  to be full while it is not cancelled.
* `RunScene.rehearses` says that a rehearsal carries out such a list of actions
  on its run.
-/

namespace CloudAccess

namespace Run

variable {r t : Run} {a : Action} {actions later : List Action} {e : Enumerator}
  {signals : Signals} {caller : Cancellation} {limit : Nat}

/-- Whether the driver goes on without waiting for anybody. -/
def Driver.isBusy : Driver → Bool
  | turning _ | submitting _ _ => true
  | _ => false

/-- While the driver is busy nothing else happens. -/
def Undivided (r : Run) : List Action → Prop
  | [] => True
  | a :: later =>
    (r.driver.isBusy = true → a = .drive) ∧ (r.act a).Undivided later

theorem undivided_append (actions later : List Action) :
    r.Undivided (actions ++ later) ↔
      r.Undivided actions ∧ (r.after actions).Undivided later := by
  induction actions generalizing r with
  | nil => simp [Undivided, after]
  | cons a actions ih =>
    simp only [List.cons_append, Undivided, ih, and_assoc]
    rfl

/-- A driver that is busy can move. -/
theorem driverReady_of_isBusy (hd : r.driver.isBusy = true) :
    r.driverReady = true := by
  cases hat : r.driver <;> simp [hat, Driver.isBusy] at hd <;>
    simp [driverReady, hat]

/-- A driver becomes busy only in a run that is not cancelled. -/
theorem Effect.calm_of_isBusy (he : r.Effect a t)
    (hmoves : r.driver.isBusy = true → a = .drive)
    (hcalm : r.driver.isBusy = true → r.isCancelled = false)
    (hd : t.driver.isBusy = true) : t.isCancelled = false := by
  cases hdrivers : a.isDrivers with
  | false =>
    rw [(he.paging hdrivers).1] at hd
    rw [hmoves hd] at hdrivers
    cases hdrivers
  | true =>
    cases he with
    | idle => exact hcalm hd
    | next hat | pass hat => exact hcalm (by rw [hat]; rfl)
    | employ _ _ hc | grant _ hc | fetched _ hc => exact hc
    | ask | exceed | quit | complete | refuse | queue | conclude | fetchCrashed
    | fetchFailed
    | drop => simp [leave_eq, Run.conclude, Driver.isBusy] at hd
    | _ => cases hdrivers

/-- So it is after actions in which a busy driver is not interrupted. -/
theorem calm_of_undivided (h : r.Undivided actions)
    (hcalm : r.driver.isBusy = true → r.isCancelled = false)
    (hd : (r.after actions).driver.isBusy = true) :
    (r.after actions).isCancelled = false := by
  induction actions generalizing r with
  | nil => exact hcalm hd
  | cons a actions ih =>
    obtain ⟨hmoves, hlater⟩ := h
    exact ih hlater ((r.effect_act a).calm_of_isBusy hmoves hcalm) hd

/-! ## A full run -/

/-- The driver of a full run that is not cancelled is busy, unless the run was
given up. -/
theorem Reaches.isBusy_of_full (h : (start e signals caller).Reaches r)
    (hfit : e.concurrency ≤ Enumerator.maxPermits)
    (hlimit : limit ∈ e.pageLimit) (hfull : r.Full limit)
    (hc : r.isCancelled = false) (hd : r.driver ≠ .dropped) :
    r.driver.isBusy = true := by
  have hcloses := h.closes
  have hemploys := h.inOrder.2
  cases hat : r.driver with
  | turning | submitting => rfl
  | fetching cursor =>
    have hpages := h.pages_eq (.inr ⟨cursor, hat⟩)
    have hlt := h.limited cursor hat limit (h.enumerator ▸ hlimit)
    have hreceived := hfull.received
    omega
  | queueing x items next =>
    simp only [Employs, hat] at hemploys
    obtain ⟨passed, hcame, hnew, _⟩ := hemploys
    have hin : x ∈ r.employed := by
      simp [hfull.employed, List.mem_eraseDups, hcame.1]
    rw [hcame.2, List.mem_eraseDups] at hin
    exact absurd hin hnew
  | draining | returned =>
    simp only [Closes, hat] at hcloses
    obtain ⟨p, hp, hlast⟩ := hcloses hc
    rw [hfull.goesOn p hp] at hlast
    cases hlast
  | crashed =>
    have hlt := h.received_lt_of_crashed hfit hlimit hat
    have hreceived := hfull.received
    omega
  | dropped => exact absurd hat hd

/-- The next move of the busy driver of a full run leaves the run full, or
exceeds the page limit. -/
theorem Reaches.drive_of_full (h : (start e signals caller).Reaches r)
    (hfull : r.Full limit) (hc : r.isCancelled = false)
    (hd : r.driver.isBusy = true) :
    (∃ cursor, r.driver = .turning cursor) ∨
      (r.act .drive).Full limit ∧ (r.act .drive).isCancelled = false := by
  have hcloses := h.closes
  have hemploys := h.inOrder.2
  have he := r.effect_act .drive
  generalize r.act .drive = t at he ⊢
  -- no reference is left on the page that has no worker
  have hknown {x : String} {items : List String} {next : Option String}
      (hat : r.driver = .submitting (x :: items) next) : x ∈ r.submitted := by
    simp only [Employs, hat] at hemploys
    obtain ⟨passed, hcame, hsub⟩ := hemploys
    rw [hsub, hfull.employed, List.mem_eraseDups, hcame.1]
    simp
  cases he with
  | idle hidle => exact absurd (driverReady_of_isBusy hd) hidle
  | exceed hat | ask hat => exact .inl ⟨_, hat⟩
  | quit _ hquit =>
    rw [hc] at hquit
    cases hquit
  | complete hat =>
    simp only [Closes, hat] at hcloses
    obtain ⟨p, hp, hnext⟩ := hcloses
    have hgoes := hfull.goesOn p hp
    rw [Page.isLast, hnext] at hgoes
    cases hgoes
  | next | pass =>
    exact .inr ⟨⟨hfull.received, hfull.goesOn, hfull.employed, hfull.unfailed⟩,
      hc⟩
  | refuse hat hx | employ hat hx | queue hat hx => exact absurd (hknown hat) hx
  | grant hat | conclude hat => simp [hat, Driver.isBusy] at hd

/-- A full run that is not cancelled goes on to return that it exceeded the page
limit, unless its caller gives it up. -/
theorem Reaches.exceeds_of_undivided (h : (start e signals caller).Reaches r)
    (hfit : e.concurrency ≤ Enumerator.maxPermits)
    (hlimit : limit ∈ e.pageLimit) (hfull : r.Full limit)
    (hc : r.isCancelled = false) (hlater : r.Undivided later)
    (ht : t = r.after later) (hover : t.driver.isOver = true)
    (hkept : t.driver ≠ .dropped) :
    t.driver = .returned (.error (.pageLimitExceeded limit)) := by
  induction later generalizing r with
  | nil =>
    obtain rfl : t = r := ht
    have hbusy := h.isBusy_of_full hfit hlimit hfull hc hkept
    cases hat : t.driver <;>
      simp [hat, Driver.isBusy, Driver.isOver] at hbusy hover
  | cons a later ih =>
    have hreach : r.Reaches t := ht ▸ reaches_after r (a :: later)
    have hpresent : r.driver ≠ .dropped := fun hd =>
      hkept ((hreach.isOver (by rw [hd]; rfl)).trans hd)
    have hbusy := h.isBusy_of_full hfit hlimit hfull hc hpresent
    obtain ⟨hmoves, hlater⟩ := hlater
    obtain rfl := hmoves hbusy
    rcases h.drive_of_full hfull hc hbusy with
      ⟨cursor, hturning⟩ | ⟨hfull', hc'⟩
    · exact h.exceeds_of_full hfit hlimit hturning hfull ht hover hkept
    · exact ih (h.trans (reaches_act r .drive)) hfull' hc' hlater ht

/-- Where its driver is not interrupted, a run within the number of permits that
there can be whose caller was not cancelled returns that it exceeded its page
limit exactly when it comes to be full while it is not cancelled. -/
theorem exceeds_iff_of_undivided (hfit : e.concurrency ≤ Enumerator.maxPermits)
    (hlimit : e.pageLimit = some limit)
    (hc : (start e signals caller).isCancelled = false)
    (hundivided : (start e signals caller).Undivided actions)
    (ht : t = (start e signals caller).after actions)
    (hover : t.driver.isOver = true) (hkept : t.driver ≠ .dropped) (n : Nat) :
    t.driver = .returned (.error (.pageLimitExceeded n)) ↔
      n = limit ∧ ∃ before, before <+: actions ∧
        ((start e signals caller).after before).Full limit ∧
        ((start e signals caller).after before).isCancelled = false := by
  constructor
  · intro hd
    obtain ⟨rfl, before, later, rfl, ⟨cursor, hturning⟩, hfull⟩ :=
      (exceeds_iff hfit hlimit ht hover hkept n).1 hd
    refine ⟨rfl, before, List.prefix_append _ _, hfull, ?_⟩
    exact calm_of_undivided ((undivided_append _ _).1 hundivided).1
      (fun _ => hc) (by rw [hturning]; rfl)
  · rintro ⟨rfl, before, ⟨later, rfl⟩, hfull, hcalm⟩
    rw [after_append] at ht
    exact (reaches_after _ before).exceeds_of_undivided hfit hlimit hfull hcalm
      ((undivided_append _ _).1 hundivided).2 ht hover hkept

end Run

namespace RunScene

variable {ω φ κ : Type} {remote : Remote ω φ κ} {s t : RunScene ω φ κ}
  {queue : List RunTask} {task : RunTask}

/-! ## Rehearsals -/

/-- A driver that is busy is the first to go on. -/
def DriverFirst (remote : Remote ω φ κ) (queue : List RunTask)
    (s : RunScene ω φ κ) : Prop :=
  s.run.driver.isBusy = true →
    queue.head? = some .driver ∨ queue = [] ∧
    (play remote).ready s .cancel = false

/-- Such a driver stands at the head of the line. -/
theorem DriverFirst.line (h : DriverFirst remote queue s)
    (hd : s.run.driver.isBusy = true) :
    ((play remote).line queue s).head? = some .driver := by
  have hready : (play remote).ready s .driver = true := by
    show (s.run.driverReady || s.fetchReady remote) = true
    rw [Run.driverReady_of_isBusy hd, Bool.true_or]
  rcases h hd with hhead | ⟨rfl, hcancel⟩
  · obtain ⟨rest, rfl⟩ := List.head?_eq_some_iff.1 hhead
    have hin : RunTask.driver ∈ (play remote).tasks s := by simp [play]
    simp [Play.line, hready, hin]
  · have htasks : (play remote).tasks s = [.cancel, .driver, .giveUp] ++
        (List.range s.run.workers.length).flatMap fun i =>
        [.worker i, .lookup i] := rfl
    simp [Play.line, htasks, hcancel, hready]

/-- What a lookup does leaves the driver where it is. -/
theorem driver_lookupStep (remote : Remote ω φ κ) (s : RunScene ω φ κ)
    (i : Nat) : (s.lookupStep remote i).run.driver = s.run.driver := by
  have hact (u : RunScene ω φ κ) (a : Run.Action) (hu : u.run = s.run)
      (ha : a.isDrivers = false) : (u.act a).run.driver = s.run.driver := by
    rw [← hu]
    exact ((u.run.effect_act a).paging ha).1
  have hunwind : (s.unwind remote i).run.driver = s.run.driver := by
    unfold RunScene.unwind
    split
    · exact hact s _ rfl rfl
    · exact hact _ _ rfl rfl
  unfold lookupStep
  split
  · unfold lookupTurn
    split
    · rfl
    · rename_i target task _
      cases target <;> rfl
    · exact hact _ _ rfl rfl
  · exact hunwind
  · exact hunwind
  · rfl

/-- Only the driver's own task makes it busy. -/
theorem isBusy_of_step (htask : task ≠ .driver)
    (hd : (s.step remote task).run.driver.isBusy = true) :
    s.run.driver.isBusy = true := by
  cases task with
  | driver => exact absurd rfl htask
  | cancel => exact hd
  | worker i =>
    have hsame := ((s.run.effect_act (.work i)).paging rfl).1
    exact hsame ▸ hd
  | lookup i => exact driver_lookupStep remote s i ▸ hd
  | giveUp =>
    have hrun : (s.step remote .giveUp).run = s.run.act .drop :=
      run_dropFetch _ _
    rw [hrun] at hd
    have he := s.run.effect_act .drop
    generalize s.run.act .drop = t at he hd
    cases he with
    | idle => exact hd
    | drop => cases hd

@[simp] theorem run_drive (remote : Remote ω φ κ) (s : RunScene ω φ κ) :
    (s.drive remote).run = s.run.act .drive := by
  unfold RunScene.drive
  dsimp only
  split
  · rfl
  · exact run_dropFetch _ _

/-- A task that does not interrupt the driver lets the run act once, or leaves
it alone. -/
theorem step_undivided (hready : (play remote).ready s task = true)
    (hd : s.run.driver.isBusy = true → task = .driver) :
    ∃ acts : List Run.Action, acts.length ≤ 1 ∧ s.run.Undivided acts ∧
      (s.step remote task).run = s.run.after acts := by
  by_cases hbusy : s.run.driver.isBusy = true
  · obtain rfl := hd hbusy
    refine ⟨[.drive], Nat.le_refl _, ⟨fun _ => rfl, trivial⟩, ?_⟩
    show (s.driverStep remote).run = _
    rw [driverStep, if_pos (Run.driverReady_of_isBusy hbusy), run_drive]
    rfl
  · rcases (move_step hready).run_eq with hsame | ⟨a, hrun⟩
    · exact ⟨[], Nat.zero_le _, trivial, hsame⟩
    · exact ⟨[a], Nat.le_refl _, ⟨fun h => absurd h hbusy, trivial⟩, hrun⟩

/-- A list of actions is what a rehearsal does to its run in so many steps: a
busy driver is not interrupted, and the runs that the rehearsal comes to are
those after the first ones of the actions. -/
structure Rehearses (remote : Remote ω φ κ) (steps : Nat) (queue : List RunTask)
    (s : RunScene ω φ κ) (actions : List Run.Action) : Prop where
  undivided : s.run.Undivided actions
  ends : ((play remote).run steps queue s).state.run = s.run.after actions
  passes : ∀ r : Run, (∃ before, before <+: actions ∧ r = s.run.after before) ↔
    ∃ k ≤ steps, r = ((play remote).run k queue s).state.run

/-- A rehearsal that stays where it is does nothing. -/
theorem rehearses_nil {steps : Nat}
    (hstays : ∀ k ≤ steps, ((play remote).run k queue s).state = s) :
    Rehearses remote steps queue s [] where
  undivided := trivial
  ends := by
    rw [hstays steps (Nat.le_refl _)]
    rfl
  passes r := by
    constructor
    · rintro ⟨before, hbefore, rfl⟩
      obtain rfl := List.prefix_nil.1 hbefore
      exact ⟨0, Nat.zero_le _, by rw [hstays 0 (Nat.zero_le _)]; rfl⟩
    · rintro ⟨k, hk, rfl⟩
      exact ⟨[], List.prefix_rfl, by rw [hstays k hk]; rfl⟩

/-- A rehearsal that goes on does one thing after the other. -/
theorem Rehearses.step {steps : Nat} {rest : List RunTask}
    {acts actions : List Run.Action} (h : Rehearses remote steps rest t actions)
    (hlength : acts.length ≤ 1) (hacts : s.run.Undivided acts)
    (hrun : t.run = s.run.after acts)
    (hgoes : ∀ k, (play remote).run (k + 1) queue s =
      (play remote).run k rest t) :
    Rehearses remote (steps + 1) queue s (acts ++ actions) where
  undivided := (Run.undivided_append _ _).2 ⟨hacts, hrun ▸ h.undivided⟩
  ends := by rw [hgoes, h.ends, hrun, Run.after_append]
  passes r := by
    constructor
    · rintro ⟨before, hbefore, rfl⟩
      have hsplit : before = [] ∨ ∃ later, later <+: actions ∧
          before = acts ++ later := by
        match acts, hlength with
        | [], _ => exact .inr ⟨before, hbefore, rfl⟩
        | [a], _ =>
          rcases List.prefix_cons_iff.1 hbefore with hnil | ⟨later, rfl, hlater⟩
          · exact .inl hnil
          · exact .inr ⟨later, hlater, rfl⟩
      rcases hsplit with rfl | ⟨later, hlater, rfl⟩
      · exact ⟨0, Nat.zero_le _, by rw [Play.state_run_zero]; rfl⟩
      · obtain ⟨k, hk, hsame⟩ :=
          (h.passes (t.run.after later)).1 ⟨later, hlater, rfl⟩
        refine ⟨k + 1, Nat.succ_le_succ hk, ?_⟩
        rw [hgoes, ← hsame, hrun, Run.after_append]
    · rintro ⟨k, hk, rfl⟩
      cases k with
      | zero =>
        rw [Play.state_run_zero]
        exact ⟨[], List.nil_prefix, rfl⟩
      | succ k =>
        obtain ⟨before, hbefore, hsame⟩ :=
          (h.passes _).2 ⟨k, Nat.le_of_succ_le_succ hk, rfl⟩
        refine ⟨acts ++ before, (List.prefix_append_right_inj _).2 hbefore, ?_⟩
        rw [hgoes, hsame, hrun, Run.after_append]

/-- In a rehearsal in which a busy driver is the first to go on, it is not
interrupted. -/
theorem rehearses (steps : Nat) (h : DriverFirst remote queue s) :
    ∃ actions, Rehearses remote steps queue s actions := by
  induction steps generalizing queue s with
  | zero =>
    refine ⟨[], rehearses_nil fun k hk => ?_⟩
    rw [Nat.le_zero.1 hk]
    exact Play.state_run_zero queue s
  | succ steps ih =>
    rcases (play remote).run_cases queue s with
      hstays | ⟨task, rest, hline, hgoes⟩ | ⟨unit, hline, hgoes⟩
    · exact ⟨[], rehearses_nil fun k _ => hstays k⟩
    · obtain ⟨_, hready⟩ := Play.mem_line (hline ▸ List.mem_cons_self :
        task ∈ (play remote).line queue s)
      have hdriver (hd : s.run.driver.isBusy = true) : task = .driver := by
        have hfirst := h.line hd
        rw [hline] at hfirst
        exact Option.some.inj hfirst
      have hafter : DriverFirst remote (task :: rest) (s.step remote task) :=
        fun hd => by
        by_cases htask : task = .driver
        · exact .inl (by rw [htask]; rfl)
        · exact absurd (hdriver (isBusy_of_step htask hd)) htask
      obtain ⟨actions, hactions⟩ := ih hafter
      obtain ⟨acts, hlength, hacts, hrun⟩ := step_undivided hready hdriver
      exact ⟨_, hactions.step hlength hacts hrun hgoes⟩
    · have hafter : DriverFirst remote [] ((play remote).advance s unit) :=
        fun hd => by
        have hfirst := h.line hd
        rw [hline] at hfirst
        cases hfirst
      obtain ⟨actions, hactions⟩ := ih hafter
      have hlength : ([] : List Run.Action).length ≤ 1 := Nat.zero_le 1
      exact ⟨_, hactions.step hlength trivial rfl hgoes⟩

end RunScene

end CloudAccess
