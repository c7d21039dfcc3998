import CloudAccess.Enumeration.Listing
import CloudAccess.Proofs.Enumeration.Permits
import CloudAccess.Proofs.Enumeration.Tasks

/-!
# How much a run has under way

A run has no more lookups under way than it has permits, and no more than one
fetch.

* `Loaded` bounds the workers that have not finished.  While the driver is
  there, each of them holds a permit; once it is gone, some have given theirs
  back and only their lookups are left, but no worker is added any more.
* `Counted` is the number of fetches that were begun, against those that have
  been answered, for each place of the driver.
* `Effect.returns_permit` says when a permit comes back, and `within_limit`
  puts these together, for runs and for the tasks of a scene.
-/

namespace CloudAccess

/-- Whether a worker has not finished. -/
def Worker.isUnfinished (w : Worker) : Bool := w.stage ≠ .finished

namespace Run

variable {r t : Run} {a : Action} {i : Nat} {w w' : Worker}

/-! ## Workers that have not finished -/

/-- The number of workers that have not finished. -/
def unfinished (r : Run) : Nat := r.workers.countP Worker.isUnfinished

/-- A worker abandons its lookup only when the driver is gone, and no more
workers are unfinished than there are permits. -/
structure Loaded (r : Run) : Prop where
  permitted : r.Permitted
  attached : r.driver.isGone = false → ∀ w ∈ r.workers, w.stage ≠ .abandoned
  unfinished_le : r.unfinished ≤ r.enumerator.concurrency

/-- A worker that has not abandoned its lookup holds a permit until it has
finished. -/
theorem holdsPermit_iff (hw : w.stage ≠ .abandoned) :
    w.holdsPermit = true ↔ w.stage ≠ .finished := by
  obtain ⟨x, stage⟩ := w
  cases stage <;> simp_all [Worker.holdsPermit]

/-- No effect makes a worker unfinished that has finished. -/
theorem Effect.unfinished_le (he : r.Effect a t)
    (hlen : t.workers.length = r.workers.length) :
    t.unfinished ≤ r.unfinished := by
  unfold unfinished
  cases hdrivers : a.isDrivers with
  | true =>
    rcases he.staff hdrivers with hsame | ⟨x, _, hadded⟩
    · exact Nat.le_of_eq (by rw [hsame])
    · rw [hadded, List.length_append, List.length_singleton] at hlen
      omega
  | false =>
    rcases he.moved hdrivers with hsame | ⟨i, w, stage, hw, hmoved, _⟩
    · exact Nat.le_of_eq (by rw [hsame])
    · have hcount := countP_setStage Worker.isUnfinished stage hw
      obtain ⟨w', hw', hturn⟩ := he.turn hw
      rw [hmoved] at hw' ⊢
      rw [getElem?_setStage, if_pos rfl, hw, Option.map_some, Option.some_inj]
        at hw'
      cases hdone : w.isUnfinished with
      | true =>
        rw [hdone] at hcount
        rw [if_pos rfl] at hcount
        split at hcount <;> omega
      | false =>
        have hsame :=
          hturn.finished (by simpa [Worker.isUnfinished] using hdone)
        rw [hw', hsame] at hcount
        omega

theorem Effect.loaded (he : r.Effect a t) (h : r.Loaded) : t.Loaded := by
  have hpermitted := he.permitted h.permitted
  have hattached : t.driver.isGone = false →
      ∀ w' ∈ t.workers, w'.stage ≠ .abandoned := by
    intro hg w' hin
    have hgone : r.driver.isGone = false :=
      Bool.eq_false_iff.2 fun hr => by rw [he.isGone hr] at hg; cases hg
    obtain ⟨i, hi⟩ := List.mem_iff_getElem?.1 hin
    rcases he.worker hi with ⟨w, hw, hturn⟩ | hnew
    · have hbefore := h.attached hgone w (List.mem_of_getElem? hw)
      cases hturn <;> simp_all
    · rw [hnew]
      simp
  refine ⟨hpermitted, hattached, ?_⟩
  cases hg : t.driver.isGone with
  | false =>
    have hall : t.unfinished = t.holders := by
      refine List.countP_congr fun w hw => ?_
      rw [holdsPermit_iff (hattached hg w hw)]
      simp [Worker.isUnfinished]
    have hconserved := hpermitted.conserved
    omega
  | true =>
    rcases he.hires with hlen | ⟨_, hthere, _⟩
    · rw [he.fixed.1]
      exact Nat.le_trans (he.unfinished_le hlen) h.unfinished_le
    · rw [hthere] at hg
      cases hg

/-- Wherever actions lead from the start, no more workers are unfinished than
there are permits. -/
theorem Reaches.loaded {e : Enumerator} {signals : Signals}
    {caller : Cancellation} (h : (start e signals caller).Reaches r) :
    r.Loaded ∧ r.enumerator = e := by
  refine h.keeps (I := fun r => r.Loaded ∧ r.enumerator = e) ?_
    fun u v b hu he =>
    ⟨he.loaded hu.1, he.fixed.1.trans hu.2⟩
  refine ⟨⟨permitted_start e signals caller, ?_, ?_⟩, ?_⟩ <;>
    simp [start_eq, unfinished]

/-- A lookup is under way only for a worker that has not finished. -/
theorem looking_le_unfinished (r : Run) :
    r.workers.countP Worker.isLooking ≤ r.unfinished := by
  refine List.countP_mono_left fun w _ hlooks => ?_
  obtain ⟨x, stage⟩ := w
  cases stage <;> simp_all [Worker.isLooking, Worker.isUnfinished]

/-- A permit that a worker gives back is free, or granted to the driver. -/
theorem Effect.returns_permit (he : r.Effect a t) (h : r.Permitted)
    (hw : r.workers[i]? = some w) (hw' : t.workers[i]? = some w')
    (held : w.holdsPermit = true) (hback : w'.holdsPermit = false) :
    t.reserve = r.reserve + 1 := by
  have hne : w' ≠ w := by
    rintro rfl
    rw [held] at hback
    cases hback
  have hdrivers : a.isDrivers = false := by
    refine Bool.eq_false_iff.2 fun hd => hne ?_
    rcases he.staff hd with hsame | ⟨x, _, hadded⟩
    · exact Option.some.inj ((hsame ▸ hw').symm.trans hw)
    · obtain ⟨hlt, _⟩ := List.getElem?_eq_some_iff.1 hw
      rw [hadded, List.getElem?_append_left hlt] at hw'
      exact Option.some.inj (hw'.symm.trans hw)
  rcases he.moved hdrivers with hsame | ⟨j, v, stage, hv, hmoved, _⟩
  · exact absurd (Option.some.inj ((hsame ▸ hw').symm.trans hw)) hne
  · have hij : j = i := by
      refine Decidable.byContradiction fun hji => hne ?_
      rw [hmoved, getElem?_setStage, if_neg hji] at hw'
      exact Option.some.inj (hw'.symm.trans hw)
    subst hij
    obtain rfl := Option.some.inj (hv.symm.trans hw)
    rw [hmoved, getElem?_setStage, if_pos rfl, hv, Option.map_some,
      Option.some_inj] at hw'
    have hcount := countP_setStage Worker.holdsPermit stage hv
    rw [hw', held, hback, ← hmoved] at hcount
    have hbefore := h.conserved
    have hafter := (he.permitted h).conserved
    rw [he.fixed.1] at hafter
    simp only [holders] at hbefore hafter
    simp only [if_true, Bool.false_eq_true, if_false] at hcount
    omega

/-! ## Fetches -/

/-- How many fetches were begun: as many as were answered while the driver is
busy with a page, one more while it waits for the next, and one more at most
once it is past paging. -/
def Counted (r : Run) : Prop :=
  match r.driver with
  | .turning _ | .submitting _ _ | .queueing _ _ _ => r.asked.length = r.pages
  | .fetching _ => r.asked.length = r.pages + 1
  | .draining | .returned _ | .crashed | .dropped =>
    r.pages ≤ r.asked.length ∧ r.asked.length ≤ r.pages + 1

/-- At every place the driver has one fetch more than answers at most. -/
theorem Counted.bounds (h : r.Counted) :
    r.pages ≤ r.asked.length ∧ r.asked.length ≤ r.pages + 1 := by
  unfold Counted at h
  split at h <;> omega

/-- A driver may come to its end anywhere. -/
theorem Counted.over (h : r.Counted)
    (hd : t.driver.isOver = true ∨ t.driver = .draining)
    (ha : t.asked = r.asked) (hp : t.pages = r.pages) : t.Counted := by
  have hbounds := h.bounds
  rw [← ha, ← hp] at hbounds
  unfold Counted
  cases hat : t.driver <;> simp_all [Driver.isOver]

theorem Effect.counted (he : r.Effect a t) (h : r.Counted) : t.Counted := by
  cases hdrivers : a.isDrivers with
  | false =>
    obtain ⟨hd, _, _, hp, ha⟩ := he.paging hdrivers
    simpa [Counted, hd, hp, ha] using h
  | true =>
    have hc := h
    cases he with
    | idle => exact h
    | exceed | quit | complete | refuse =>
      exact h.over (.inr (by simp [leave_eq])) (by simp [leave_eq, fail_eq])
        (by simp [leave_eq, fail_eq])
    | conclude | fetchCrashed | drop =>
      exact h.over (.inl rfl) (by simp [Run.conclude, emit, ungrant_eq])
        (by simp [Run.conclude, emit, ungrant_eq])
    | fetchFailed hd =>
      simp only [Counted, hd] at hc
      simp [Counted, leave_eq, fail_eq, hc]
    | ask hd | next hd | pass hd | employ hd | queue hd | grant hd
    | fetched hd =>
      simp only [Counted, hd] at hc
      simp [Counted, spawn, hc]
    | _ => cases hdrivers

/-- Wherever actions lead from the start, the fetches are counted. -/
theorem Reaches.counted {e : Enumerator} {signals : Signals}
    {caller : Cancellation} (h : (start e signals caller).Reaches r) :
    r.Counted := by
  refine h.keeps (I := Counted) ?_ fun _ _ _ hu he => he.counted hu
  rw [start_eq]
  by_cases hfit : e.concurrency ≤ Enumerator.maxPermits <;> simp [Counted, hfit]

/-- A fetch is begun only by a driver between two pages. -/
theorem Effect.asks (he : r.Effect a t) (ha : t.asked ≠ r.asked) :
    ∃ cursor, r.driver = .turning cursor ∧ r.isCancelled = false ∧
      t.driver = .fetching cursor ∧ t.asked = r.asked ++ [cursor] := by
  cases he with
  | ask hd _ hc => exact ⟨_, hd, hc, rfl, rfl⟩
  | _ =>
    exact absurd (by simp [fail_eq, leave_eq, release_eq, ungrant_eq,
      Run.finish, setStage, spawn, Run.conclude, emit, Run.cancel]) ha

/-! ## Within the limit -/

/-- Whatever happens to a run, and in whatever order: each permit is free, or
granted to the driver that waits for one, or with a worker that has not
finished, so that there are never more lookups under way than permits.  A
worker gives its permit back once, and only when its lookup has ended or was
stopped or, with the driver gone, is being stopped; the permit is then free or
granted.  A fetch is begun only when every earlier one was answered.  In a
scene the lookups and the fetch are the tasks under way. -/
theorem within_limit (e : Enumerator) (signals : Signals)
    (caller : Cancellation) :
    (∀ r, (start e signals caller).Reaches r →
      (r.free + (if r.granted then 1 else 0) + r.workers.countP
        (·.holdsPermit) =
          e.concurrency ∧
        (r.granted = true → ∃ x items next, r.driver = .queueing x items next) ∧
        (r.driver.isGone = false →
          ∀ w ∈ r.workers, w.holdsPermit = true ↔ w.stage ≠ .finished)) ∧
      r.workers.countP (·.isLooking) ≤ e.concurrency ∧
      (∀ (a : Action) (i : Nat) (w w' : Worker), r.workers[i]? = some w →
        (r.act a).workers[i]? = some w' →
        (w.holdsPermit = false → w'.holdsPermit = false) ∧
        (w.holdsPermit = true → w'.holdsPermit = false →
          (r.act a).reserve = r.reserve + 1 ∧
            (w.isLooking = false ∨ r.driver.isGone = true ∧
              w'.stage = .abandoned))) ∧
      r.asked.length ≤ r.pages + 1 ∧
      ∀ a, (r.act a).asked ≠ r.asked →
        r.asked.length = r.pages ∧ ∃ cursor, r.driver = .turning cursor) ∧
    ∀ (ω φ κ : Type) (remote : Remote ω φ κ) (s t : RunScene ω φ κ),
      s.Opens e signals caller → (RunScene.play remote).Reaches s t →
        t.lookups.length ≤ e.concurrency ∧
          (t.fetch.isSome = true ↔
            ∃ cursor, t.run.driver = .fetching cursor) := by
  have hlooking {r : Run} (h : (start e signals caller).Reaches r) :
      r.workers.countP Worker.isLooking ≤ e.concurrency := by
    obtain ⟨hloaded, he⟩ := h.loaded
    exact he ▸ Nat.le_trans r.looking_le_unfinished hloaded.unfinished_le
  refine ⟨fun r h => ?_, fun ω φ κ remote s t hs ht => ?_⟩
  · obtain ⟨hloaded, he⟩ := h.loaded
    have hpermitted := hloaded.permitted
    refine ⟨⟨he ▸ hpermitted.conserved, fun hg => ?_, fun hg w hw => ?_⟩,
      hlooking h, fun a i w w' hw hw' => ?_, h.counted.bounds.2, fun a ha => ?_⟩
    · have hq := hpermitted.waits hg
      cases hd : r.driver <;> simp [isQueueing, hd] at hq ⊢
    · exact holdsPermit_iff (hloaded.attached hg w hw)
    · obtain ⟨v, hv, hturn⟩ := (r.effect_act a).turn hw
      obtain rfl := Option.some.inj (hw'.symm.trans hv)
      exact ⟨hturn.holdsPermit, fun held hback =>
        ⟨(r.effect_act a).returns_permit hpermitted hw hw' held hback,
          hturn.givesBack held hback⟩⟩
    · obtain ⟨cursor, hd, _⟩ := (r.effect_act a).asks ha
      have hcounted := h.counted
      rw [Counted, hd] at hcounted
      exact ⟨hcounted, cursor, hd⟩
  · have hattended := RunScene.reaches_attended ht hs.attended
    have hrun : (start e signals caller).Reaches t.run :=
      hs.run_eq ▸ RunScene.reaches_run ht
    exact ⟨Nat.le_trans hattended.watches.length_le (hlooking hrun),
      hattended.fetch_iff⟩

/-- One permit, and two items on a page: the worker of the first item has
finished while the driver waits to submit the second one. -/
def handedOn : Run :=
  (start { concurrency := 1 } { count := 1 } ⟨0, []⟩).after
    [.drive, .answer (.value ⟨["a", "b"], none⟩), .drive, .drive, .work 0,
      .report 0 (.value (.rejected "a")), .work 0]

/-- A listing of two items on a page. -/
def twoItems : Listing := ⟨[(none, { content := ⟨["a", "b"], none⟩ })], []⟩

/-- A scene over that listing in which the first item is looked up. -/
def twoItemsScene : RunScene Diary Listing.Fetch Listing.Lookup :=
  ((RunScene.play twoItems.remote).run 8 []
    (.start { concurrency := 1 } {} false none none)).state

theorem within_limit_handed_on :
    (handedOn.granted = true ∧
      handedOn.free + 1 + handedOn.workers.countP (·.holdsPermit) = 1 ∧
        ∃ x items next, handedOn.driver = .queueing x items next) ∧
      twoItemsScene.lookups.length = 1 ∧ twoItemsScene.lookups.length ≤ 1 := by
  obtain ⟨hruns, hscenes⟩ :=
    within_limit { concurrency := 1 } { count := 1 } ⟨0, []⟩
  obtain ⟨⟨hconserved, hwaits, _⟩, _⟩ := hruns handedOn (reaches_after _ _)
  refine ⟨⟨rfl, hconserved, hwaits rfl⟩, rfl, ?_⟩
  exact (hscenes _ _ _ twoItems.remote _ twoItemsScene ⟨rfl, rfl, rfl⟩
    (Play.reaches_run _ _ _ _)).1

end Run

end CloudAccess
