import CloudAccess.Enumeration.Scene
import CloudAccess.Proofs.Enumeration.Turns
import Mathlib.Data.List.Perm.Subperm

/-!
# The tasks of a scene

A scene runs the fetches and the lookups of its run as tasks.  This module
says which tasks are under way in it.

* `Watches` says that each lookup under way is that of another worker, whose
  stage says so.  `Watches.length_le` bounds their number by the workers.
* `Attended` is the invariant of a scene: its lookups are those of its
  workers, and a fetch is under way exactly while the driver waits for it.
* `reaches_attended` says that it holds in every order of steps, and
  `reaches_run` that these are actions on the run.
-/

namespace CloudAccess

namespace Run

variable {κ : Type} {r t : Run} {a : Action} {lookups : List (Nat × κ)}

/-- Lookups under way for different workers, each of which is at that stage. -/
structure Watches (r : Run) (lookups : List (Nat × κ)) : Prop where
  distinct : (lookups.map (·.1)).Nodup
  looking : ∀ p ∈ lookups, ∃ w, r.workers[p.1]? = some w ∧ w.isLooking = true

theorem Watches.filter (h : r.Watches lookups) (keep : Nat × κ → Bool) :
    r.Watches (lookups.filter keep) where
  distinct := h.distinct.sublist (List.filter_sublist.map _)
  looking p hp := h.looking p (List.mem_filter.1 hp).1

/-- The lookup of a worker goes on, or begins. -/
theorem Watches.set {i : Nat} {w : Worker} (h : r.Watches lookups) (task : κ)
    (hw : r.workers[i]? = some w) (hlooks : w.isLooking = true) :
    r.Watches ((i, task) :: lookups.filter (·.1 ≠ i)) where
  distinct := by
    rw [List.map_cons, List.nodup_cons]
    refine ⟨fun hin => ?_, (h.filter _).distinct⟩
    obtain ⟨p, hp, heq⟩ := List.mem_map.1 hin
    simpa [heq] using (List.mem_filter.1 hp).2
  looking p hp := by
    rcases List.mem_cons.1 hp with rfl | hp
    · exact ⟨w, hw, hlooks⟩
    · exact (h.filter _).looking p hp

/-- A lookup that no report and no unwinding ends goes on. -/
theorem Watches.act (h : r.Watches lookups) (he : r.Effect a t)
    (ha : ∀ p ∈ lookups, (∀ o, a ≠ .report p.1 o) ∧ a ≠ .unwind p.1) :
    t.Watches lookups where
  distinct := h.distinct
  looking p hp := by
    obtain ⟨w, hw, hlooks⟩ := h.looking p hp
    obtain ⟨w', hw', hturn⟩ := he.turn hw
    refine ⟨w', hw', ?_⟩
    cases hends : w'.isLooking with
    | true => rfl
    | false =>
      rcases hturn.isLooking hlooks hends with ⟨o, hreport⟩ | hunwind
      · exact absurd hreport ((ha p hp).1 o)
      · exact absurd hunwind (ha p hp).2

/-- There are no more lookups under way than workers that look something up. -/
theorem Watches.length_le (h : r.Watches lookups) :
    lookups.length ≤ r.workers.countP Worker.isLooking := by
  have hsub : lookups.map (·.1) ⊆
      (r.workers.zipIdx.filter (·.1.isLooking)).map (·.2) := by
    intro i hi
    obtain ⟨p, hp, rfl⟩ := List.mem_map.1 hi
    obtain ⟨w, hw, hlooks⟩ := h.looking p hp
    refine List.mem_map.2 ⟨(w, p.1), List.mem_filter.2 ⟨?_, hlooks⟩, rfl⟩
    exact List.mem_zipIdx_iff_getElem?.2 hw
  have hle := (List.subperm_of_subset h.distinct hsub).length_le
  have hcount : (r.workers.zipIdx.map (·.1)).countP Worker.isLooking =
      (r.workers.zipIdx.filter (·.1.isLooking)).length := by
    rw [List.countP_map, List.countP_eq_length_filter]
    rfl
  rw [List.zipIdx_map_fst] at hcount
  simpa [hcount] using hle

end Run

namespace RunScene

variable {ω φ κ : Type} {s t : RunScene ω φ κ}

/-- The lookups under way are those of the workers, and a fetch is under way
exactly while the driver waits for it. -/
structure Attended (s : RunScene ω φ κ) : Prop where
  fetch_iff : s.fetch.isSome = true ↔ ∃ cursor, s.run.driver = .fetching cursor
  watches : s.run.Watches s.lookups

/-- A scene in which a run is at its start and nothing is under way. -/
structure Opens (e : Enumerator) (signals : Signals) (caller : Cancellation)
    (s : RunScene ω φ κ) : Prop where
  run_eq : s.run = .start e signals caller
  fetch_eq : s.fetch = none
  lookups_eq : s.lookups = []

/-- The scene that an enumeration begins with is such a scene. -/
theorem opens_start (e : Enumerator) (world : ω) (standsAlone : Bool)
    (cancelAt dropAt : Option Nat) :
    ∃ signals parent, Opens e signals parent
      (start e world standsAlone cancelAt dropAt : RunScene ω φ κ) :=
  ⟨_, _, rfl, rfl, rfl⟩

theorem Opens.attended {e : Enumerator} {signals : Signals}
    {caller : Cancellation} (h : Opens e signals caller s) : s.Attended := by
  refine ⟨?_, ?_⟩
  · rw [h.fetch_eq, h.run_eq, Run.start_eq]
    by_cases hfit : e.concurrency ≤ Enumerator.maxPermits <;> simp [hfit]
  · rw [h.lookups_eq]
    exact ⟨List.nodup_nil, by simp⟩

/-! ## What the steps do to the tasks -/

/-- What is no move of the driver leaves its fetch alone. -/
theorem Attended.act (h : s.Attended) {a : Run.Action}
    (hdrivers : a.isDrivers = false)
    (ha : ∀ p ∈ s.lookups, (∀ o, a ≠ .report p.1 o) ∧ a ≠ .unwind p.1) :
    (s.act a).Attended where
  fetch_iff := by
    show s.fetch.isSome = true ↔ ∃ cursor, (s.run.act a).driver = _
    rw [((s.run.effect_act a).paging hdrivers).1]
    exact h.fetch_iff
  watches := h.watches.act (s.run.effect_act a) ha

theorem Attended.cancel (h : s.Attended) (target : CancelTarget) :
    (s.cancel target).Attended := by
  cases target <;> exact h.act rfl (by simp)

/-- Without its fetch a scene is attended when the driver waits for none. -/
theorem attended_dropFetch (r : Remote ω φ κ) (hw : s.run.Watches s.lookups)
    (hd : ∀ cursor, s.run.driver ≠ .fetching cursor) :
    (s.dropFetch r).Attended := by
  have hnone : ¬∃ cursor, s.run.driver = .fetching cursor :=
    fun ⟨cursor, hc⟩ => hd cursor hc
  unfold dropFetch
  split
  · rename_i hfetch
    exact ⟨by simp [hfetch, hnone], hw⟩
  · exact ⟨by simp [hnone], hw⟩

theorem Attended.drive (r : Remote ω φ κ) (h : s.Attended) :
    (s.drive r).Attended := by
  have hw : (s.act .drive).run.Watches s.lookups :=
    h.watches.act (s.run.effect_act .drive) (by simp)
  unfold RunScene.drive
  dsimp only
  split
  · rename_i cursor hd
    exact ⟨⟨fun _ => ⟨cursor, hd⟩, fun _ => rfl⟩, hw⟩
  · rename_i hd
    exact attended_dropFetch r hw hd

/-- The answer to a fetch ends the wait for it. -/
theorem answer_driver {r : Run} {cursor : Option String}
    (hd : r.driver = .fetching cursor) (hc : r.isCancelled = false)
    (o : Outcome Page) (cursor' : Option String) :
    (r.act (.answer o)).driver ≠ .fetching cursor' := by
  cases o <;> simp [Run.act, Run.answer, hd, hc, Run.leave_eq]

/-- A fetch takes a turn only in a run that is not cancelled. -/
theorem Attended.fetchTurn (r : Remote ω φ κ) (h : s.Attended) {task : φ}
    (hfetch : s.fetch = some task) (hready : s.run.driverReady = false) :
    (s.fetchTurn r task).Attended := by
  obtain ⟨cursor, hd⟩ := h.fetch_iff.1 (by simp [hfetch])
  have hc : s.run.isCancelled = false := by
    simpa [Run.driverReady, hd] using hready
  unfold RunScene.fetchTurn
  split
  · exact ⟨⟨fun _ => ⟨cursor, hd⟩, fun _ => rfl⟩, h.watches⟩
  · rename_i world target task' _
    have h' :
        ({ s with world := world, fetch := some task' } :
          RunScene ω φ κ).Attended :=
      ⟨⟨fun _ => ⟨cursor, hd⟩, fun _ => rfl⟩, h.watches⟩
    exact h'.cancel target
  · rename_i world answer _
    refine ⟨⟨fun hsome => (by cases hsome), fun hwaits => ?_⟩, ?_⟩
    · obtain ⟨c, hat⟩ := hwaits
      exact absurd hat (answer_driver hd hc answer c)
    · exact h.watches.act (s.run.effect_act (.answer answer)) (by simp)

theorem Attended.driverStep (r : Remote ω φ κ) (h : s.Attended) :
    (s.driverStep r).Attended := by
  unfold RunScene.driverStep
  split
  · exact h.drive r
  · rename_i hready
    split
    · rename_i task hfetch
      exact h.fetchTurn r hfetch (by simpa using hready)
    · exact h

/-- The lookup of a worker goes on, cancels something, or ends with a report. -/
theorem Attended.lookupTurn (r : Remote ω φ κ) (h : s.Attended) {i : Nat}
    {x : String} (hw : s.run.workers[i]? = some ⟨x, .looking⟩) (task : κ) :
    (s.lookupTurn r i task).Attended := by
  have hset (world : ω) (task' : κ) :
      ({ s with world := world }.setLookup i task').Attended :=
    ⟨h.fetch_iff, h.watches.set task' hw rfl⟩
  unfold RunScene.lookupTurn
  split
  · exact hset _ _
  · exact (hset _ _).cancel _
  · rename_i world report _
    have hend : ({ s with world := world }.endLookup i).Attended :=
      ⟨h.fetch_iff, h.watches.filter _⟩
    refine hend.act rfl fun p hp => ?_
    have hne : p.1 ≠ i := by simpa using (List.mem_filter.1 hp).2
    simp [Ne.symm hne]

/-- A lookup that was stopped is gone. -/
theorem Attended.unwind (r : Remote ω φ κ) (h : s.Attended) (i : Nat) :
    (s.unwind r i).Attended := by
  unfold RunScene.unwind
  split
  · rename_i hnone
    refine h.act rfl fun p hp => ?_
    have hne : i ≠ p.1 := by
      intro heq
      rw [lookup?, List.lookup_eq_none_iff] at hnone
      simpa [heq] using hnone p hp
    simp [hne]
  · rename_i task _
    have hend :
        ({ s with
          world := r.looking.abandon s.world s.situation task
          }.endLookup i).Attended :=
      ⟨h.fetch_iff, h.watches.filter _⟩
    refine hend.act rfl fun p hp => ?_
    have hne : p.1 ≠ i := by simpa using (List.mem_filter.1 hp).2
    simp [Ne.symm hne]

theorem Attended.lookupStep (r : Remote ω φ κ) (h : s.Attended) (i : Nat) :
    (s.lookupStep r i).Attended := by
  unfold RunScene.lookupStep
  split
  · rename_i hw
    exact h.lookupTurn r hw _
  · exact h.unwind r i
  · exact h.unwind r i
  · exact h

/-- Whatever a task does, the scene stays attended. -/
theorem Attended.step (r : Remote ω φ κ) (h : s.Attended) (task : RunTask) :
    (s.step r task).Attended := by
  cases task with
  | driver => exact h.driverStep r
  | giveUp =>
    have hw : (s.run.act .drop).Watches s.lookups :=
      h.watches.act (s.run.effect_act .drop) (by simp)
    refine attended_dropFetch r hw fun cursor hd => ?_
    change s.run.drop.driver = _ at hd
    unfold Run.drop at hd
    split at hd
    · rename_i hover
      rw [hd] at hover
      cases hover
    · cases hd
  | cancel =>
    have h' : ({ s with cancelAt := none } : RunScene ω φ κ).Attended :=
      ⟨h.fetch_iff, h.watches⟩
    exact h'.cancel .caller
  | worker i => exact h.act rfl (by simp)
  | lookup i => exact h.lookupStep r i

variable {r : Remote ω φ κ}

/-- In every order of steps a scene stays attended. -/
theorem reaches_attended (h : (play r).Reaches s t) (hs : s.Attended) :
    t.Attended := by
  refine h.invariant (I := Attended) hs fun u v hu hstep => ?_
  cases hstep with
  | @task task => exact hu.step r task
  | time => exact ⟨hu.fetch_iff, hu.watches⟩

/-- The steps of a scene are actions on its run. -/
theorem reaches_run (h : (play r).Reaches s t) : s.run.Reaches t.run := by
  refine h.map (f := RunScene.run) fun u v hstep => ?_
  cases hstep with
  | @task task => exact reaches_step r u task
  | time => exact .refl

end RunScene

end CloudAccess
