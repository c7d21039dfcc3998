import CloudAccess.Proofs.Enumeration.Moves
import CloudAccess.Proofs.Enumeration.Progress
import CloudAccess.Proofs.Enumeration.Tales

/-!
# What a scene waits for

The lookups of a scene that are yet to end, and the tasks for which a scene
waits that cannot go on.

* `pending` is the lookup of a worker that is yet to end.  `pending_act` says
  that what happens to a run begins no lookup of a worker that was there, and
  `lookup?_of_filter` that the end of one lookup leaves the others as they were.
* `Waits.exists_task` says that until a scene is over, who waits waits for a
  fetch or for a lookup that is under way.
-/

namespace CloudAccess

namespace RunScene

variable {ω φ κ : Type} {r : Remote ω φ κ} {s t : RunScene ω φ κ} {i : Nat}

/-! ## Lookups that are yet to end -/

/-- The lookup of a worker that is yet to end. -/
def pending (r : Remote ω φ κ) (s : RunScene ω φ κ) (i : Nat) : Option κ :=
  (s.run.workers[i]?.filter Worker.isPending).map fun w =>
    lookupOf r s i w.reference

theorem pending_eq_some_iff {task : κ} :
    pending r s i = some task ↔
      ∃ w, s.run.workers[i]? = some w ∧ w.isPending = true ∧
        lookupOf r s i w.reference = task := by
  simp [pending, Option.filter_eq_some_iff, and_assoc]

/-- A worker that looks something up has a lookup that is yet to end. -/
theorem pending_looking {x : String}
    (hw : s.run.workers[i]? = some ⟨x, .looking⟩) :
    pending r s i = some (lookupOf r s i x) :=
  pending_eq_some_iff.2 ⟨_, hw, rfl, rfl⟩

/-- The lookup of a new worker has not begun. -/
theorem Attended.lookup?_length (hs : s.Attended) :
    s.lookup? s.run.workers.length = none := by
  rw [lookup?, List.lookup_eq_none_iff]
  intro p hp
  obtain ⟨w, hw, _⟩ := hs.watches.looking p hp
  obtain ⟨hlt, _⟩ := List.getElem?_eq_some_iff.1 hw
  exact bne_iff_ne.2 (Nat.ne_of_gt hlt)

/-- A lookup that is pending after an action was so before. -/
theorem pending_act {a : Run.Action} (hrun : t.run = s.run.act a)
    (hlookup : ∀ i w, t.run.workers[i]? = some w → w.isPending = true →
      t.lookup? i = s.lookup? i)
    (hlt : i < s.run.workers.length) {task : κ}
    (hpending : pending r t i = some task) : pending r s i = some task := by
  obtain ⟨w', hw', hp', htask⟩ := pending_eq_some_iff.1 hpending
  have hw : s.run.workers[i]? = some s.run.workers[i] :=
    List.getElem?_eq_getElem hlt
  obtain ⟨w'', hw'', hturn⟩ :=
    (hrun ▸ s.run.effect_act a : s.run.Effect a t.run).turn hw
  obtain rfl := Option.some.inj (hw'.symm.trans hw'')
  refine pending_eq_some_iff.2 ⟨_, hw, ?_, ?_⟩
  · cases hp : (s.run.workers[i]).isPending with
    | true => rfl
    | false =>
      rw [hturn.isPending hp] at hp'
      cases hp'
  · rw [← htask, lookupOf, lookupOf, hlookup i w' hw' hp', hturn.reference]

/-- The lookups of the other workers are found as before. -/
theorem lookup_filter_ne (lookups : List (Nat × κ)) {i j : Nat} (hne : j ≠ i) :
    (lookups.filter (·.1 ≠ i)).lookup j = lookups.lookup j := by
  induction lookups with
  | nil => rfl
  | cons p lookups ih =>
    obtain ⟨k, task⟩ := p
    by_cases hk : k = i
    · subst hk
      rw [List.filter_cons_of_neg (by simp), ih, List.lookup_cons,
        beq_false_of_ne hne]
    · rw [List.filter_cons_of_pos (by simpa using hk), List.lookup_cons,
        List.lookup_cons, ih]

/-- A lookup that goes on is the one of its worker from then on. -/
theorem pending_goesOn {x : String} {task : κ}
    (hhere : t.run.workers = s.run.workers)
    (hlookups : t.lookups = (i, task) :: s.lookups.filter (·.1 ≠ i))
    (hw : s.run.workers[i]? = some ⟨x, .looking⟩) :
    pending r t i = some task := by
  have hown : t.lookup? i = some task := by
    rw [lookup?, hlookups, List.lookup_cons, beq_self_eq_true]
  rw [pending_looking (hhere ▸ hw), lookupOf, hown]
  rfl

/-- The lookups of the other workers remain as they were. -/
theorem pending_of_ne {j : Nat} {task : κ}
    (hhere : t.run.workers = s.run.workers)
    (hlookups : t.lookups = (i, task) :: s.lookups.filter (·.1 ≠ i))
    (hne : j ≠ i) : pending r t j = pending r s j := by
  have hsame : t.lookup? j = s.lookup? j := by
    rw [lookup?, hlookups, List.lookup_cons, beq_false_of_ne hne]
    exact lookup_filter_ne s.lookups hne
  simp only [pending, lookupOf, hsame, hhere]

/-- Where the lookup of one worker has ended, those yet to end are found as
before. -/
theorem lookup?_of_filter (hlookups : t.lookups = s.lookups.filter (·.1 ≠ i))
    (hended : ∀ w, t.run.workers[i]? = some w → w.isPending = false) :
    ∀ j w, t.run.workers[j]? = some w → w.isPending = true →
      t.lookup? j = s.lookup? j := by
  intro j w hw hpending
  have hne : j ≠ i := by
    rintro rfl
    rw [hended w hw] at hpending
    cases hpending
  rw [RunScene.lookup?, RunScene.lookup?, hlookups]
  exact lookup_filter_ne s.lookups hne

/-- A worker whose lookup was pending no more before an action is not pending
after it. -/
theorem not_pending_act (run : Run) (a : Run.Action) {w : Worker}
    (hw : run.workers[i]? = some w) (hended : w.isPending = false) :
    ∀ w', (run.act a).workers[i]? = some w' → w'.isPending = false := by
  intro w' hw'
  obtain ⟨w'', hw'', hturn⟩ := (run.effect_act a).turn hw
  obtain rfl := Option.some.inj (hw''.symm.trans hw')
  exact hturn.isPending hended

/-! ## Until a scene is over -/

/-- Until a scene is over, who waits waits for a task. -/
theorem Waits.exists_task (h : Waits r s) (hs : s.Attended)
    (hp : s.run.Permitted) (hover : s.isOver = false) :
    s.fetch.isSome = true ∨ ∃ i task, s.lookup? i = some task := by
  have hdriver := h.driver.1
  have unquiet (hq : s.run.isQuiet = false) :
      s.fetch.isSome = true ∨ ∃ i task, s.lookup? i = some task := by
    simp only [Run.isQuiet, List.all_eq_false, decide_eq_true_eq] at hq
    obtain ⟨w, hw, hstage⟩ := hq
    exact .inr (h.lookup_of_worker hw hstage)
  unfold Run.driverReady at hdriver
  cases hd : s.run.driver with
  | turning | submitting => rw [hd] at hdriver; cases hdriver
  | fetching cursor => exact .inl (hs.fetch_iff.2 ⟨cursor, hd⟩)
  | queueing x items next =>
    rw [hd] at hdriver
    have hg : s.run.granted = false := by
      simp only [Bool.or_eq_false_iff] at hdriver
      exact hdriver.2
    obtain ⟨w, hw, holds⟩ :=
      Enumeration.exists_holder hp (by simp [Run.isQueueing, hd]) hg
    exact .inr (h.lookup_of_worker hw fun hfin =>
      by simp [Worker.holdsPermit, hfin] at holds)
  | draining =>
    rw [hd] at hdriver
    exact unquiet hdriver
  | returned | crashed | dropped =>
    refine unquiet ?_
    rw [isOver, hd] at hover
    simpa [Run.Driver.isOver] using hover

end RunScene

end CloudAccess
