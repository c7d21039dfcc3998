import CloudAccess.Proofs.Enumeration.Ways
import Mathlib.Data.List.Basic

/-!
# The workers of a run

What the workers of a run have done, told from the references that were
submitted and from how their lookups end.

* `Staffed` holds in every state: no reference is submitted twice, a worker
  has a reference that was submitted, and what it was told is how the lookup
  of that reference ends.
* `Working` holds as long as a run goes well, which is while it is not
  cancelled and its driver is there.  Every reference submitted has a worker
  then, or waits for a permit; no worker was stopped; and the options found
  are those of the workers that have finished.
* `Way.staffed` says that both hold on every way, and `Working.found_perm`
  what the run has found once all workers have finished.
-/

namespace CloudAccess

namespace Run

/-- A run goes well while it is not cancelled and its driver is there. -/
def GoesWell (r : Run) : Prop := r.isCancelled = false ∧ r.driver.isGone = false

variable {r t : Run} {a : Action}

/-- A run that goes well has gone well before. -/
theorem Effect.goesWell (he : r.Effect a t) (h : t.GoesWell) : r.GoesWell := by
  constructor
  · refine Bool.eq_false_iff.2 fun hc => ?_
    have := he.isCancelled hc
    rw [h.1] at this
    cases this
  · refine Bool.eq_false_iff.2 fun hg => ?_
    have := he.isGone hg
    rw [h.2] at this
    cases this

end Run

namespace Enumeration

variable {n : Enumeration} {k : Nat} {r t : Run} {a : Run.Action}

/-! ## Workers of a run that goes well -/

/-- The option that the lookup of a reference brings. -/
def option (n : Enumeration) (x : String) : Option ArgOption :=
  match n.lookup x with
  | .value item => item.option
  | .failed _ | .crashed => none

/-- The lookup of a reference brings an item. -/
def Found (n : Enumeration) (x : String) : Prop :=
  ∃ item, n.lookup x = .value item

/-- A worker was not stopped, and has finished only with an item. -/
def OnCourse (n : Enumeration) (w : Worker) : Prop :=
  match w.stage with
  | .spawned | .looking | .reported _ => True
  | .finished => n.Found w.reference
  | .stopping | .stopped | .abandoned => False

/-- What a worker has added to the options found. -/
def yield (n : Enumeration) (w : Worker) : Option ArgOption :=
  if w.stage = .finished then n.option w.reference else none

/-- The workers of a run that goes well. -/
structure Working (n : Enumeration) (r : Run) : Prop where
  employed : r.submitted = r.workers.map (·.reference) ++ r.awaited
  onCourse : ∀ w ∈ r.workers, n.OnCourse w
  found : r.found.Perm (r.workers.filterMap n.yield)

/-- The driver moves on without a new worker. -/
theorem Working.drive (h : n.Working r) (hs : t.submitted = r.submitted)
    (hw : t.workers = r.workers) (ha : t.awaited = r.awaited)
    (hf : t.found = r.found) : n.Working t :=
  ⟨by rw [hs, hw, ha, h.employed], hw ▸ h.onCourse,
    by rw [hf, hw]; exact h.found⟩

/-- The driver spawns a worker for a reference. -/
theorem Working.hire {x : String} (h : n.Working r)
    (hs : t.submitted = r.workers.map (·.reference) ++ [x])
    (hw : t.workers = r.workers ++ [⟨x, .spawned⟩]) (ha : t.awaited = [])
    (hf : t.found = r.found) : n.Working t := by
  refine ⟨by simp [hs, hw, ha], fun w hin => ?_, ?_⟩
  · rw [hw, List.mem_append, List.mem_singleton] at hin
    rcases hin with hin | rfl
    · exact h.onCourse w hin
    · trivial
  · simpa [hf, hw, yield] using h.found

/-- A worker moves, and adds what its new stage yields. -/
theorem Working.setStage {i : Nat} {w : Worker} (h : n.Working r)
    (stage : Worker.Stage) (hw : r.workers[i]? = some w)
    (hs : t.submitted = r.submitted) (ha : t.awaited = r.awaited)
    (hmoved : t.workers = (r.setStage i stage).workers)
    (hcourse : n.OnCourse { w with stage := stage })
    (hbefore : n.yield w = none)
    (hf : t.found = r.found ++ (n.yield { w with stage := stage }).toList) :
    n.Working t := by
  obtain ⟨before, after, hsplit, hset⟩ := Run.workers_setStage hw
  refine ⟨?_, fun v hin => ?_, ?_⟩
  · rw [hs, ha, h.employed, hmoved, hset, hsplit]
    simp
  · rcases Run.mem_setStage hw (hmoved ▸ hin) with hin | rfl
    · exact h.onCourse v hin
    · exact hcourse
  · have hfound := h.found
    rw [hsplit, List.filterMap_append, List.filterMap_cons_none hbefore]
      at hfound
    rw [hf, hmoved, hset, List.filterMap_append]
    refine (hfound.append_right _).trans ?_
    rw [List.append_assoc]
    refine (List.perm_append_comm.append_left _).trans ?_
    cases hy : n.yield { w with stage := stage } <;> simp [hy]

/-- A worker on its course is none of those that were stopped. -/
theorem Working.not_stopped {i : Nat} {w : Worker} (h : n.Working r)
    (hw : r.workers[i]? = some w) :
    w.stage ≠ .stopping ∧ w.stage ≠ .stopped ∧ w.stage ≠ .abandoned := by
  have hcourse := h.onCourse w (List.mem_of_getElem? hw)
  refine ⟨fun hs => ?_, fun hs => ?_, fun hs => ?_⟩ <;>
    simp [OnCourse, hs] at hcourse

/-- Every effect of an allowed action that leaves the run well keeps its
workers on their course. -/
theorem Working.step (h : n.Working r) (htold : ∀ w ∈ r.workers, ∀ o,
    w.stage = .reported o → o = n.lookup w.reference) (ha : n.Allows r a)
    (he : r.Effect a t) (hwell : t.GoesWell) : n.Working t := by
  have hcalm := hwell.1
  obtain ⟨hrcalm, hthere⟩ := he.goesWell hwell
  cases he with
  | idle => exact h
  -- the driver without a new worker
  | ask hd | next hd | pass hd | conclude hd | fetched hd =>
    exact h.drive rfl rfl (by simp [Run.awaited, Run.conclude, hd]) rfl
  | complete hd =>
    rw [Run.leave_eq]
    exact h.drive rfl rfl (by simp [Run.awaited, hd]) rfl
  | queue hd =>
    refine ⟨?_, h.onCourse, h.found⟩
    have hnone : r.awaited = [] := by simp [Run.awaited, hd]
    show r.submitted ++ [_] = r.workers.map (·.reference) ++ [_]
    rw [h.employed, hnone, List.append_nil]
  -- a new worker
  | employ hd =>
    refine h.hire ?_ rfl rfl rfl
    have hnone : r.awaited = [] := by simp [Run.awaited, hd]
    simp [Run.spawn, h.employed, hnone]
  | @grant x items next hd =>
    refine h.hire ?_ rfl rfl rfl
    have hone : r.awaited = [x] := by simp [Run.awaited, hd]
    simp [Run.spawn, h.employed, hone]
  -- a worker moves
  | look hw | report hw =>
    exact h.setStage _ hw rfl rfl rfl trivial rfl
      (by simp [Run.setStage, yield])
  | @accept i x item hw =>
    have hbrings : n.lookup x = .value item :=
      (htold _ (List.mem_of_getElem? hw) _ rfl).symm
    refine h.setStage .finished hw ?_ ?_ ?_ ⟨item, hbrings⟩ rfl ?_
    · simp [Run.finish, Run.release_eq, Run.setStage]
    · simp [Run.finish, Run.release_eq, Run.setStage, Run.awaited]
    · simp [Run.finish, Run.release_eq, Run.setStage]
    · simp [Run.finish, Run.release_eq, Run.setStage, yield, option, hbrings]
  | cancel => exact h.drive rfl rfl rfl rfl
  -- what leaves the run cancelled or without its driver
  | exceed | fetchFailed => simp at hcalm
  | quit _ hc | refuse _ _ hc | stop _ _ _ hc => rw [hrcalm] at hc; cases hc
  | fetchCrashed => cases hwell.2
  | lookupFailed | lookupCrashed => simp at hcalm
  | finish hw _ hwhy =>
    rcases hwhy with hg | hc | hs
    · rw [hthere] at hg
      cases hg
    · rw [hrcalm] at hc
      cases hc
    · exact absurd hs (h.not_stopped hw).2.1
  | abandon _ _ hg => rw [hthere] at hg; cases hg
  | unwindStopping hw => exact absurd rfl (h.not_stopped hw).1
  | unwindAbandoned hw => exact absurd rfl (h.not_stopped hw).2.2
  | drop => exact ha.2.elim

/-- Once all workers have finished, the options found are those of the
references submitted. -/
theorem Working.found_perm (h : n.Working r) (hq : r.isQuiet = true)
    (hw : r.awaited = []) : r.found.Perm (r.submitted.filterMap n.option) := by
  have hall : ∀ w ∈ r.workers, w.stage = .finished := by
    simpa [Run.isQuiet] using hq
  have hsame :
      r.workers.filterMap n.yield =
        (r.workers.map (·.reference)).filterMap n.option := by
    rw [List.filterMap_map]
    exact List.filterMap_congr fun w hin => by simp [yield, hall w hin]
  rw [h.employed, hw, List.append_nil, ← hsame]
  exact h.found

/-! ## Workers of any run -/

/-- What holds of the workers in every state. -/
structure Staffed (n : Enumeration) (r : Run) : Prop where
  distinct : r.submitted.Nodup
  sent : ∀ w ∈ r.workers, w.reference ∈ r.submitted
  waits : ∀ x ∈ r.awaited, x ∈ r.submitted
  told : ∀ w ∈ r.workers, ∀ o, w.stage = .reported o → o = n.lookup w.reference
  working : r.GoesWell → n.Working r

/-- Every effect of an allowed action keeps what holds of the workers. -/
theorem Staffed.step (h : n.Staffed r) (ha : n.Allows r a) (he : r.Effect a t) :
    n.Staffed t := by
  have hsub : ∀ x ∈ r.submitted, x ∈ t.submitted := by
    intro x hx
    rcases he.submits with hs | ⟨y, _, hs⟩ <;> simp [hs, hx]
  refine ⟨?_, fun v hv => ?_, fun x hx => ?_, fun v hv o ho => ?_,
    fun hwell => ?_⟩
  · rcases he.submits with hs | ⟨x, hx, hs⟩ <;> rw [hs]
    · exact h.distinct
    · refine List.nodup_append.2 ⟨h.distinct, by simp, fun y hy z hz => ?_⟩
      rw [List.mem_singleton.1 hz]
      exact fun heq => hx (heq ▸ hy)
  · rcases he.mem_workers hv with hv | ⟨_, hv | hv⟩ | ⟨i, w, hw, href, _⟩
    · exact hsub _ (h.sent v hv)
    · exact hv
    · exact hsub _ (h.waits _ hv)
    · rw [href]
      exact hsub _ (h.sent w (List.mem_of_getElem? hw))
  · rcases he.awaited hx with hx | hx
    · exact hsub x (h.waits x hx)
    · exact hx
  · rcases he.mem_workers hv with hv | ⟨hnew, _⟩ | ⟨i, w, hw, href, hreport⟩
    · exact h.told v hv o ho
    · rw [hnew] at ho
      cases ho
    · obtain rfl := hreport o ho
      rw [href]
      exact ha.2 w hw
  · exact (h.working (he.goesWell hwell)).step h.told ha he hwell

/-- What holds of the workers holds on every way. -/
theorem Way.staffed (h : n.Way k r) : n.Staffed r := by
  refine h.invariant (I := n.Staffed) ?_ fun _ _ _ _ _ ih ha he => ih.step ha he
  have hnone : n.start.awaited = [] := by
    rw [start_eq]
    by_cases hfit : n.enumerator.concurrency ≤ Enumerator.maxPermits <;>
      simp [Run.awaited, hfit]
  refine ⟨?_, ?_, by simp [hnone], ?_, fun _ => ⟨?_, ?_, ?_⟩⟩
  · simp [start_eq]
  · simp [start_eq]
  · simp [start_eq]
  · rw [hnone]
    simp [start_eq]
  · simp [start_eq]
  · simp [start_eq]

end Enumeration

end CloudAccess
