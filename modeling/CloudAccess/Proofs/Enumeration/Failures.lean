import CloudAccess.Proofs.Enumeration.Paging
import CloudAccess.Proofs.Enumeration.Workers

/-!
# The first error of a run

A run keeps its first error.  Whatever the order of actions that led to it,
the error tells something of the enumeration itself.

* `Causes n e` says that the enumeration has in it what the error `e` tells: a
  fetch that fails, more pages than the limit allows, or a reference on its
  pages whose lookup fails or crashes.
* `Way.causes` says that it does whenever `e` is the first error of a run.
-/

namespace CloudAccess.Enumeration

/-- What an error tells of an enumeration. -/
inductive Causes (n : Enumeration) : EnumerationError → Prop
  | pageFetch {pages : List Page} {e : RemoteError} (hy : n.Yields pages)
      (hgo : ∀ p ∈ pages, p.isLast = false)
      (hf : n.answers pages.length = .failed e) :
      Causes n (.pageFetch (pages.length + 1) e)
  | pageLimitExceeded {pages : List Page} {limit : Nat} (hy : n.Yields pages)
      (hgo : ∀ p ∈ pages, p.isLast = false)
      (hl : n.enumerator.pageLimit = some limit) (hle : limit ≤ pages.length) :
      Causes n (.pageLimitExceeded limit)
  | enrichment {pages : List Page} {x : String} {e : RemoteError}
      (hy : n.Yields pages) (hx : x ∈ Page.references pages)
      (hf : n.lookup x = .failed e) :
      Causes n (.enrichment x e)
  | workerPanicked {pages : List Page} {x : String} (hy : n.Yields pages)
      (hx : x ∈ Page.references pages) (hf : n.lookup x = .crashed) :
      Causes n .workerPanicked

variable {n : Enumeration} {k : Nat} {r t : Run} {a : Run.Action}
  {e : EnumerationError}

/-- A failure becomes the first error only when there is none. -/
theorem causes_fail (hr : ∀ e ∈ r.firstError, n.Causes e) (he : n.Causes e)
    (hf : t.firstError = some (r.firstError.getD e)) :
    ∀ e ∈ t.firstError, n.Causes e := by
  intro e' he'
  rw [hf, Option.mem_some_iff] at he'
  cases hsome : r.firstError with
  | none =>
    rw [hsome] at he'
    exact he' ▸ he
  | some first =>
    rw [hsome] at he'
    exact he' ▸ hr first hsome

/-- The lookup of a worker's reference ends as the worker was told, and the
reference is on a page. -/
theorem Way.told (h : n.Way k r) {i : Nat} {x : String}
    {o : Outcome EnrichedItem} (hw : r.workers[i]? = some ⟨x, .reported o⟩) :
    x ∈ Page.references r.received ∧ n.lookup x = o := by
  have hin := List.mem_of_getElem? hw
  exact ⟨h.paged.listed x (h.staffed.sent _ hin),
    (h.staffed.told _ hin o rfl).symm⟩

/-- The first error of a run tells something of its enumeration. -/
theorem Way.causes (h : n.Way k r) : ∀ e ∈ r.firstError, n.Causes e := by
  refine h.invariant (I := fun r => ∀ e ∈ r.firstError, n.Causes e) ?_ ?_
  · simp [start_eq]
  intro k r a t hway ih ha he
  have hy := hway.paged.yields
  have hplace := hway.paged.place
  cases he with
  | @exceed cursor limit hd hlimit hle =>
    rw [hd] at hplace
    rw [hway.enumerator] at hlimit
    have hcause : n.Causes (.pageLimitExceeded limit) :=
      .pageLimitExceeded hy hplace.2.1 hlimit (hplace.1 ▸ hle)
    exact causes_fail ih hcause (by simp [Run.leave_eq, Run.fail_eq])
  | @fetchFailed cursor e hd =>
    rw [hd] at hplace
    have hcause : n.Causes (.pageFetch (r.pages + 1) e) := by
      rw [hplace.1]
      exact .pageFetch hy hplace.2.1 (hplace.1 ▸ ha.2.symm)
    exact causes_fail ih hcause (by simp [Run.leave_eq, Run.fail_eq])
  | lookupFailed hw =>
    obtain ⟨hx, ho⟩ := hway.told hw
    refine causes_fail ih (.enrichment hy hx ho) ?_
    simp [Run.finish, Run.release_eq, Run.fail_eq, Run.setStage]
  | lookupCrashed hw =>
    obtain ⟨hx, ho⟩ := hway.told hw
    refine causes_fail ih (.workerPanicked hy hx ho) ?_
    simp [Run.finish, Run.release_eq, Run.fail_eq, Run.setStage]
  | _ =>
    simpa [Run.leave_eq, Run.release_eq, Run.ungrant_eq, Run.finish,
      Run.setStage, Run.spawn, Run.conclude, Run.emit, Run.cancel] using ih

end CloudAccess.Enumeration
