import CloudAccess.Proofs.Enumeration.Paging
import CloudAccess.Proofs.Enumeration.Permits
import Mathlib.Algebra.GroupWithZero.Nat
import Mathlib.Data.Finset.Card

/-!
# Runs come to their end

No run stands still before its end, and a run over a finite listing takes a
bounded number of actions whatever their order.

* `Way.progress` says that something can happen as long as the driver has not
  come to its end.  A driver that waits for a permit waits for a worker, and
  every worker that holds a permit can go on.
* `effort` is what is left to do: for the driver, for each worker, and for
  those who may still cancel a handle.  `effort_lt` says that every action
  that can happen does some of it, and `Way.length_le` that a way is no longer
  than the effort at the start.
-/

namespace CloudAccess

namespace Enumeration

variable {n : Enumeration} {k : Nat} {r t : Run} {a : Run.Action}

/-! ## Something can happen -/

/-- A worker that has not finished can go on: by itself, by the end of its
lookup, or once the lookup is gone. -/
theorem worker_allowed {w : Worker} (hw : w ∈ r.workers)
    (hs : w.stage ≠ .finished) : ∃ a, n.Allows r a := by
  obtain ⟨i, hi⟩ := List.mem_iff_getElem?.1 hw
  obtain ⟨x, stage⟩ := w
  cases stage with
  | spawned =>
    exact ⟨.work i, by simp [Run.Enabled, Run.workerReady, hi], trivial⟩
  | looking =>
    refine ⟨.report i (n.lookup x), ⟨x, hi⟩, fun v hv => ?_⟩
    rw [hi, Option.some_inj] at hv
    rw [← hv]
  | reported o =>
    exact ⟨.work i, by simp [Run.Enabled, Run.workerReady, hi], trivial⟩
  | stopping => exact ⟨.unwind i, ⟨x, .inl hi⟩, trivial⟩
  | stopped =>
    exact ⟨.work i, by simp [Run.Enabled, Run.workerReady, hi], trivial⟩
  | abandoned => exact ⟨.unwind i, ⟨x, .inr hi⟩, trivial⟩
  | finished => exact absurd rfl hs

/-- A driver that waits for a permit waits for a worker. -/
theorem exists_holder (h : r.Permitted) (hq : r.isQueueing = true)
    (hg : r.granted = false) : ∃ w ∈ r.workers, w.holdsPermit = true := by
  have hconserved := h.conserved
  have hpos := r.enumerator.concurrency_pos
  have hnone := h.none_free hq hg
  simp only [Run.reserve, hg, hnone] at hconserved
  have hholders : 0 < r.workers.countP Worker.holdsPermit := by
    simp only [Run.holders] at hconserved
    simp at hconserved
    omega
  exact List.countP_pos_iff.1 hholders

/-- As long as the driver has not come to its end, something can happen. -/
theorem Way.progress (h : n.Way k r) (hd : r.driver.isOver = false) :
    ∃ a, n.Allows r a := by
  have drives (hready : r.driverReady = true) : ∃ a, n.Allows r a :=
    ⟨.drive, hready, trivial⟩
  cases hat : r.driver with
  | turning cursor | submitting items next =>
    exact drives (by simp [Run.driverReady, hat])
  | fetching cursor =>
    cases hc : r.isCancelled with
    | true => exact drives (by simp [Run.driverReady, hat, hc])
    | false => exact ⟨.answer (n.answers r.pages), ⟨⟨cursor, hat⟩, hc⟩, rfl⟩
  | queueing x items next =>
    cases hg : r.granted with
    | true => exact drives (by simp [Run.driverReady, hat, hg])
    | false =>
      obtain ⟨w, hw, holds⟩ :=
        exists_holder h.permitted (by simp [Run.isQueueing, hat]) hg
      exact worker_allowed hw fun hs => by
        simp [Worker.holdsPermit, hs] at holds
  | draining =>
    cases hq : r.isQuiet with
    | true => exact drives (by simp [Run.driverReady, hat, hq])
    | false =>
      simp only [Run.isQuiet, List.all_eq_false, decide_eq_true_eq] at hq
      obtain ⟨w, hw, hs⟩ := hq
      exact worker_allowed hw hs
  | returned | crashed | dropped => rw [hat] at hd; cases hd

/-- A run to which nothing more can happen has come to its end. -/
theorem Complete.isOver (h : n.Complete r) : r.driver.isOver = true := by
  obtain ⟨⟨k, hway⟩, hstuck⟩ := h
  cases hd : r.driver.isOver with
  | true => rfl
  | false =>
    obtain ⟨a, ha⟩ := hway.progress hd
    exact absurd ha (hstuck a)

end Enumeration

/-! ## What is left to do -/

/-- How many moves a worker has before it at most. -/
def Worker.effort (w : Worker) : Nat :=
  match w.stage with
  | .spawned => 4
  | .looking => 3
  | .reported _ | .stopping => 2
  | .stopped | .abandoned => 1
  | .finished => 0

/-- What a page takes that is still to come: a reference is submitted, waits
for a permit and gets a worker. -/
def Page.effort (p : Page) : Nat := 6 * p.items.length + 6

/-- What the pages of a listing take that a run has not received. -/
def Run.ahead (r : Run) (pages : List Page) : Nat :=
  ((pages.drop r.pages).map Page.effort).sum

/-- What the driver has before it, over a listing. -/
def Run.driverEffort (r : Run) (pages : List Page) : Nat :=
  match r.driver with
  | .turning _ => 4 + r.ahead pages
  | .fetching _ => 3 + r.ahead pages
  | .submitting items _ => 5 + 6 * items.length + r.ahead pages
  | .queueing _ items _ => 10 + 6 * items.length + r.ahead pages
  | .draining => 1
  | .returned _ | .crashed | .dropped => 0

/-- What the driver and the workers have before them. -/
def Run.effort (r : Run) (pages : List Page) : Nat :=
  r.driverEffort pages + (r.workers.map Worker.effort).sum

namespace Run

variable {r t : Run} {a : Action} {pages : List Page}

/-- A worker that moves closer to its end leaves less to do. -/
theorem workers_effort_lt {i : Nat} {w : Worker} (stage : Worker.Stage)
    (hw : r.workers[i]? = some w)
    (hmoved : t.workers = (r.setStage i stage).workers)
    (hlt : Worker.effort { w with stage := stage } < w.effort) :
    (t.workers.map Worker.effort).sum < (r.workers.map Worker.effort).sum := by
  obtain ⟨before, after, hsplit, hset⟩ := workers_setStage hw
  rw [hmoved, hset, hsplit]
  simp only [List.map_append, List.map_cons, List.sum_append, List.sum_cons]
  omega

/-- What the others do leaves the driver what it has before it. -/
theorem Effect.driverEffort (he : r.Effect a t) (ha : a.isDrivers = false) :
    t.driverEffort pages = r.driverEffort pages := by
  obtain ⟨hd, _, _, hp, _⟩ := he.paging ha
  simp only [Run.driverEffort, ahead, hd, hp]

/-- A driver that ends paging has little left to do. -/
theorem effort_leave (r : Run) (pages : List Page) :
    r.leave.effort pages = 1 + (r.workers.map Worker.effort).sum := by
  simp [effort, Run.driverEffort, leave_eq]

/-- A driver that can quit is still paging. -/
theorem driverEffort_of_canQuit (pages : List Page) (h : r.canQuit = true) :
    1 < r.driverEffort pages := by
  cases hd : r.driver <;> simp [canQuit, hd] at h <;>
    simp only [Run.driverEffort, hd] <;> omega

/-- A page to come is ahead until it is received. -/
theorem ahead_of_getElem? {p : Page} (h : pages[r.pages]? = some p) :
    r.ahead pages = p.effort +
      ((pages.drop (r.pages + 1)).map Page.effort).sum := by
  obtain ⟨hlt, rfl⟩ := List.getElem?_eq_some_iff.1 h
  rw [ahead, List.drop_eq_getElem_cons hlt, List.map_cons, List.sum_cons]

/-- An action that applies does some of what is left to do, unless it is a
cancellation.  A page that is received is the next one of the listing. -/
theorem Effect.effort_lt (he : r.Effect a t) (ha : r.Enabled a)
    (hcancel : ∀ h, a ≠ .cancel h) (hdrop : a ≠ .drop)
    (hpage : ∀ cursor p, r.driver = .fetching cursor → a = .answer (.value p) →
      pages[r.pages]? = some p) : t.effort pages < r.effort pages := by
  cases hdrivers : a.isDrivers with
  | true =>
    cases he with
    | idle hidle => exact absurd ha hidle
    | exceed hd | complete hd | refuse hd | fetchFailed hd =>
      rw [effort_leave]
      simp only [effort, Run.driverEffort, hd, fail_eq]
      omega
    | quit hquit =>
      have := driverEffort_of_canQuit pages hquit
      rw [effort_leave]
      simp only [effort]
      omega
    | ask hd | next hd | conclude hd | fetchCrashed hd =>
      simp only [effort, Run.driverEffort, Run.conclude, emit, hd, ahead]
      omega
    | pass hd | queue hd =>
      simp only [effort, Run.driverEffort, hd, ahead, List.length_cons]
      omega
    | employ hd | grant hd =>
      simp only [effort, Run.driverEffort, spawn, hd, ahead, List.length_cons,
        List.map_append, List.sum_append, List.map_singleton,
        List.sum_singleton, Worker.effort]
      omega
    | fetched hd =>
      have hahead := ahead_of_getElem? (hpage _ _ hd rfl)
      rw [ahead, Page.effort] at hahead
      simp only [effort, Run.driverEffort, hd, ahead]
      omega
    | drop => exact absurd rfl hdrop
    | _ => cases hdrivers
  | false =>
    rw [effort, effort, he.driverEffort hdrivers]
    refine Nat.add_lt_add_left ?_ _
    cases he with
    | idle hidle => exact absurd ha hidle
    | look hw | unwindStopping hw | unwindAbandoned hw | report hw =>
      exact workers_effort_lt _ hw rfl (by simp [Worker.effort])
    | stop hw hs =>
      refine workers_effort_lt _ hw rfl ?_
      rcases hs with hs | hs <;> simp [Worker.effort, hs]
    | finish hw hs =>
      refine workers_effort_lt .finished hw ?_ ?_
      · simp [Run.finish, release_eq]
      · rcases hs with hs | ⟨o, hs⟩ | hs <;> simp [Worker.effort, hs]
    | accept hw | lookupFailed hw | lookupCrashed hw =>
      refine workers_effort_lt .finished hw ?_ (by simp [Worker.effort])
      simp [Run.finish, release_eq, fail_eq, setStage]
    | abandon hw hs =>
      refine workers_effort_lt .abandoned hw ?_ ?_
      · simp [release_eq]
      · rcases hs with hs | hs <;> simp [Worker.effort, hs]
    | cancel => exact absurd rfl (hcancel _)
    | _ => cases hdrivers

end Run

namespace Enumeration

variable {n : Enumeration} {k : Nat} {r t : Run} {a : Run.Action}
  {pages : List Page}

/-- The page that a fetch brings is the next one of the listing. -/
theorem Way.fetched (h : n.Way k r) (hl : n.Lists pages)
    {cursor : Option String} {p : Page} (hd : r.driver = .fetching cursor)
    (hp : .value p = n.answers r.pages) : pages[r.pages]? = some p := by
  have hplace := h.paged.place
  rw [hd] at hplace
  have hlt := hl.length_lt h.paged.yields hplace.2.1
  rw [← hplace.1] at hlt
  have hsame := hl.answered r.pages _ (List.getElem?_eq_getElem hlt)
  rw [← hp] at hsame
  injection hsame with hsame
  rw [hsame, List.getElem?_eq_getElem hlt]

/-- Everything but a cancellation does some of what is left to do. -/
theorem effort_lt_of_effect (hway : n.Way k r) (hl : n.Lists pages)
    (ha : n.Allows r a) (he : r.Effect a t) (hcancel : ∀ h, a ≠ .cancel h) :
    t.effort pages < r.effort pages := by
  refine he.effort_lt ha.1 hcancel (by rintro rfl; exact ha.2.elim) ?_
  rintro cursor p hd rfl
  exact hway.fetched hl hd ha.2

/-- How many handles may still be cancelled from outside. -/
def calm (n : Enumeration) (r : Run) : Nat :=
  ((Finset.range n.signals.count).filter (· ∉ r.signals.raised)).card

/-- No effect takes a cancellation back. -/
theorem calm_le (he : r.Effect a t) : n.calm t ≤ n.calm r := by
  refine Finset.card_le_card fun x hx => ?_
  rw [Finset.mem_filter] at hx ⊢
  exact ⟨hx.1, fun hin => hx.2 (he.raised hin)⟩

/-- A handle is cancelled from outside only once. -/
theorem calm_lt {h : Cancellation} (ha : n.Allows r (.cancel h)) :
    n.calm (r.cancel h) < n.calm r := by
  obtain ⟨_, _, hissued, hnot⟩ := ha
  refine Finset.card_lt_card (Finset.ssubset_iff_subset_ne.2 ⟨fun x hx => ?_,
    fun heq => ?_⟩)
  · rw [Finset.mem_filter] at hx ⊢
    exact ⟨hx.1, fun hin => hx.2 (Signals.mem_raised_cancel.2 (.inr hin))⟩
  · have hin : h.own ∈ (Finset.range n.signals.count).filter
        (· ∉ r.signals.raised) := by
      simp [hissued, hnot]
    rw [← heq, Finset.mem_filter] at hin
    exact hin.2 (Signals.mem_raised_cancel.2 (.inl rfl))

/-- What is left to do over a listing. -/
def effort (n : Enumeration) (pages : List Page) (r : Run) : Nat :=
  r.effort pages + n.calm r

/-- Every action that can happen does some of what is left to do. -/
theorem effort_lt (hway : n.Way k r) (hl : n.Lists pages) (ha : n.Allows r a) :
    n.effort pages (r.act a) < n.effort pages r := by
  have he := r.effect_act a
  by_cases hcancel : ∃ h, a = .cancel h
  · obtain ⟨h, rfl⟩ := hcancel
    have hsame : (r.cancel h).effort pages = r.effort pages := rfl
    have hlt := calm_lt ha
    show (r.cancel h).effort pages + n.calm (r.cancel h) < _
    rw [hsame]
    exact Nat.add_lt_add_left hlt _
  · have hlt := effort_lt_of_effect hway hl ha he fun h heq => hcancel ⟨h, heq⟩
    have hle : n.calm (r.act a) ≤ n.calm r := calm_le he
    show (r.act a).effort pages + n.calm (r.act a) < r.effort pages + n.calm r
    omega

/-- A way over a listing is no longer than the effort at its start. -/
theorem Way.length_le (h : n.Way k r) (hl : n.Lists pages) :
    k ≤ n.effort pages n.start := by
  have hsum : k + n.effort pages r ≤ n.effort pages n.start := by
    induction h with
    | start => omega
    | act hway ha ih =>
      have hlt := effort_lt hway hl ha
      omega
  omega

end Enumeration

end CloudAccess
