import CloudAccess.Proofs.Enumeration.Horizon
import CloudAccess.Proofs.Enumeration.Pending
import Mathlib.Algebra.Order.BigOperators.Group.List
import Mathlib.Algebra.Order.Group.Nat
import Mathlib.Data.Prod.Lex
import Mathlib.Order.Lattice.Nat

/-!
# What a scene has before it

Each step of a scene over a finite chain of pages leaves less to do, whoever
answers its run.

* A `Gauge` says which tasks arise and how much each of them has before it.
  `Process.Rests` says that each turn does some of that, and `Process.Wakes`
  that a task that waits goes on at some unit, until which the time does some.
* `Standing` is the invariant of a scene whose tasks arise so and whose pages
  to come are bounded.
* `left` is what a scene has before it: the pages to come, and then what the
  run, its lookups, its next fetch and its caller have before them.
* `Standing.left_step_lt` says that what a task does leaves less of it, and
  `Standing.left_time_lt` that the time does, too, when no task waits for
  ever.  Then `Standing.goesOn` says that there is a step until the scene is
  over.
-/

namespace CloudAccess

variable {ω φ κ : Type}

/-! ## Tasks that come to an end -/

/-- Which tasks arise, and how much each of them has before it at a moment. -/
structure Gauge (κ : Type) where
  own : κ → Prop
  left : Moment → κ → Nat

/-- Each turn of a task after which it is still under way leaves it less to
do, so that it comes to wait or to its end. -/
structure Process.Rests {α : Type} (p : Process ω κ α) (g : Gauge κ) :
    Prop where
  keeps : ∀ {world world' : ω} {s : Situation} {task task' : κ}, g.own task →
    p.GoesOn world s task world' task' → g.own task'
  falls : ∀ {world world' : ω} {s : Situation} {task task' : κ}, g.own task →
    p.ready world s task = true → p.GoesOn world s task world' task' →
      g.left s.moment task' < g.left s.moment task

/-- A task that waits does so until some unit, and the time until then leaves
it less to do. -/
structure Process.Wakes {α : Type} (p : Process ω κ α) (g : Gauge κ) :
    Prop where
  passes : ∀ {m : Moment} {unit : Nat} {task : κ}, g.own task →
    g.left (m.moveTo unit) task ≤ g.left m task
  due : ∀ {world : ω} {s : Situation} {task : κ}, g.own task →
    p.ready world s task = false → ∃ unit, p.due world s task = some unit ∧
      g.left (s.moment.moveTo unit) task < g.left s.moment task

namespace Remote

/-- The fetches and the lookups come to wait or to their end, and a lookup can
go on at first. -/
structure Rests (r : Remote ω φ κ) (f : Gauge φ) (l : Gauge κ) : Prop where
  fetching : r.fetching.Rests f
  looking : r.looking.Rests l
  fetch : ∀ k cursor, f.own (r.fetch k cursor)
  lookup : ∀ x, l.own (r.lookup x)
  begins : ∀ world s x, r.looking.ready world s (r.lookup x) = true

/-- No fetch and no lookup waits for ever. -/
structure Ends (r : Remote ω φ κ) (f : Gauge φ) (l : Gauge κ) :
    Prop extends r.Rests f l where
  fetchWakes : r.fetching.Wakes f
  lookupWakes : r.looking.Wakes l

end Remote

namespace Run

variable {r t : Run} {a : Action}

/-- The references that the driver has yet to give to workers. -/
def toSubmit (r : Run) : List String :=
  match r.driver with
  | .submitting items _ => items
  | .queueing x items _ => x :: items
  | _ => []

/-- Unless a page is received, the driver gives the first reference to a
worker, or passes some. -/
theorem Effect.toSubmit (he : r.Effect a t)
    (hreceived : t.received = r.received) :
    (t.workers.length = r.workers.length ∧ t.toSubmit <:+ r.toSubmit) ∨
      ∃ x, t.workers = r.workers ++ [⟨x, .spawned⟩] ∧
        r.toSubmit = x :: t.toSubmit := by
  cases hdrivers : a.isDrivers with
  | false =>
    refine .inl ⟨?_, ?_⟩
    · rcases he.moved hdrivers with hsame | ⟨i, w, stage, _, hmoved, _⟩
      · rw [hsame]
      · simp [hmoved, setStage]
    · rw [Run.toSubmit, Run.toSubmit, (he.paging hdrivers).1]
  | true =>
    cases he with
    | employ hd | grant hd =>
      exact .inr ⟨_, rfl, by simp [Run.toSubmit, hd, spawn]⟩
    | fetched => simp at hreceived
    | idle => exact .inl ⟨rfl, List.suffix_refl _⟩
    | pass hd | queue hd | next hd =>
      exact .inl ⟨rfl, by simp [Run.toSubmit, hd]⟩
    | exceed | ask | quit | complete | refuse | conclude | fetchCrashed
    | fetchFailed | drop =>
      exact .inl ⟨by simp [leave_eq, fail_eq, Run.conclude, emit, ungrant_eq],
        by simp [Run.toSubmit, leave_eq, Run.conclude]⟩
    | _ => cases hdrivers

/-- What is no page received leaves less to do before any page to come. -/
theorem Effect.effort_nil_lt (he : r.Effect a t) (ha : r.Enabled a)
    (hcancel : ∀ g, a ≠ .cancel g) (hdrop : a ≠ .drop)
    (hreceived : t.received = r.received) : t.effort [] < r.effort [] := by
  refine he.effort_lt ha hcancel hdrop fun cursor p hd hanswer => ?_
  subst hanswer
  cases he with
  | idle hidle => exact absurd ha hidle
  | fetched => simp at hreceived

/-- A driver that is given up has nothing before it. -/
theorem effort_drop_le (r : Run) : (r.act .drop).effort [] ≤ r.effort [] := by
  have he := r.effect_act .drop
  generalize r.act .drop = t at he
  cases he with
  | idle => exact Nat.le_refl _
  | drop =>
    simp only [effort, Run.driverEffort, ungrant_eq]
    omega

end Run

namespace RunScene

variable {r : Remote ω φ κ} {f : Gauge φ} {l : Gauge κ} {s t : RunScene ω φ κ}
  {i : Nat} {within : Nat → RunScene ω φ κ → Prop} {m : Moment} {unit : Nat}
  {e : Enumerator} {signals : Signals} {caller : Cancellation}

/-! ## What is left -/

/-- How far off the unit is at which the caller intends something: it is to
come, or it has come. -/
def intentLeft (m : Moment) : Option Nat → Nat
  | none => 0
  | some unit => if unit ≤ m.unit then 1 else 2

theorem intentLeft_moveTo_le (m : Moment) (unit : Nat) (intent : Option Nat) :
    intentLeft (m.moveTo unit) intent ≤ intentLeft m intent := by
  cases intent with
  | none => exact Nat.le_refl _
  | some at' =>
    unfold intentLeft Moment.moveTo
    grind

/-- A unit that comes is no longer to come. -/
theorem intentLeft_moveTo_lt (h : m.unit < unit) :
    intentLeft (m.moveTo unit) (some unit) < intentLeft m (some unit) := by
  unfold intentLeft Moment.moveTo
  grind

/-- What the lookup of a worker has before it. -/
def lookupLeft (r : Remote ω φ κ) (l : Gauge κ) (s : RunScene ω φ κ) (i : Nat) :
    Nat :=
  (pending r s i).elim 0 (l.left s.moment)

/-- What the lookups of the workers have before them. -/
def lookupsLeft (r : Remote ω φ κ) (l : Gauge κ) (s : RunScene ω φ κ) : Nat :=
  ((List.range s.run.workers.length).map (lookupLeft r l s)).sum

/-- What the lookups have before them that are yet to be given to workers. -/
def submitLeft (r : Remote ω φ κ) (l : Gauge κ) (s : RunScene ω φ κ) : Nat :=
  (s.run.toSubmit.map fun x => l.left s.moment (r.lookup x)).sum

/-- What the next fetch has before it. -/
def upcomingLeft (r : Remote ω φ κ) (f : Gauge φ) (s : RunScene ω φ κ) : Nat :=
  (upcoming r s).elim 0 (f.left s.moment)

/-- What a scene has before it until the next page is received. -/
def stepsLeft (r : Remote ω φ κ) (f : Gauge φ) (l : Gauge κ)
    (s : RunScene ω φ κ) : Nat :=
  s.run.effort [] + (lookupsLeft r l s + submitLeft r l s) +
    upcomingLeft r f s +
    (intentLeft s.moment s.cancelAt + intentLeft s.moment s.dropAt)

/-- The least bound on the pages to come. -/
noncomputable def pagesLeft (within : Nat → RunScene ω φ κ → Prop)
    (s : RunScene ω φ κ) : Nat :=
  sInf {n | within n s}

/-- What a scene has before it: pages to come, and the steps until the next of
them. -/
noncomputable def left (r : Remote ω φ κ) (f : Gauge φ) (l : Gauge κ)
    (within : Nat → RunScene ω φ κ → Prop) (s : RunScene ω φ κ) : ℕ ×ₗ ℕ :=
  toLex (pagesLeft within s, stepsLeft r f l s)

/-! ## Scenes whose tasks come to an end -/

/-- The tasks under way in a scene are those that arise. -/
structure Owned (f : Gauge φ) (l : Gauge κ) (s : RunScene ω φ κ) : Prop where
  fetch : ∀ task ∈ s.fetch, f.own task
  lookups : ∀ p ∈ s.lookups, l.own p.2

theorem Owned.lookupOf (h : Owned f l s) (hr : r.Rests f l) (i : Nat)
    (x : String) : l.own (lookupOf r s i x) := by
  unfold RunScene.lookupOf
  cases htask : s.lookup? i with
  | none => exact hr.lookup x
  | some task => exact h.lookups _ (mem_of_lookup? htask)

/-- The tasks under way after a step are those that were, with what they have
come to, or one that the step begins. -/
theorem Owned.step (h : Owned f l s) (hr : r.Rests f l) (hm : Move r s t) :
    Owned f l t := by
  have hfilter {i : Nat} (p : Nat × κ) (hp : p ∈ s.lookups.filter (·.1 ≠ i)) :
      l.own p.2 :=
    h.lookups p (List.mem_filter.1 hp).1
  refine ⟨?_, ?_⟩
  · cases hm with
    | ask =>
      intro task htask
      obtain rfl := Option.mem_some_iff.1 htask
      exact hr.fetch _ _
    | fetch hfetch _ _ hgoes =>
      intro task htask
      obtain rfl := Option.mem_some_iff.1 htask
      exact hr.fetching.keeps (h.fetch _ hfetch) hgoes
    | drive | answer | giveUp => exact fun _ htask => (by cases htask)
    | work | lookup | report | unwind | cancel | time => exact h.fetch
  · cases hm with
    | @lookup i x task world run hlooking _ hgoes =>
      intro p hp
      rcases List.mem_cons.1 hp with rfl | hp
      · exact hr.looking.keeps (h.lookupOf hr i x) hgoes
      · exact hfilter p hp
    | report | unwind => exact hfilter
    | ask | drive | fetch | answer | work | cancel | giveUp | time =>
      exact h.lookups

/-- No task is under way at the start. -/
theorem Opens.owned (hs : s.Opens e signals caller) : Owned f l s where
  fetch task htask := by simp [hs.fetch_eq] at htask
  lookups p hp := by simp [hs.lookups_eq] at hp

/-- A scene whose tasks are those that arise and whose pages to come are
bounded. -/
structure Standing (r : Remote ω φ κ) (f : Gauge φ) (l : Gauge κ)
    (within : Nat → RunScene ω φ κ → Prop) (s : RunScene ω φ κ) :
    Prop extends s.Attended where
  permitted : s.run.Permitted
  fetch : ∀ task ∈ s.fetch, f.own task
  lookups : ∀ p ∈ s.lookups, l.own p.2
  bounded : ∃ n, within n s

theorem Standing.owned (h : Standing r f l within s) : Owned f l s :=
  ⟨h.fetch, h.lookups⟩

theorem Standing.upcoming (h : Standing r f l within s) (hr : r.Rests f l)
    {task : φ} (htask : RunScene.upcoming r s = some task) : f.own task := by
  rw [RunScene.upcoming, Option.orElse_eq_some] at htask
  rcases htask with hfetch | ⟨-, hnext⟩
  · exact h.fetch task hfetch
  · obtain ⟨cursor, -, rfl⟩ := Option.map_eq_some_iff.1 hnext
    exact hr.fetch _ cursor

theorem Standing.lookupOf (h : Standing r f l within s) (hr : r.Rests f l)
    (i : Nat) (x : String) : l.own (lookupOf r s i x) :=
  h.owned.lookupOf hr i x

/-- Each step keeps what holds of a scene. -/
theorem Standing.step (h : Standing r f l within s) (hr : r.Rests f l)
    (hw : Reckons r within) (hstep : (play r).Step s t) :
    Standing r f l within t := by
  have hm := move hstep
  have hattended : t.Attended := reaches_attended (.single hstep) h.toAttended
  have howned := h.owned.step hr hm
  obtain ⟨n, hn⟩ := h.bounded
  obtain ⟨m, -, hbounded, -⟩ := hw n s t h.toAttended hn hm
  refine ⟨hattended, ?_, howned.fetch, howned.lookups, m, hbounded⟩
  rcases hm.run_eq with hsame | ⟨a, hrun⟩
  · exact hsame ▸ h.permitted
  · exact hrun ▸ (s.run.effect_act a).permitted h.permitted

/-- At its start a scene is one whose pages to come are bounded. -/
theorem Opens.standing (hs : s.Opens e signals caller)
    (hbounded : ∃ n, within n s) :
    Standing r f l within s where
  toAttended := hs.attended
  permitted := by
    rw [hs.run_eq]
    exact Run.permitted_start _ _ _
  fetch := (hs.owned (l := l)).fetch
  lookups := (hs.owned (f := f)).lookups
  bounded := hbounded

/-- Wherever steps lead, a scene keeps what holds of it. -/
theorem Standing.reaches (h : Standing r f l within s) (hr : r.Rests f l)
    (hw : Reckons r within) (hreach : (play r).Reaches s t) :
    Standing r f l within t :=
  hreach.invariant h fun _ _ hu hstep => hu.step hr hw hstep

/-! ## Each step does some of what is left -/

/-- No step raises the bound on the pages to come, and it falls with each page
that is received. -/
theorem pagesLeft_le (hw : Reckons r within) (hs : s.Attended)
    (hbounded : ∃ n, within n s) (hm : Move r s t) :
    pagesLeft within t ≤ pagesLeft within s ∧
      (t.run.received ≠ s.run.received →
        pagesLeft within t < pagesLeft within s) := by
  obtain ⟨m, hle, hn, hlt⟩ :=
    hw (pagesLeft within s) s t hs (Nat.sInf_mem hbounded) hm
  have hleast : pagesLeft within t ≤ m := Nat.sInf_le hn
  exact ⟨Nat.le_trans hleast hle, fun hne =>
    Nat.lt_of_le_of_lt hleast (hlt hne)⟩

/-- The fetch that comes next has no more before it, unless a page was
received. -/
theorem upcomingLeft_le (hh : Heads r s t) (h : Standing r f l within s)
    (hr : r.Rests f l) (hm : t.moment = s.moment)
    (hreceived : t.run.received = s.run.received) :
    upcomingLeft r f t ≤ upcomingLeft r f s := by
  unfold upcomingLeft
  rw [hm]
  cases hh with
  | stays hsame => rw [hsame]
  | ends hnone => simp [hnone]
  | @goesOn task task' _ hbefore hafter hready hgoes =>
    have hlt : f.left s.moment task' < f.left s.moment task :=
      hr.fetching.falls (h.upcoming hr hbefore) hready hgoes
    simpa [hbefore, hafter] using Nat.le_of_lt hlt
  | receives _ _ _ hne => exact absurd hreceived hne

/-- A lookup has no more before it when it is the same as before. -/
theorem lookupLeft_le (hle : ∀ task, pending r t i = some task →
      pending r s i = some task ∧ l.left t.moment task ≤ l.left s.moment task) :
    lookupLeft r l t i ≤ lookupLeft r l s i := by
  unfold lookupLeft
  cases htask : pending r t i with
  | none => exact Nat.zero_le _
  | some task =>
    obtain ⟨hbefore, hleft⟩ := hle task htask
    simpa [hbefore] using hleft

/-- What happens to the run begins a lookup only for a reference that was yet
to be given to a worker. -/
theorem lookupsLeft_act_le (hs : s.Attended) {a : Run.Action}
    (hrun : t.run = s.run.act a) (hm : t.moment = s.moment)
    (hreceived : t.run.received = s.run.received)
    (hlookup : ∀ i w, t.run.workers[i]? = some w → w.isPending = true →
      t.lookup? i = s.lookup? i) :
    lookupsLeft r l t + submitLeft r l t ≤
      lookupsLeft r l s + submitLeft r l s := by
  have hold : ((List.range s.run.workers.length).map (lookupLeft r l t)).sum ≤
      lookupsLeft r l s :=
    List.sum_le_sum fun i hi => lookupLeft_le fun task hpending =>
      ⟨pending_act hrun hlookup (List.mem_range.1 hi) hpending, by rw [hm]⟩
  rcases (hrun ▸ s.run.effect_act a : s.run.Effect a t.run).toSubmit
      hreceived with
    ⟨hlength, passed, hpassed⟩ | ⟨x, hadded, hfirst⟩
  · have hlookups : lookupsLeft r l t ≤ lookupsLeft r l s := by
      rwa [lookupsLeft, hlength]
    have hsubmit : submitLeft r l t ≤ submitLeft r l s := by
      rw [submitLeft, submitLeft, ← hpassed, List.map_append,
        List.sum_append, hm]
      exact Nat.le_add_left _ _
    omega
  · -- the first reference goes to the new worker
    have hw : t.run.workers[s.run.workers.length]? = some ⟨x, .spawned⟩ := by
      rw [hadded]
      exact List.getElem?_concat_length
    have hnew : lookupLeft r l t s.run.workers.length =
        l.left s.moment (r.lookup x) := by
      have hpending : pending r t s.run.workers.length = some (r.lookup x) :=
        pending_eq_some_iff.2
          ⟨_, hw, rfl, by
            rw [lookupOf, hlookup _ _ hw rfl, hs.lookup?_length]; rfl⟩
      rw [lookupLeft, hpending, Option.elim_some, hm]
    have hlookups : lookupsLeft r l t ≤
        lookupsLeft r l s + l.left s.moment (r.lookup x) := by
      have hlength : t.run.workers.length = s.run.workers.length + 1 := by
        simp [hadded]
      rw [lookupsLeft, hlength, List.range_succ, List.map_append,
        List.sum_append]
      simpa [hnew] using hold
    have hsubmit : submitLeft r l s =
        l.left s.moment (r.lookup x) + submitLeft r l t := by
      rw [submitLeft, submitLeft, hfirst, List.map_cons, List.sum_cons, hm]
    omega

/-- A lookup that goes on does some of what the lookups have before them. -/
theorem lookupsLeft_lt (hhere : t.run.workers = s.run.workers)
    (hm : t.moment = s.moment) {x : String} {task : κ}
    (hw : s.run.workers[i]? = some ⟨x, .looking⟩)
    (hlookups : t.lookups = (i, task) :: s.lookups.filter (·.1 ≠ i))
    (hlt : l.left s.moment task < l.left s.moment (lookupOf r s i x)) :
    lookupsLeft r l t < lookupsLeft r l s := by
  have hone : lookupLeft r l t i < lookupLeft r l s i := by
    rw [lookupLeft, lookupLeft, pending_goesOn hhere hlookups hw,
      pending_looking hw, hm]
    exact hlt
  unfold lookupsLeft
  rw [hhere]
  refine List.sum_lt_sum _ _ (fun j _ => ?_)
    ⟨i, List.mem_range.2 (List.getElem?_eq_some_iff.1 hw).1, hone⟩
  rcases eq_or_ne j i with rfl | hne
  · exact Nat.le_of_lt hone
  · exact lookupLeft_le fun other hpending =>
      ⟨pending_of_ne hhere hlookups hne ▸ hpending, by rw [hm]⟩

/-- What happens to the run does some of what is left, unless it is a page
received. -/
theorem stepsLeft_act_lt (hh : Heads r s t) (h : Standing r f l within s)
    (hr : r.Rests f l) {a : Run.Action} (hrun : t.run = s.run.act a)
    (ha : s.run.Enabled a) (hcancel : ∀ g, a ≠ .cancel g) (hdrop : a ≠ .drop)
    (hreceived : t.run.received = s.run.received) (hm : t.moment = s.moment)
    (hintents : t.cancelAt = s.cancelAt ∧ t.dropAt = s.dropAt)
    (hlookup : ∀ i w, t.run.workers[i]? = some w → w.isPending = true →
      t.lookup? i = s.lookup? i) : stepsLeft r f l t < stepsLeft r f l s := by
  have he : s.run.Effect a t.run := hrun ▸ s.run.effect_act a
  have heffort := he.effort_nil_lt ha hcancel hdrop hreceived
  have hlookups :=
    lookupsLeft_act_le (r := r) (l := l) h.toAttended hrun hm hreceived hlookup
  have hupcoming := upcomingLeft_le hh h hr hm hreceived
  unfold stepsLeft
  rw [hm, hintents.1, hintents.2]
  omega

/-- A fetch goes on. -/
theorem stepsLeft_fetch_lt (h : Standing r f l within s) (hr : r.Rests f l)
    {task task' : φ} {world : ω} {run : Run} (hfetch : s.fetch = some task)
    (hready : r.fetching.ready s.world s.situation task = true)
    (hgoes : r.fetching.GoesOn s.world s.situation task world task')
    (hrun : run = s.run ∨ ∃ g, run = s.run.cancel g) :
    stepsLeft r f l { s with run := run, fetch := some task', world := world } <
      stepsLeft r f l s := by
  have hlt : f.left s.moment task' < f.left s.moment task :=
    hr.fetching.falls (h.fetch _ hfetch) hready hgoes
  have hbefore : upcomingLeft r f s = f.left s.moment task := by
    simp [upcomingLeft, RunScene.upcoming, hfetch]
  have hafter : upcomingLeft r f
        { s with run := run, fetch := some task', world := world } =
      f.left s.moment task' := by simp [upcomingLeft, RunScene.upcoming]
  unfold stepsLeft
  rw [hbefore, hafter]
  rcases hrun with rfl | ⟨g, rfl⟩ <;>
    exact Nat.add_lt_add_right (Nat.add_lt_add_left hlt _) _

/-- A lookup goes on. -/
theorem stepsLeft_lookup_lt (h : Standing r f l within s) (hr : r.Rests f l)
    {x : String} {task : κ} {world : ω} {run : Run}
    (hw : s.run.workers[i]? = some ⟨x, .looking⟩)
    (hready : (s.lookup? i).all (r.looking.ready s.world s.situation) = true)
    (hgoes : r.looking.GoesOn s.world s.situation
      (RunScene.lookupOf r s i x) world task)
    (hrun : run = s.run ∨ ∃ g, run = s.run.cancel g) :
    stepsLeft r f l { s with
        run := run
        lookups := (i, task) :: s.lookups.filter (·.1 ≠ i)
        world := world } <
      stepsLeft r f l s := by
  have hlt : l.left s.moment task <
      l.left s.moment (RunScene.lookupOf r s i x) := by
    refine hr.looking.falls (h.lookupOf hr i x) ?_ hgoes
    unfold RunScene.lookupOf
    cases htask : s.lookup? i with
    | none => exact hr.begins _ _ x
    | some task => simpa [htask] using hready
  have hlookups (run : Run) (hsame : run.workers = s.run.workers) :
      lookupsLeft r l { s with
        run := run
        lookups := (i, task) :: s.lookups.filter (·.1 ≠ i)
        world := world } < lookupsLeft r l s :=
    lookupsLeft_lt hsame rfl hw rfl hlt
  rcases hrun with rfl | ⟨g, rfl⟩ <;>
    exact Nat.add_lt_add_right (Nat.add_lt_add_right (Nat.add_lt_add_left
      (Nat.add_lt_add_right (hlookups _ rfl) _) _) _) _

/-- Each step but the passing of the time does some of what is left, unless a
page is received. -/
theorem Move.stepsLeft_lt (hmove : Move r s t) (h : Standing r f l within s)
    (hr : r.Rests f l) (hm : t.moment = s.moment)
    (hreceived : t.run.received = s.run.received) :
    stepsLeft r f l t < stepsLeft r f l s := by
  have hh := hmove.heads h.toAttended
  cases hmove with
  | ask hready | drive hready =>
    exact stepsLeft_act_lt hh h hr (a := .drive) rfl hready (by simp) (by simp)
      hreceived rfl ⟨rfl, rfl⟩ fun _ _ _ _ => rfl
  | fetch hfetch _ hready hgoes hrun =>
    exact stepsLeft_fetch_lt h hr hfetch hready hgoes hrun
  | @answer task o world hfetch hwaits =>
    obtain ⟨cursor, hd⟩ := h.fetch_iff.1 (by simp [hfetch])
    have hc : s.run.isCancelled = false := by
      simpa [Run.driverReady, hd] using hwaits
    exact stepsLeft_act_lt hh h hr (a := .answer o) rfl ⟨⟨cursor, hd⟩, hc⟩
      (by simp) (by simp) hreceived rfl ⟨rfl, rfl⟩ fun _ _ _ _ => rfl
  | @work i ha =>
    exact stepsLeft_act_lt hh h hr (a := .work i) rfl ha (by simp) (by simp)
      hreceived rfl ⟨rfl, rfl⟩ fun _ _ _ _ => rfl
  | lookup hw hready hgoes hrun =>
    exact stepsLeft_lookup_lt h hr hw hready hgoes hrun
  | @report i x o world hw =>
    refine stepsLeft_act_lt hh h hr (a := .report i o) rfl ⟨x, hw⟩ (by simp)
      (by simp) hreceived
      rfl ⟨rfl, rfl⟩ (lookup?_of_filter rfl fun w hw' => ?_)
    have hat : (s.run.act (.report i o)).workers[i]? =
        some ⟨x, .reported o⟩ := by
      simp [Run.act, Run.report, hw]
    obtain rfl := Option.some.inj (hat.symm.trans hw')
    rfl
  | @unwind i world ha =>
    refine stepsLeft_act_lt hh h hr (a := .unwind i) rfl ha (by simp) (by simp)
      hreceived rfl ⟨rfl, rfl⟩ (lookup?_of_filter rfl ?_)
    obtain ⟨x, hw | hw⟩ := ha <;> exact not_pending_act s.run _ hw rfl
  | cancel hat hdue =>
    have hone : intentLeft s.moment s.cancelAt = 1 := by
      rw [hat, intentLeft, if_pos hdue]
    show s.run.effort [] + (lookupsLeft r l s + submitLeft r l s) +
      upcomingLeft r f s +
      (0 + intentLeft s.moment s.dropAt) < stepsLeft r f l s
    unfold stepsLeft
    omega
  | giveUp hat hdue =>
    have hone : intentLeft s.moment s.dropAt = 1 := by
      rw [hat, intentLeft, if_pos hdue]
    have heffort := Run.effort_drop_le s.run
    have hlookups :=
      lookupsLeft_act_le (r := r) (l := l) h.toAttended (a := .drop) rfl hm
      hreceived fun _ _ _ _ => rfl
    have hupcoming := upcomingLeft_le hh h hr hm hreceived
    unfold stepsLeft
    show (s.run.act .drop).effort [] + _ + _ +
      (intentLeft s.moment s.cancelAt + 0) < _
    omega
  | time =>
    -- the time never stands still
    have hround := congrArg Moment.round hm
    simp [Moment.moveTo] at hround

/-- Until the next page, the time does some of what is left when no task waits
for ever. -/
theorem Standing.stepsLeft_time_lt (h : Standing r f l within s)
    (hr : r.Ends f l) (hwaits : Waits r s) (hdue : (play r).due s = some unit) :
    stepsLeft r f l { s with moment := s.moment.moveTo unit } <
      stepsLeft r f l s := by
  set t : RunScene ω φ κ := { s with moment := s.moment.moveTo unit } with ht
  have hrests := hr.toRests
  have hpasses (i : Nat) : lookupLeft r l t i ≤ lookupLeft r l s i :=
    lookupLeft_le fun task hpending => by
      have hbefore : pending r s i = some task := hpending
      obtain ⟨w, _, _, rfl⟩ := pending_eq_some_iff.1 hbefore
      exact ⟨hbefore, hr.lookupWakes.passes (h.lookupOf hrests i w.reference)⟩
  have hlookups : lookupsLeft r l t ≤ lookupsLeft r l s :=
    List.sum_le_sum fun i _ => hpasses i
  have hsubmit : submitLeft r l t ≤ submitLeft r l s :=
    List.sum_le_sum fun x _ => hr.lookupWakes.passes (hrests.lookup x)
  have hupcoming : upcomingLeft r f t ≤ upcomingLeft r f s := by
    show (RunScene.upcoming r s).elim 0 _ ≤ (RunScene.upcoming r s).elim 0 _
    cases hnext : RunScene.upcoming r s with
    | none => exact Nat.le_refl _
    | some task => exact hr.fetchWakes.passes (h.upcoming hrests hnext)
  have hcancel := intentLeft_moveTo_le s.moment unit s.cancelAt
  have hdrop := intentLeft_moveTo_le s.moment unit s.dropAt
  have hsome : upcomingLeft r f t < upcomingLeft r f s ∨
      lookupsLeft r l t < lookupsLeft r l s ∨
      intentLeft (s.moment.moveTo unit) s.cancelAt <
      intentLeft s.moment s.cancelAt ∨
      intentLeft (s.moment.moveTo unit) s.dropAt <
      intentLeft s.moment s.dropAt := by
    rcases due_eq_some hdue with
      ⟨task, hfetch, hat⟩ | hat | hat | ⟨i, hlt, task, htask, hat⟩
    · obtain ⟨unit', hat', hless⟩ :=
        hr.fetchWakes.due (h.fetch _ hfetch) (hwaits.fetch hfetch)
      obtain rfl := Option.some.inj (hat.symm.trans hat')
      have hless : f.left (s.moment.moveTo unit) task < f.left s.moment task :=
        hless
      exact .inl (by simpa [upcomingLeft, RunScene.upcoming, hfetch,
        ht] using hless)
    · exact .inr (.inr (.inl (hat ▸
        intentLeft_moveTo_lt (hwaits.intents.1 unit hat))))
    · exact .inr (.inr (.inr (hat ▸
        intentLeft_moveTo_lt (hwaits.intents.2 unit hat))))
    · obtain ⟨⟨x, hw⟩, hready⟩ := hwaits.lookup h.toAttended htask
      obtain ⟨unit', hat', hless⟩ :=
        hr.lookupWakes.due (h.lookups _ (mem_of_lookup? htask)) hready
      obtain rfl := Option.some.inj (hat.symm.trans hat')
      have hpending : pending r s i = some task := by
        rw [pending_looking hw, RunScene.lookupOf, htask]
        rfl
      have hone : lookupLeft r l t i < lookupLeft r l s i := by
        show (pending r s i).elim 0 _ < (pending r s i).elim 0 _
        rw [hpending]
        exact hless
      exact .inr (.inl (List.sum_lt_sum _ _ (fun i _ => hpasses i)
        ⟨i, List.mem_range.2 hlt, hone⟩))
  show s.run.effort [] + _ + _ + (intentLeft (s.moment.moveTo unit) s.cancelAt +
    intentLeft (s.moment.moveTo unit) s.dropAt) < s.run.effort [] + _ + _ + _
  omega

/-- What is left falls when less is left before the next page, or a page is
received. -/
theorem Standing.left_lt_of (h : Standing r f l within s)
    (hw : Reckons r within) (hm : Move r s t)
    (hsteps : t.run.received = s.run.received →
      stepsLeft r f l t < stepsLeft r f l s) :
    left r f l within t < left r f l within s := by
  obtain ⟨hle, hlt⟩ := pagesLeft_le hw h.toAttended h.bounded hm
  rw [left, left, Prod.Lex.toLex_lt_toLex]
  by_cases hreceived : t.run.received = s.run.received
  · rcases Nat.lt_or_eq_of_le hle with hless | hsame
    · exact .inl hless
    · exact .inr ⟨hsame, hsteps hreceived⟩
  · exact .inl (hlt hreceived)

/-- What a task does leaves less. -/
theorem Standing.left_step_lt (h : Standing r f l within s) (hr : r.Rests f l)
    (hw : Reckons r within) {task : RunTask}
    (hready : (play r).ready s task = true) :
    left r f l within (s.step r task) < left r f l within s :=
  h.left_lt_of hw (move_step hready)
    ((move_step hready).stepsLeft_lt h hr (moment_step r s task))

/-- So does the time, when no task waits for ever. -/
theorem Standing.left_time_lt (h : Standing r f l within s) (hr : r.Ends f l)
    (hw : Reckons r within) (hwaits : Waits r s)
    (hdue : (play r).due s = some unit) :
    left r f l within { s with moment := s.moment.moveTo unit } <
      left r f l within s :=
  h.left_lt_of hw (.time hwaits hdue) fun _ =>
    h.stepsLeft_time_lt hr hwaits hdue

/-! ## Until a scene is over -/

/-- Until a scene is over there is a step, when no task waits for ever. -/
theorem Standing.goesOn (h : Standing r f l within s) (hr : r.Ends f l)
    (hover : s.isOver = false) : ∃ t, (play r).Step s t := by
  refine Play.exists_step fun hwaits => ?_
  have hwaits : Waits r s := hwaits
  rcases hwaits.exists_task h.toAttended h.permitted hover with
    hfetch | ⟨i, task, htask⟩
  · obtain ⟨task, hfetch⟩ := Option.isSome_iff_exists.1 hfetch
    obtain ⟨unit, hat, _⟩ :=
      hr.fetchWakes.due (h.fetch _ hfetch) (hwaits.fetch hfetch)
    exact isSome_due (.inl ⟨task, hfetch, hat⟩)
  · obtain ⟨⟨x, hw⟩, hready⟩ := hwaits.lookup h.toAttended htask
    obtain ⟨unit, hat, _⟩ :=
      hr.lookupWakes.due (h.lookups _ (mem_of_lookup? htask)) hready
    exact isSome_due (.inr ⟨i, (List.getElem?_eq_some_iff.1 hw).1, task,
      htask, hat⟩)

end RunScene

end CloudAccess
