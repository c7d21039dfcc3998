import CloudAccess.Cache.Session
import CloudAccess.Proofs.Cache.Flight
import CloudAccess.Proofs.Cache.Serve
import CloudAccess.Proofs.Rehearsal
import Mathlib.Algebra.GroupWithZero.Nat
import Mathlib.Algebra.Order.BigOperators.Group.List
import Mathlib.Algebra.Order.Group.Nat

/-!
# Batches come to their end

Retrievals that are started together on a cache which nobody else uses come to
their end, in whatever order they take their steps, and leave the cache unused
again.

* `step_cases` says what a step of a batch is, and `reaches_cache` that steps
  are actions on the cache.
* `Idle` is a cache without a retrieval under way.  `Manned` is what a batch
  keeps that began with one: the guard is with the retrieval that assumes the
  role, whose assumption is under way, and only members of the batch are live.
* `left` bounds the steps that are left, and `winds` says that each step takes
  one away.  So `run_isOver`: a batch is over after `Batch.steps` steps.
* `CacheSession.Reaches.idle` says that a cache is idle between the operations
  of a session.
-/

namespace CloudAccess

namespace Cache

variable {s t : Cache} {i : Nat} {r : Retrieval}

/-- A retrieval is there for good, and keeps its handle. -/
theorem Reaches.kept (h : s.Reaches t) (hr : s.retrievals[i]? = some r) :
    ∃ r', t.retrievals[i]? = some r' ∧ r'.handle = r.handle := by
  refine h.invariant (I := fun u => ∃ r', u.retrievals[i]? = some r' ∧
    r'.handle = r.handle) ⟨r, hr, rfl⟩ fun u v hu hstep => ?_
  obtain ⟨a, rfl⟩ := hstep
  obtain ⟨r', hr', hhandle⟩ := hu
  obtain ⟨r'', hr'', hkept, -⟩ := (u.effect_act a).kept hr'
  exact ⟨r'', hr'', hkept.trans hhandle⟩

end Cache

/-! ## Caches without retrievals under way -/

namespace PlannedCache

/-- No retrieval is under way. -/
structure Idle (p : PlannedCache) : Prop where
  free : p.cache.guard = none
  ended : ∀ r ∈ p.cache.retrievals, r.fate.isSome = true

variable {p : PlannedCache} {i : Nat}

theorem Idle.of_not_isLive (hg : p.cache.Guarded)
    (hnone : ∀ i, ¬p.cache.IsLive i) : p.Idle := by
  refine ⟨hg.free hnone, fun r hin => ?_⟩
  obtain ⟨i, hr⟩ := List.getElem?_of_mem hin
  exact Cache.isSome_fate (hnone i) hr

/-- A retrieval has not ended exactly when it is under way. -/
theorem isSome_fate?_eq_false_iff {r : Retrieval}
    (hr : p.cache.retrievals[i]? = some r) :
    (p.fate? i).isSome = false ↔ p.cache.IsLive i := by
  obtain ⟨h, phase, fate⟩ := r
  cases fate <;> simp [fate?, hr, Cache.IsLive]

/-! ## What retrievals keep that run together -/

/-- Only the given retrievals are under way, and the one that assumes the role
has the guard and its assumption under way. -/
structure Manned (p : PlannedCache) (members : List Nat) : Prop where
  guarded : p.cache.Guarded
  present : ∀ i ∈ members, ∃ r, p.cache.retrievals[i]? = some r
  live : ∀ i, p.cache.IsLive i → i ∈ members
  flying : ∀ i, p.cache.Assumes i → ∃ f, p.flight? i = some f

variable {members : List Nat} {unit j : Nat}

/-- A retrieval of those takes a step. -/
theorem Manned.step (h : p.Manned members) (hi : i ∈ members)
    (hready : p.ready unit i = true) : (p.step unit i).Manned members where
  guarded := h.guarded.reaches (reaches_step p unit i)
  present k hk := by
    obtain ⟨r, hr⟩ := h.present k hk
    obtain ⟨r', hr', -⟩ := (reaches_step p unit i).kept hr
    exact ⟨r', hr'⟩
  live k hk := by
    by_cases heq : i = k
    · exact heq ▸ hi
    · obtain ⟨g, phase, hr⟩ := hk
      rw [getElem?_step_of_ne heq] at hr
      exact h.live k ⟨g, phase, hr⟩
  flying k hk := by
    obtain ⟨g, hr⟩ := hk
    by_cases heq : i = k
    · subst heq
      cases move_step hready with
      | assumes _ _ _ _ hf => exact ⟨_, hf⟩
      | waits _ hr' | looks _ _ _ hr' | lands _ _ hr' =>
        rw [hr'] at hr
        cases hr
    · rw [getElem?_step_of_ne heq] at hr
      rw [flight?_step_of_ne heq]
      exact h.flying k ⟨g, hr⟩

/-- A retrieval that can go on is under way. -/
theorem isLive_of_ready (hready : p.ready unit i = true) :
    p.cache.IsLive i := by
  cases move_step hready with
  | waits hr | looks hr | assumes hr | lands hr => exact ⟨_, _, hr⟩

/-- An assumption that ends at some unit is under way. -/
theorem isLive_of_due (h : (p.due i).isSome = true) : p.cache.IsLive i := by
  unfold due at h
  split at h
  · exact ⟨_, _, ‹_›⟩
  · cases h

/-- A retrieval is not under way after it was given up. -/
theorem not_isLive_drop (p : PlannedCache) (i : Nat) :
    ¬(p.drop i).cache.IsLive i := by
  have he := p.cache.effect_act (.drop i)
  show ¬(p.cache.act (.drop i)).IsLive i
  generalize p.cache.act (.drop i) = t at he
  cases he with
  | idle hidle => exact hidle
  | drop => exact Cache.not_isLive_setFate

theorem getElem?_drop_of_ne (hne : i ≠ j) :
    (p.drop i).cache.retrievals[j]? = p.cache.retrievals[j]? :=
  getElem?_act_of_ne (by simpa [Cache.Action.retrieval?] using hne) (by simp)

/-- A retrieval is given up. -/
theorem Manned.drop (h : p.Manned members) (i : Nat) :
    (p.drop i).Manned members where
  guarded := h.guarded.reaches (Cache.reaches_act p.cache (.drop i))
  present k hk := by
    obtain ⟨r, hr⟩ := h.present k hk
    obtain ⟨r', hr', -⟩ := (Cache.reaches_act p.cache (.drop i)).kept hr
    exact ⟨r', hr'⟩
  live k hk := by
    have hne : i ≠ k := fun heq => not_isLive_drop p i (heq ▸ hk)
    obtain ⟨g, phase, hr⟩ := hk
    rw [getElem?_drop_of_ne hne] at hr
    exact h.live k ⟨g, phase, hr⟩
  flying k hk := by
    obtain ⟨g, hr⟩ := hk
    have hne : i ≠ k := by
      intro heq
      subst heq
      exact not_isLive_drop p i ⟨g, _, hr⟩
    rw [getElem?_drop_of_ne hne] at hr
    obtain ⟨f, hf⟩ := h.flying k ⟨g, hr⟩
    exact ⟨f, (find?_filter_of_ne p.flights hne).trans hf⟩

theorem Manned.dropAll (h : p.Manned members) (given : List Nat) :
    (given.foldl PlannedCache.drop p).Manned members := by
  induction given generalizing p with
  | nil => exact h
  | cons i given ih => exact ih (h.drop i)

/-! ## What is left of a retrieval -/

/-- The steps that are left to a retrieval whose assumption is as given: it
looks, looks again and lands, and the time may have to move on for it. -/
def effortOf (unit : Nat) : Option Retrieval → Option Flight → Nat
  | some ⟨_, .started, none⟩, _ => 4
  | some ⟨_, .waiting, none⟩, _ => 3
  | some ⟨_, .assuming, none⟩, f => if f.any (·.due ≤ unit) then 1 else 2
  | _, _ => 0

/-- The steps that are left to a retrieval. -/
def effort (p : PlannedCache) (unit i : Nat) : Nat :=
  effortOf unit p.cache.retrievals[i]? (p.flight? i)

theorem effortOf_assuming (unit : Nat) (h : Handle) (f : Option Flight) :
    effortOf unit (some ⟨h, .assuming, none⟩) f = if f.any (·.due ≤ unit) then 1
      else 2 := rfl

/-- A step of a retrieval leaves it less to do. -/
theorem effort_step_lt (hready : p.ready unit i = true) :
    (p.step unit i).effort unit i < p.effort unit i := by
  unfold effort
  cases move_step hready with
  | waits hr hr' =>
    rw [hr, hr']
    exact Nat.lt_succ_self 3
  | @looks h phase hr hphase _ hr' =>
    rw [hr, hr']
    cases phase with
    | started => exact Nat.succ_pos 3
    | waiting => exact Nat.succ_pos 2
    | assuming => exact absurd rfl hphase
  | @assumes h _ hr _ _ hr' =>
    rw [hr, hr']
    show effortOf unit (some ⟨h, .assuming, none⟩) ((p.step unit i).flight? i) <
      3
    rw [effortOf_assuming]
    split <;> omega
  | @lands h _ hr _ hr' =>
    rw [hr, hr']
    show 0 < effortOf unit (some ⟨h, .assuming, none⟩) (p.flight? i)
    rw [effortOf_assuming]
    split <;> omega

theorem effort_step_of_ne (hne : i ≠ j) :
    (p.step unit i).effort unit j = p.effort unit j := by
  unfold effort
  rw [getElem?_step_of_ne hne, flight?_step_of_ne hne]

/-- A retrieval that was given up has nothing left to do. -/
theorem effort_drop_le (p : PlannedCache) (unit i j : Nat) :
    (p.drop i).effort unit j ≤ p.effort unit j := by
  by_cases heq : i = j
  · subst heq
    have hended := not_isLive_drop p i
    have hzero : (p.drop i).effort unit i = 0 := by
      unfold effort
      cases hr : (p.drop i).cache.retrievals[i]? with
      | none => rfl
      | some r =>
        obtain ⟨h, phase, fate⟩ := r
        cases fate with
        | none => exact absurd ⟨h, phase, hr⟩ hended
        | some fate => cases phase <;> rfl
    omega
  · have hflight : (p.drop i).flight? j = p.flight? j :=
      find?_filter_of_ne p.flights heq
    unfold effort
    rw [getElem?_drop_of_ne heq, hflight]

theorem effort_dropAll_le (p : PlannedCache) (given : List Nat) (unit j : Nat) :
    (given.foldl PlannedCache.drop p).effort unit j ≤ p.effort unit j := by
  induction given generalizing p with
  | nil => exact Nat.le_refl _
  | cons i given ih =>
    exact Nat.le_trans (ih (p.drop i)) (effort_drop_le p unit i j)

/-- The time moves on, which leaves no more to do. -/
theorem effort_le_of_le (p : PlannedCache) {later : Nat} (hle : unit ≤ later)
    (i : Nat) : p.effort later i ≤ p.effort unit i := by
  unfold effort effortOf
  split
  · exact Nat.le_refl _
  · exact Nat.le_refl _
  · cases p.flight? i with
    | none => exact Nat.le_refl _
    | some f =>
      simp only [Option.any_some, decide_eq_true_eq]
      split <;> split <;> omega
  · exact Nat.le_refl _

/-- The time moves on to the unit at which an assumption ends. -/
theorem effort_lt_of_due {due later : Nat} (hready : p.ready unit i = false)
    (hdue : p.due i = some due) (hle : due ≤ later) :
    p.effort later i < p.effort unit i := by
  unfold PlannedCache.due at hdue
  split at hdue
  · rename_i h hr
    obtain ⟨f, hf, rfl⟩ := Option.map_eq_some_iff.1 hdue
    have hwaits : ¬f.due ≤ unit := by
      intro hle
      simp [ready, hr, hf, hle] at hready
    unfold effort
    rw [hr, hf, effortOf_assuming, effortOf_assuming]
    simp [hwaits, hle]
  · cases hdue

/-- Among retrievals of which one is under way, one can go on, or an assumption
ends at some unit. -/
theorem Manned.goesOn (h : p.Manned members) (hlive : p.cache.IsLive i)
    (unit : Nat) :
    (∃ j ∈ members, p.ready unit j = true) ∨
    ∃ j ∈ members, (p.due j).isSome = true := by
  cases hguard : p.cache.guard with
  | some j =>
    -- the one that assumes the role lands now or later
    obtain ⟨g, hr⟩ := (h.guarded j).1 hguard
    obtain ⟨f, hf⟩ := h.flying j ⟨g, hr⟩
    exact .inr ⟨j, h.live j ⟨g, _, hr⟩, by simp [due, hr, hf]⟩
  | none =>
    obtain ⟨g, phase, hr⟩ := hlive
    cases phase with
    | started => exact .inl ⟨i, h.live i ⟨g, _, hr⟩, by simp [ready, hr]⟩
    | assuming =>
      have hheld := (h.guarded i).2 ⟨g, hr⟩
      rw [hguard] at hheld
      cases hheld
    | waiting =>
      -- the guard is free, and goes to the first of those that wait
      cases hfirst : p.firstWaiting? with
      | none =>
        rw [firstWaiting?, List.findIdx?_eq_none_iff] at hfirst
        have hnot := hfirst _ (List.mem_of_getElem? hr)
        simp at hnot
      | some j =>
        have hat := hfirst
        rw [firstWaiting?, List.findIdx?_eq_some_iff_getElem] at hat
        obtain ⟨hlt, hwaits, -⟩ := hat
        have hrj := List.getElem?_eq_getElem hlt
        generalize p.cache.retrievals[j] = r at hwaits hrj
        obtain ⟨g', phase, fate⟩ := r
        simp only [Bool.and_eq_true, decide_eq_true_eq,
          Option.isNone_iff_eq_none] at hwaits
        obtain ⟨rfl, rfl⟩ := hwaits
        exact .inl ⟨j, h.live j ⟨g', _, hrj⟩,
          by simp [ready, hrj, hguard, hfirst]⟩

end PlannedCache

namespace Batch

variable {b c : Batch} {i : Nat}

/-! ## The steps of a batch -/

/-- A step of a batch is one of a member, or the deadline, or the time moves
on. -/
theorem step_cases (h : play.Step b c) :
    (∃ i ∈ b.members, b.scene.ready b.moment.unit i = true ∧ c = b.goOn i) ∨
      ((∃ unit ∈ b.deadline, unit ≤ b.moment.unit) ∧ c = b.giveUp) ∨
      ∃ unit, (∀ i ∈ b.members, b.scene.ready b.moment.unit i = false) ∧
        (∀ unit ∈ b.deadline, b.moment.unit < unit) ∧ play.due b = some unit ∧
        c = { b with moment := b.moment.moveTo unit } := by
  cases h with
  | @task task mem ready =>
    cases task with
    | retrieval i =>
      have hi : i ∈ b.members := by simpa [play] using mem
      exact .inl ⟨i, hi, ready, rfl⟩
    | deadline =>
      obtain ⟨unit, hunit, hle⟩ := (Option.any_eq_true _ _).1 ready
      exact .inr (.inl ⟨⟨unit, hunit, by simpa using hle⟩, rfl⟩)
  | @time unit waits due =>
    refine .inr (.inr ⟨unit, fun i hi => ?_, fun d hd => ?_, due, rfl⟩)
    · exact waits (.retrieval i) (by simp [play, hi])
    · have hwaits := waits .deadline (by simp [play])
      have hwaits : (b.deadline.any fun d => decide (d ≤ b.moment.unit)) =
          false := hwaits
      rw [Option.mem_def] at hd
      simpa [hd] using hwaits

theorem reaches_giveUp (b : Batch) :
    b.scene.cache.Reaches b.giveUp.scene.cache := by
  show b.scene.cache.Reaches (b.members.foldl PlannedCache.drop b.scene).cache
  generalize b.members = members
  generalize b.scene = p
  induction members generalizing p with
  | nil => exact .refl
  | cons i members ih =>
    exact (Cache.reaches_act p.cache (.drop i)).trans (ih (p.drop i))

/-- Whatever goes on in a batch acts on the cache. -/
theorem reaches_cache (h : play.Reaches b c) :
    b.scene.cache.Reaches c.scene.cache := by
  refine h.map (f := fun b => b.scene.cache) fun u v hstep => ?_
  rcases step_cases hstep with ⟨i, -, -, rfl⟩ | ⟨-, rfl⟩ | ⟨unit, -, -, -, rfl⟩
  · exact PlannedCache.reaches_step u.scene u.moment.unit i
  · exact reaches_giveUp u
  · exact .refl

/-- Starting a batch acts on the cache. -/
theorem reaches_start (p : PlannedCache) (handles : List Handle)
    (deadline : Option Nat) :
    p.cache.Reaches (start p handles deadline).scene.cache := by
  show p.cache.Reaches (handles.foldl (fun p h => p.act (.start h)) p).cache
  induction handles generalizing p with
  | nil => exact .refl
  | cons h handles ih =>
    exact (PlannedCache.reaches_act p (.start h)).trans (ih _)

/-- A batch acts on the cache. -/
theorem reaches_run (p : PlannedCache) (handles : List Handle)
    (deadline : Option Nat) :
    p.cache.Reaches (start p handles deadline).run.scene.cache :=
  (reaches_start p handles deadline).trans
    (reaches_cache (Play.reaches_run _ _ _ _))

/-! ## A batch winds down -/

/-- Only the members of a batch are under way. -/
def Manned (b : Batch) : Prop := b.scene.Manned b.members

/-- The steps that are left to the deadline. -/
def deadlineEffort (b : Batch) : Nat :=
  match b.deadline with
  | none => 0
  | some unit => if unit ≤ b.moment.unit then 1 else 2

/-- The steps that are left to a batch. -/
def left (b : Batch) : Nat :=
  (b.members.map (b.scene.effort b.moment.unit)).sum + b.deadlineEffort

theorem Manned.step (h : b.Manned) (hstep : play.Step b c) : c.Manned := by
  rcases step_cases hstep with
    ⟨i, hi, hready, rfl⟩ | ⟨-, rfl⟩ | ⟨unit, -, -, -, rfl⟩
  · exact PlannedCache.Manned.step h hi hready
  · exact h.dropAll b.members
  · exact h

theorem left_goOn_lt (hi : i ∈ b.members)
    (hready : b.scene.ready b.moment.unit i = true) :
    (b.goOn i).left < b.left := by
  have hsum :
      (b.members.map
          ((b.scene.step b.moment.unit i).effort b.moment.unit)).sum <
        (b.members.map (b.scene.effort b.moment.unit)).sum := by
    refine List.sum_lt_sum _ _ (fun j _ => ?_)
      ⟨i, hi, PlannedCache.effort_step_lt hready⟩
    by_cases heq : i = j
    · subst heq
      exact Nat.le_of_lt (PlannedCache.effort_step_lt hready)
    · exact Nat.le_of_eq (PlannedCache.effort_step_of_ne heq)
  exact Nat.add_lt_add_right hsum b.deadlineEffort

theorem left_giveUp_lt {unit : Nat} (hdeadline : b.deadline = some unit)
    (hle : unit ≤ b.moment.unit) : b.giveUp.left < b.left := by
  have hsum : (b.members.map (b.giveUp.scene.effort b.moment.unit)).sum ≤
      (b.members.map (b.scene.effort b.moment.unit)).sum :=
    List.sum_le_sum fun i _ =>
      PlannedCache.effort_dropAll_le b.scene b.members _ i
  have hone : b.deadlineEffort = 1 := by simp [deadlineEffort, hdeadline, hle]
  show (b.members.map (b.giveUp.scene.effort b.moment.unit)).sum + 0 < _
  unfold left
  omega

theorem left_time_lt {unit : Nat}
    (hwaits : ∀ i ∈ b.members, b.scene.ready b.moment.unit i = false)
    (hdeadline : ∀ unit ∈ b.deadline, b.moment.unit < unit)
    (hdue : play.due b = some unit) :
    ({ b with moment := b.moment.moveTo unit } : Batch).left < b.left := by
  have hlater : b.moment.unit ≤ (b.moment.moveTo unit).unit :=
    Nat.le_max_left _ _
  have hreached : unit ≤ (b.moment.moveTo unit).unit := Nat.le_max_right _ _
  have hsum : (b.members.map (b.scene.effort (b.moment.moveTo unit).unit)).sum ≤
      (b.members.map (b.scene.effort b.moment.unit)).sum :=
    List.sum_le_sum fun i _ => b.scene.effort_le_of_le hlater i
  have hrest : ({ b with moment := b.moment.moveTo unit } :
      Batch).deadlineEffort ≤
      b.deadlineEffort := by
    unfold deadlineEffort
    cases b.deadline with
    | none => exact Nat.le_refl _
    | some d =>
      dsimp only
      split <;> split <;> omega
  have hdue : earlier b.deadline (earliest (b.members.map b.scene.due)) =
      some unit := hdue
  show (b.members.map (b.scene.effort (b.moment.moveTo unit).unit)).sum + _ < _
  unfold left
  rcases earlier_eq_some hdue with hd | hd
  · -- the deadline comes
    have hlt := hdeadline unit hd
    have htwo : b.deadlineEffort = 2 := by
      simp [deadlineEffort, hd, Nat.not_le.2 hlt]
    have hone : ({ b with moment := b.moment.moveTo unit } :
        Batch).deadlineEffort = 1 := by
      simp [deadlineEffort, hd, hreached]
    omega
  · -- an assumption ends
    obtain ⟨i, hi, hat⟩ := List.mem_map.1 (earliest_eq_some hd)
    have hless := PlannedCache.effort_lt_of_due (hwaits i hi) hat hreached
    have hsumlt : (b.members.map
          (b.scene.effort (b.moment.moveTo unit).unit)).sum <
        (b.members.map (b.scene.effort b.moment.unit)).sum :=
      List.sum_lt_sum _ _ (fun j _ => b.scene.effort_le_of_le hlater j)
        ⟨i, hi, hless⟩
    omega

/-- Each step leaves a batch less to do. -/
theorem left_step_lt (hstep : play.Step b c) : c.left < b.left := by
  rcases step_cases hstep with ⟨i, hi, hready, rfl⟩ | ⟨⟨unit, hd, hle⟩, rfl⟩ |
    ⟨unit, hwaits, hdeadline, hdue, rfl⟩
  · exact left_goOn_lt hi hready
  · exact left_giveUp_lt hd hle
  · exact left_time_lt hwaits hdeadline hdue

/-- Each step of a batch leaves it less to do, and a batch that is not over has
a step. -/
theorem winds : play.Winds Manned left where
  keeps _ _ h hstep := h.step hstep
  falls _ _ _ _ hstep := left_step_lt hstep
  goesOn b h hover := by
    refine Play.exists_step fun hwaits => ?_
    obtain ⟨i, hi, hfate⟩ : ∃ i ∈
      b.members, (b.scene.fate? i).isSome = false := by
      have hnot : b.isOver = false := hover
      simpa [isOver] using hnot
    obtain ⟨r, hr⟩ := h.present i hi
    have hlive := (PlannedCache.isSome_fate?_eq_false_iff hr).1 hfate
    rcases h.goesOn hlive b.moment.unit with ⟨j, hj, hgoes⟩ | ⟨j, hj, hdue⟩
    · have hwaiting : b.scene.ready b.moment.unit j = false :=
        hwaits (.retrieval j) (by simp [play, hj])
      rw [hgoes] at hwaiting
      cases hwaiting
    · show (earlier b.deadline (earliest (b.members.map b.scene.due))).isSome =
        true
      rw [isSome_earlier, isSome_earliest, Bool.or_eq_true]
      exact .inr (List.any_eq_true.2 ⟨_, List.mem_map_of_mem hj, hdue⟩)

/-- A batch that is over leaves the cache idle. -/
theorem Manned.idle (h : b.Manned) (hover : b.isOver = true) :
    b.scene.Idle := by
  refine PlannedCache.Idle.of_not_isLive h.guarded fun i hlive => ?_
  have hi := h.live i hlive
  obtain ⟨r, hr⟩ := h.present i hi
  have hfate := (PlannedCache.isSome_fate?_eq_false_iff hr).2 hlive
  have hended : (b.scene.fate? i).isSome = true := by
    have hall : ∀ i ∈ b.members, (b.scene.fate? i).isSome = true := by
      simpa [isOver] using hover
    exact hall i hi
  rw [hended] at hfate
  cases hfate

/-! ## The start of a batch -/

variable {p : PlannedCache} {handles : List Handle} {deadline : Option Nat}

/-- A batch begins with a retrieval for each handle, after those from before. -/
theorem scene_start (p : PlannedCache) (handles : List Handle)
    (deadline : Option Nat) :
    (start p handles deadline).scene =
      { p with
        cache := { p.cache with
          retrievals :=
            p.cache.retrievals ++ handles.map fun h => { handle := h } } } := by
  show handles.foldl (fun p h => p.act (.start h)) p = _
  induction handles generalizing p with
  | nil => simp
  | cons h handles ih =>
    rw [List.foldl_cons, ih]
    simp [PlannedCache.act, Cache.act]

/-- The member number `k` of a batch retrieves through the handle number
`k`. -/
theorem getElem?_start (p : PlannedCache) (handles : List Handle)
    (deadline : Option Nat) (k : Nat) :
    (start p handles deadline).scene.cache.retrievals[p.nextRetrieval + k]? =
      handles[k]?.map fun h => { handle := h } := by
  rw [scene_start, PlannedCache.nextRetrieval]
  show (p.cache.retrievals ++ handles.map _)[p.cache.retrievals.length + k]? = _
  rw [List.getElem?_append_right (Nat.le_add_right _ _),
    Nat.add_sub_cancel_left, List.getElem?_map]

theorem mem_members_start {i : Nat} :
    i ∈ (start p handles deadline).members ↔
      ∃ k < handles.length, p.nextRetrieval + k = i := by
  simp [start]

theorem manned_start (hp : p.Idle) (handles : List Handle)
    (deadline : Option Nat) : (start p handles deadline).Manned := by
  have hold {i : Nat} {r : Retrieval} (hlt : i < p.nextRetrieval)
      (hr : (start p handles deadline).scene.cache.retrievals[i]? = some r) :
      r.fate.isSome = true := by
    rw [scene_start] at hr
    have hbefore : p.cache.retrievals[i]? = some r :=
      (List.getElem?_append_left hlt).symm.trans hr
    exact hp.ended r (List.mem_of_getElem? hbefore)
  have hnew {i : Nat} {r : Retrieval} (hge : p.nextRetrieval ≤ i)
      (hr : (start p handles deadline).scene.cache.retrievals[i]? = some r) :
      i ∈ (start p handles deadline).members ∧ r.phase = .started := by
    obtain ⟨k, rfl⟩ := Nat.exists_eq_add_of_le hge
    rw [getElem?_start] at hr
    obtain ⟨h, hk, rfl⟩ := Option.map_eq_some_iff.1 hr
    obtain ⟨hlt, -⟩ := List.getElem?_eq_some_iff.1 hk
    exact ⟨mem_members_start.2 ⟨k, hlt, rfl⟩, rfl⟩
  have hnone (i : Nat) : ¬(start p handles deadline).scene.cache.Assumes i := by
    rintro ⟨h, hr⟩
    rcases Nat.lt_or_ge i p.nextRetrieval with hlt | hge
    · cases hold hlt hr
    · cases (hnew hge hr).2
  refine ⟨fun i => ?_, fun i hi => ?_, fun i hlive => ?_, fun i hi =>
    absurd hi (hnone i)⟩
  · have hfree : (start p handles deadline).scene.cache.guard = none := by
      rw [scene_start]
      exact hp.free
    rw [hfree]
    constructor
    · intro hi
      cases hi
    · intro hi
      exact absurd hi (hnone i)
  · obtain ⟨k, hlt, rfl⟩ := mem_members_start.1 hi
    rw [getElem?_start, List.getElem?_eq_getElem hlt]
    exact ⟨_, rfl⟩
  · obtain ⟨h, phase, hr⟩ := hlive
    rcases Nat.lt_or_ge i p.nextRetrieval with hlt | hge
    · cases hold hlt hr
    · exact (hnew hge hr).1

/-- A batch has enough steps. -/
theorem left_start_le (p : PlannedCache) (handles : List Handle)
    (deadline : Option Nat) :
    (start p handles deadline).left ≤ (start p handles deadline).steps := by
  have hsum : ((start p handles deadline).members.map
      ((start p handles deadline).scene.effort 0)).sum ≤
        (start p handles deadline).members.length * 4 := by
    have hfour : ∀ n ∈ (start p handles deadline).members.map
        ((start p handles deadline).scene.effort 0), n ≤ 4 := by
      intro n hn
      obtain ⟨i, hi, rfl⟩ := List.mem_map.1 hn
      obtain ⟨k, hlt, rfl⟩ := mem_members_start.1 hi
      unfold PlannedCache.effort
      rw [getElem?_start, List.getElem?_eq_getElem hlt]
      exact Nat.le_refl 4
    have hle := List.sum_le_card_nsmul _ 4 hfour
    simpa using hle
  have hdeadline : (start p handles deadline).deadlineEffort ≤ 2 := by
    unfold deadlineEffort
    split
    · omega
    · split <;> omega
  show ((start p handles deadline).members.map
    ((start p handles deadline).scene.effort 0)).sum + _ ≤ _
  unfold steps
  omega

/-- A batch on an idle cache comes to its end. -/
theorem run_isOver (hp : p.Idle) (handles : List Handle)
    (deadline : Option Nat) :
    (start p handles deadline).run.isOver = true :=
  winds.run_isOver (manned_start hp handles deadline)
    (left_start_le p handles deadline)

/-- Wherever the steps of a batch on an idle cache lead, only its members are
under way. -/
theorem manned_reaches (hp : p.Idle)
    (h : play.Reaches (start p handles deadline) b) : b.Manned :=
  h.invariant (manned_start hp handles deadline) fun _ _ hu hstep =>
    hu.step hstep

/-- A batch leaves an idle cache idle. -/
theorem idle_run (hp : p.Idle) (handles : List Handle) (deadline : Option Nat) :
    (start p handles deadline).run.scene.Idle :=
  (manned_reaches hp (Play.reaches_run _ _ _ _)).idle
    (run_isOver hp handles deadline)

end Batch

/-! ## Sessions -/

namespace CacheSession

variable {s t : CacheSession}

/-- One operation takes a session to the next state. -/
def Step (s t : CacheSession) : Prop :=
  ∃ handle op reply, s.apply handle op = .ok (t, reply)

/-- A state is reached from another by operations. -/
abbrev Reaches : CacheSession → CacheSession → Prop := CloudAccess.Reaches Step

theorem idle_start (request : Request) (now : Instant) (window : Option Span)
    (plan : List PlannedAssumption) :
    (start request now window plan).scene.Idle :=
  ⟨rfl, fun _ hr => by cases hr⟩

/-- An operation of a session runs a batch of retrievals, or it changes a clock
or the slot, or it leaves the cache as it is. -/
theorem step_scene (hstep : s.Step t) :
    (∃ handles deadline, t.scene =
      (Batch.start s.scene handles deadline).run.scene) ∨
      (∃ a : Cache.Action, a.retrieval? = none ∧ (∀ h, a ≠ .start h) ∧
        t.scene = s.scene.act a) ∨
      t.scene = s.scene := by
  obtain ⟨handle, op, reply, happly⟩ := hstep
  unfold CacheSession.apply at happly
  split at happly
  · cases happly
  · rename_i h _
    cases op with
    | retrieve | retrieveWithin =>
      cases happly
      exact .inl ⟨_, _, rfl⟩
    | retrieveMany numbers =>
      simp only [applyTo] at happly
      split at happly
      · cases happly
      · cases happly
        exact .inl ⟨_, _, rfl⟩
    | advance clock span =>
      simp only [applyTo] at happly
      split at happly
      · cases happly
      · split at happly <;> cases happly
        · exact .inr (.inr rfl)
        · exact .inr (.inl ⟨_, rfl, by simp, rfl⟩)
    | set clock now =>
      simp only [applyTo] at happly
      split at happly
      · cases happly
        exact .inr (.inl ⟨_, rfl, by simp, rfl⟩)
      · cases happly
    | invalidate | withClock =>
      cases happly
      exact .inr (.inl ⟨_, rfl, by simp, rfl⟩)
    | peek | request | debug | copy | withWindow =>
      cases happly
      exact .inr (.inr rfl)

/-- Each operation leaves the cache without a retrieval under way. -/
theorem idle_step (hs : s.scene.Idle) (hstep : s.Step t) : t.scene.Idle := by
  rcases step_scene hstep with
    ⟨handles, deadline, heq⟩ | ⟨a, hnone, hstart, heq⟩ | heq
  · rw [heq]
    exact Batch.idle_run hs handles deadline
  · rw [heq]
    cases a with
    | start h => exact absurd rfl (hstart h)
    | enter | acquire | settle | drop => cases hnone
    | invalidate | setClock | addClock => exact ⟨hs.free, hs.ended⟩
  · rw [heq]
    exact hs

/-- Between its operations the cache of a session has no retrieval under
way. -/
theorem Reaches.idle {request : Request} {now : Instant} {window : Option Span}
    {plan : List PlannedAssumption}
    (h : (start request now window plan).Reaches s) : s.scene.Idle :=
  h.invariant (I := fun u => u.scene.Idle) (idle_start request now window plan)
    fun _ _ hu hstep => idle_step hu hstep

end CacheSession

end CloudAccess
