import CloudAccess.Proofs.Cache.Batches
import CloudAccess.Proofs.Provider.Calls

/-!
# Credentials for calls

Calls that need credentials share one cache.  A call under way has at most one
retrieval, and retrievals are under way for calls only.

* `Supplied` is what they keep of the cache, told from the retrievals that calls
  hold.
* `Stage.left` bounds the turns that a call has before it, and the moments that
  it waits for.  `Goes.left_lt` says that a turn takes one away, and
  `Goes.left_le` that it leaves the other calls no more to do; `left_lt_of_due`
  says that waiting for the next moment takes one away as well.
* `SetLookup.left` adds what follows in a lookup.
-/

namespace CloudAccess

/-! ## What calls keep of the cache -/

namespace PlannedCache

variable {p : PlannedCache} {held others : Nat → Prop} {i unit : Nat}

/-- Retrievals are under way only when they are held, and those held were
started. -/
structure Supplied (p : PlannedCache) (held : Nat → Prop) : Prop where
  manned : ∃ members, p.Manned members ∧ ∀ i, held i → i ∈ members
  live : ∀ i, p.cache.IsLive i → held i

theorem Supplied.present (h : p.Supplied held) (hi : held i) :
    ∃ r, p.cache.retrievals[i]? = some r := by
  obtain ⟨members, hmanned, hsub⟩ := h.manned
  exact hmanned.present i (hsub i hi)

/-- The same retrievals are held. -/
theorem Supplied.congr (h : p.Supplied held) (hiff : ∀ i, held i ↔ others i) :
    p.Supplied others := by
  obtain ⟨members, hmanned, hsub⟩ := h.manned
  exact ⟨⟨members, hmanned, fun i hi => hsub i ((hiff i).2 hi)⟩,
    fun i hi => (hiff i).1 (h.live i hi)⟩

/-- On an idle cache nothing is held. -/
theorem Idle.supplied (h : p.Idle) (hnone : ∀ i, ¬held i) :
    p.Supplied held := by
  have hmanned := Batch.manned_start h [] none
  refine ⟨⟨_, hmanned, fun i hi => absurd hi (hnone i)⟩, fun i hlive => ?_⟩
  have hin := hmanned.live i hlive
  simp [Batch.start] at hin

/-- A retrieval that is started is there, and those from before are as they
were. -/
theorem getElem?_act_start (p : PlannedCache) (h : Handle) (j : Nat) :
    (p.act (.start h)).cache.retrievals[j]? =
      if j = p.nextRetrieval then some { handle := h }
        else p.cache.retrievals[j]? := by
  show (p.cache.retrievals ++ [{ handle := h }])[j]? = _
  rw [nextRetrieval]
  rcases Nat.lt_trichotomy j p.cache.retrievals.length with hlt | rfl | hgt
  · rw [List.getElem?_append_left hlt, if_neg (Nat.ne_of_lt hlt)]
  · simp
  · rw [if_neg (Nat.ne_of_gt hgt), List.getElem?_eq_none (by simp; omega),
      List.getElem?_eq_none (Nat.le_of_lt hgt)]

/-- A call starts a retrieval and holds it. -/
theorem Supplied.start (h : p.Supplied others) (handle : Handle) :
    (p.act (.start handle)).Supplied fun i => others i ∨
    i = p.nextRetrieval := by
  obtain ⟨members, hmanned, hsub⟩ := h.manned
  have hassumes (j : Nat) : (p.act (.start handle)).cache.Assumes j ↔
      p.cache.Assumes j :=
    Cache.assumes_start
  refine ⟨⟨p.nextRetrieval :: members,
    ⟨fun j => ?_, fun j hj => ?_, fun j hj => ?_,
    fun j hj => hmanned.flying j ((hassumes j).1 hj)⟩, fun j hj => ?_⟩,
    fun j hj => ?_⟩
  · rw [hassumes]
    exact hmanned.guarded j
  · rw [getElem?_act_start]
    split
    · exact ⟨_, rfl⟩
    · rename_i hne
      rcases List.mem_cons.1 hj with hj | hj
      · exact absurd hj hne
      · exact hmanned.present j hj
  · obtain ⟨g, phase, hr⟩ := hj
    rw [getElem?_act_start] at hr
    split at hr
    · rename_i heq
      exact heq ▸ List.mem_cons_self
    · exact List.mem_cons_of_mem _ (hmanned.live j ⟨g, phase, hr⟩)
  · rcases hj with hj | rfl
    · exact List.mem_cons_of_mem _ (hsub j hj)
    · exact List.mem_cons_self
  · obtain ⟨g, phase, hr⟩ := hj
    rw [getElem?_act_start] at hr
    split at hr
    · rename_i heq
      exact .inr heq
    · exact .inl (h.live j ⟨g, phase, hr⟩)

/-- A retrieval goes on for the call that holds it. -/
theorem Supplied.step (h : p.Supplied held) (hi : held i)
    (hready : p.ready unit i = true) : (p.step unit i).Supplied held := by
  obtain ⟨members, hmanned, hsub⟩ := h.manned
  refine ⟨⟨members, hmanned.step (hsub i hi) hready, hsub⟩, fun j hj => ?_⟩
  by_cases heq : i = j
  · exact heq ▸ hi
  · obtain ⟨g, phase, hr⟩ := hj
    rw [getElem?_step_of_ne heq] at hr
    exact h.live j ⟨g, phase, hr⟩

/-- A call no longer holds a retrieval that has ended. -/
theorem Supplied.ended (h : p.Supplied fun j => others j ∨ j = i)
    (hfate : (p.fate? i).isSome = true) : p.Supplied others := by
  obtain ⟨members, hmanned, hsub⟩ := h.manned
  refine ⟨⟨members, hmanned, fun j hj => hsub j (.inl hj)⟩, fun j hj => ?_⟩
  rcases h.live j hj with hj' | rfl
  · exact hj'
  · obtain ⟨r, hr⟩ := h.present (.inr rfl)
    rw [(isSome_fate?_eq_false_iff hr).2 hj] at hfate
    cases hfate

/-- A call gives up the retrieval that it holds. -/
theorem Supplied.drop (h : p.Supplied fun j => others j ∨ j = i) :
    (p.drop i).Supplied others := by
  obtain ⟨members, hmanned, hsub⟩ := h.manned
  refine ⟨⟨members, hmanned.drop i, fun j hj => hsub j (.inl hj)⟩,
    fun j hj => ?_⟩
  have hne : i ≠ j := fun heq => not_isLive_drop p i (heq ▸ hj)
  obtain ⟨g, phase, hr⟩ := hj
  rw [getElem?_drop_of_ne hne] at hr
  exact (h.live j ⟨g, phase, hr⟩).resolve_right (Ne.symm hne)

end PlannedCache

/-! ## Stages and the cache -/

namespace Call.Stage

variable {credentials : Option Handle} {p p' : PlannedCache} {m : Moment}
  {stage stage' other : Stage} {others : Nat → Prop}

/-- A call goes to another stage, and holds the retrieval of that one. -/
theorem Goes.resupplied (h : Goes credentials p m stage p' stage')
    (hready : stage.ready p m = true)
    (hp : p.Supplied fun i => others i ∨ stage = retrieving i) :
    p'.Supplied fun i => others i ∨ stage' = retrieving i := by
  cases h with
  | pauses | yields => exact hp.congr fun i => by simp
  | retrieves =>
    have hothers : p.Supplied others := hp.congr fun i => by simp
    exact (hothers.start _).congr fun i => by simp [eq_comm]
  | @waits i hfate =>
    have hgoes : p.ready m.unit i = true := by simpa [ready, hfate] using hready
    exact hp.step (.inr rfl) hgoes
  | @supplied i due hfate =>
    have hheld : p.Supplied fun j => others j ∨ j = i :=
      hp.congr fun j => by simp [eq_comm]
    exact (hheld.ended hfate).congr fun j => by simp

/-- A call that has ended holds no retrieval. -/
theorem Unsupplied.supplied (h : stage.Unsupplied p)
    (hp : p.Supplied fun i => others i ∨ stage = retrieving i) :
    p.Supplied others := by
  cases stage with
  | retrieving i =>
    have hheld : p.Supplied fun j => others j ∨ j = i :=
      hp.congr fun j => by simp [eq_comm]
    exact hheld.ended (h i rfl)
  | begun | pausing | yielding => exact hp.congr fun i => by simp

/-- A call that is abandoned holds no retrieval. -/
theorem supplied_abandon
    (hp : p.Supplied fun i => others i ∨ stage = retrieving i) :
    (stage.abandon p).Supplied others := by
  cases stage with
  | retrieving i =>
    have hheld : p.Supplied fun j => others j ∨ j = i :=
      hp.congr fun j => by simp [eq_comm]
    exact hheld.drop
  | begun | pausing | yielding => exact hp.congr fun i => by simp

/-! ## What is left of a call -/

/-- The turns that a call has before it, and the moments that it waits for. -/
def left (p : PlannedCache) (m : Moment) : Stage → Nat
  | begun => 10
  | retrieving i => 5 + p.effort m.unit i
  | pausing due => if due ≤ m.unit then 3 else 4
  | yielding round => 1 + (round + 1 - m.round)

theorem left_pausing (p : PlannedCache) (m : Moment) (due : Nat) :
    (pausing due).left p m = if due ≤ m.unit then 3 else 4 := rfl

theorem left_pausing_le (p : PlannedCache) (m : Moment) (due : Nat) :
    (pausing due).left p m ≤ 4 := by
  rw [left_pausing]
  split <;> omega

/-- A turn of a call leaves it less to do. -/
theorem Goes.left_lt (h : Goes credentials p m stage p' stage')
    (hready : stage.ready p m = true) : stage'.left p' m < stage.left p m := by
  cases h with
  | @pauses due =>
    have hle := left_pausing_le p m due
    show left p m (pausing due) < 10
    omega
  | @retrieves h =>
    -- a retrieval that was only started has four steps before it
    have hnew : (p.act (.start h)).effort m.unit p.nextRetrieval = 4 := by
      rw [PlannedCache.effort, PlannedCache.getElem?_act_start, if_pos rfl]
      rfl
    show 5 + (p.act (.start h)).effort m.unit p.nextRetrieval < 10
    omega
  | @waits i hfate =>
    have hgoes : p.ready m.unit i = true := by simpa [ready, hfate] using hready
    exact Nat.add_lt_add_left (PlannedCache.effort_step_lt hgoes) 5
  | @supplied i due =>
    have hle := left_pausing_le p m due
    show left p m (pausing due) < 5 + p.effort m.unit i
    omega
  | @yields due =>
    have hdue : due ≤ m.unit := by simpa [ready] using hready
    show 1 + (m.round + 1 - m.round) < left p m (pausing due)
    rw [left_pausing, if_pos hdue]
    omega

/-- A turn of a call leaves another one no more to do. -/
theorem Goes.left_le (h : Goes credentials p m stage p' stage')
    (hready : stage.ready p m = true)
    (hpresent : ∀ i, other = retrieving i →
      ∃ r, p.cache.retrievals[i]? = some r) :
    other.left p' m ≤ other.left p m := by
  cases other with
  | begun | pausing | yielding => exact Nat.le_refl _
  | retrieving j =>
    refine Nat.add_le_add_left ?_ 5
    cases h with
    | pauses | supplied | yields => exact Nat.le_refl _
    | @retrieves h =>
      obtain ⟨r, hr⟩ := hpresent j rfl
      obtain ⟨hlt, _⟩ := List.getElem?_eq_some_iff.1 hr
      have hne : j ≠ p.nextRetrieval := Nat.ne_of_lt hlt
      rw [PlannedCache.effort, PlannedCache.getElem?_act_start, if_neg hne]
      exact Nat.le_refl _
    | @waits i hfate =>
      have hgoes : p.ready m.unit i = true := by
        simpa [ready, hfate] using hready
      by_cases heq : i = j
      · exact heq ▸ Nat.le_of_lt (PlannedCache.effort_step_lt hgoes)
      · exact Nat.le_of_eq (PlannedCache.effort_step_of_ne heq)

/-- A call that is abandoned leaves another one no more to do. -/
theorem left_abandon_le (p : PlannedCache) (m : Moment) (stage other : Stage) :
    other.left (stage.abandon p) m ≤ other.left p m := by
  cases other with
  | begun | pausing | yielding => exact Nat.le_refl _
  | retrieving j =>
    refine Nat.add_le_add_left ?_ 5
    cases stage with
    | retrieving i => exact PlannedCache.effort_drop_le p m.unit i j
    | begun | pausing | yielding => exact Nat.le_refl _

/-- The time moves on, which leaves no call more to do. -/
theorem left_moveTo_le (p : PlannedCache) (m : Moment) (unit : Nat)
    (stage : Stage) : stage.left p (m.moveTo unit) ≤ stage.left p m := by
  cases stage with
  | begun => exact Nat.le_refl _
  | retrieving i =>
    exact Nat.add_le_add_left (p.effort_le_of_le (Nat.le_max_left _ _) i) 5
  | pausing due =>
    have hlater : m.unit ≤ (m.moveTo unit).unit := Nat.le_max_left _ _
    rw [left_pausing, left_pausing]
    split <;> split <;> omega
  | yielding round =>
    show 1 + (round + 1 - (m.round + 1)) ≤ 1 + (round + 1 - m.round)
    omega

/-- The time moves on to the unit at which a call can go on. -/
theorem left_lt_of_due {unit : Nat} (hready : stage.ready p m = false)
    (hdue : stage.due p m = some unit) :
    stage.left p (m.moveTo unit) < stage.left p m := by
  have hreached : unit ≤ (m.moveTo unit).unit := Nat.le_max_right _ _
  cases stage with
  | begun => cases hdue
  | retrieving i =>
    have hwaits : p.ready m.unit i = false := by
      simp only [ready, Bool.or_eq_false_iff] at hready
      exact hready.2
    exact Nat.add_lt_add_left (PlannedCache.effort_lt_of_due hwaits
      hdue hreached) 5
  | pausing due =>
    have hsame : due = unit := Option.some.inj hdue
    have hlate : ¬due ≤ m.unit := by simpa [ready] using hready
    rw [left_pausing, left_pausing, if_pos (hsame ▸ hreached), if_neg hlate]
    omega
  | yielding round =>
    have hlate : ¬round < m.round := by simpa [ready] using hready
    show 1 + (round + 1 - (m.round + 1)) < 1 + (round + 1 - m.round)
    omega

/-- A call that cannot go on has a unit at which it can, or waits for a
retrieval that goes on, now or at some unit. -/
theorem exists_due {held : Nat → Prop} (hready : stage.ready p m = false)
    (hp : ∀ i, stage = retrieving i → p.Supplied held ∧ held i) :
    (stage.due p m).isSome = true ∨
      ∃ j, held j ∧ (p.ready m.unit j = true ∨ (p.due j).isSome = true) := by
  cases stage with
  | begun => cases hready
  | pausing due | yielding round => exact .inl rfl
  | retrieving i =>
    obtain ⟨hsupplied, hi⟩ := hp i rfl
    simp only [ready, Bool.or_eq_false_iff] at hready
    obtain ⟨members, hmanned, hsub⟩ := hsupplied.manned
    obtain ⟨r, hr⟩ := hmanned.present i (hsub i hi)
    have hlive := (PlannedCache.isSome_fate?_eq_false_iff hr).1 hready.1
    right
    rcases hmanned.goesOn hlive m.unit with ⟨j, _, hgoes⟩ | ⟨j, _, hdue⟩
    · exact ⟨j, hsupplied.live j (PlannedCache.isLive_of_ready hgoes),
        .inl hgoes⟩
    · exact ⟨j, hsupplied.live j (PlannedCache.isLive_of_due hdue), .inr hdue⟩

end Call.Stage

/-! ## What is left of a lookup -/

namespace SetLookup

variable {d : Directory} {credentials : Option Handle} {p p' : PlannedCache}
  {m : Moment} {task task' : SetLookup} {others : Nat → Prop}

/-- A lookup goes on, and holds the retrieval of the call that is then under
way. -/
theorem Goes.resupplied (h : Goes d credentials p m task p' task')
    (hready : task.stage.ready p m = true)
    (hp : p.Supplied fun i => others i ∨ task.stage = .retrieving i) :
    p'.Supplied fun i => others i ∨ task'.stage = .retrieving i := by
  cases h with
  | call _ hgoes => exact hgoes.resupplied hready hp
  | next hover hscene _ hbegun =>
    rw [hscene, hbegun]
    exact (hover.supplied hp).congr fun i => by simp

/-- What is left of the call under way, and of those that follow it. -/
noncomputable def left (d : Directory) (p : PlannedCache) (m : Moment)
    (task : SetLookup) : Nat :=
  task.stage.left p m + 11 * task.ahead d

/-- A turn of a lookup leaves it less to do. -/
theorem Goes.left_lt (h : Goes d credentials p m task p' task')
    (hready : task.stage.ready p m = true) :
    task'.left d p' m < task.left d p m := by
  unfold left
  cases h with
  | call hahead hgoes =>
    have hlt := hgoes.left_lt hready
    omega
  | next _ hscene hahead hbegun =>
    have hten : task'.stage.left p' m = 10 := by
      rw [hbegun]
      rfl
    omega

/-- A turn of a lookup leaves another call no more to do. -/
theorem Goes.left_le (h : Goes d credentials p m task p' task')
    (hready : task.stage.ready p m = true) {other : Call.Stage}
    (hpresent : ∀ i, other = .retrieving i →
      ∃ r, p.cache.retrievals[i]? = some r) :
    other.left p' m ≤ other.left p m := by
  cases h with
  | call _ hgoes => exact hgoes.left_le hready hpresent
  | next _ hscene => rw [hscene]

end SetLookup

end CloudAccess
