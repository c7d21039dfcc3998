import CloudAccess.Proofs.Cache.Batches

/-!
# Callers that leave

The retrievals of a batch may be given up one at a time, each by its own
caller, whenever that likes.

* `Batch.leave` gives one of them up, and `Batch.Goes` counts the steps of a
  batch between such departures.
* `Goes.length_le` bounds these steps, `Goes.goesOn` finds one until each
  retrieval has ended, and `Goes.dropped` says that only those are given up
  whose callers leave, unless a deadline comes.
-/

namespace CloudAccess

/-! ## Retrievals that are given up -/

namespace Holding

variable {s : Holding} {h : Handle}

/-- No answer gives a retrieval up. -/
theorem settle_ne_dropped (answer : Outcome CredentialSet) :
    (s.settle h answer).2 ≠ .dropped := by
  unfold settle
  cases answer with
  | crashed | failed => simp
  | value c =>
    dsimp only
    split <;> simp

/-- No end of an assumption gives a retrieval up. -/
theorem land_ne_dropped (l : Landing) : (s.land h l).2 ≠ .dropped := by
  unfold land
  split
  · exact settle_ne_dropped _
  · split <;> exact settle_ne_dropped _

theorem serve_ne_dropped : (s.serve h).2 ≠ .dropped := by
  unfold serve
  split
  · simp
  · simp
  · exact land_ne_dropped _

end Holding

namespace PlannedCache

variable {p : PlannedCache} {unit i j : Nat}

/-- No step of a retrieval gives one up. -/
theorem dropped_of_step (hready : p.ready unit i = true)
    (h : (p.step unit i).fate? j = some .dropped) :
    p.fate? j = some .dropped := by
  by_cases heq : i = j
  · subst heq
    unfold fate? at h
    cases move_step hready with
    | waits _ hr' | assumes _ _ _ hr' => simp [hr'] at h
    | looks _ _ _ hr' =>
      simp only [hr', Option.bind_some, Option.some_inj] at h
      exact absurd h Holding.serve_ne_dropped
    | lands _ _ hr' =>
      simp only [hr', Option.bind_some, Option.some_inj] at h
      exact absurd h (Holding.land_ne_dropped _)
  · rwa [fate?, getElem?_step_of_ne heq] at h

/-- A retrieval that is given up is the only one. -/
theorem dropped_of_drop (h : (p.drop i).fate? j = some .dropped) :
    j = i ∨ p.fate? j = some .dropped := by
  by_cases heq : i = j
  · exact .inl heq.symm
  · rw [fate?, getElem?_drop_of_ne heq] at h
    exact .inr h

end PlannedCache

namespace Batch

variable {b c d : Batch} {k i : Nat} {given : List Nat}

/-! ## Batches that are left -/

/-- The caller of a retrieval leaves: it is given up. -/
def leave (b : Batch) (i : Nat) : Batch :=
  { b with
    scene := b.scene.drop i
    ended := if (b.scene.fate? i).isNone then b.ended ++ [i] else b.ended }

/-- A batch takes steps in any order, and the callers of the given retrievals
leave in between. -/
inductive Goes (b : Batch) : Nat → List Nat → Batch → Prop
  | refl : Goes b 0 [] b
  | step {k : Nat} {given : List Nat} {c d : Batch} (h : Goes b k given c)
      (hstep : play.Step c d) : Goes b (k + 1) given d
  | leave {k : Nat} {given : List Nat} {c : Batch} (h : Goes b k given c)
      (i : Nat) :
      Goes b k (i :: given) (c.leave i)

/-- What the steps and the departures keep holds as long as a batch goes on. -/
theorem Goes.keeps {I : Batch → Prop} (h : b.Goes k given c) (hb : I b)
    (hstep : ∀ u v, I u → play.Step u v → I v)
    (hleave : ∀ u i, I u → I (u.leave i)) : I c := by
  induction h with
  | refl => exact hb
  | step _ hmove ih => exact hstep _ _ ih hmove
  | leave _ i ih => exact hleave _ i ih

theorem Goes.manned (h : b.Goes k given c) (hb : b.Manned) : c.Manned :=
  h.keeps hb (fun _ _ hu hstep => hu.step hstep) fun _ i hu =>
    PlannedCache.Manned.drop hu i

theorem Goes.members (h : b.Goes k given c) : c.members = b.members := by
  refine h.keeps (I := fun c => c.members = b.members) rfl
    (fun u v hu hstep => ?_) fun _ _ hu => hu
  rcases step_cases hstep with
    ⟨i, -, -, rfl⟩ | ⟨-, rfl⟩ | ⟨unit, -, -, -, rfl⟩ <;> exact hu

/-- A deadline never comes up. -/
theorem Goes.deadline (h : b.Goes k given c) (hc : c.deadline.isSome = true) :
    b.deadline.isSome = true := by
  refine h.keeps (I := fun c => c.deadline.isSome = true →
    b.deadline.isSome = true) id (fun u v hu hstep => ?_) (fun _ _ hu => hu) hc
  rcases step_cases hstep with ⟨i, -, -, rfl⟩ | ⟨-, rfl⟩ | ⟨unit, -, -, -, rfl⟩
  · exact hu
  · intro hv
    cases hv
  · exact hu

/-- A departure leaves no more to do. -/
theorem left_leave_le (b : Batch) (i : Nat) : (b.leave i).left ≤ b.left :=
  Nat.add_le_add_right
    (List.sum_le_sum fun j _ =>
      PlannedCache.effort_drop_le b.scene b.moment.unit i j)
    b.deadlineEffort

/-- A batch takes no more steps than are left to it. -/
theorem Goes.length_le (h : b.Goes k given c) : k + c.left ≤ b.left := by
  induction h with
  | refl => omega
  | step _ hstep ih =>
    have hlt := left_step_lt hstep
    omega
  | @leave _ _ c _ i ih =>
    have hle := left_leave_le c i
    omega

/-- Until each retrieval has ended, whoever has left, there is a step. -/
theorem Goes.goesOn (h : b.Goes k given c) (hb : b.Manned)
    (hover : c.isOver = false) : ∃ d, play.Step c d :=
  winds.goesOn c (h.manned hb) hover

/-- Only those retrievals are given up whose callers leave, unless there is a
deadline. -/
theorem Goes.dropped (h : b.Goes k given c)
    (hc : c.scene.fate? i = some .dropped) :
    b.scene.fate? i = some .dropped ∨ i ∈ given ∨ b.deadline.isSome = true := by
  induction h with
  | refl => exact .inl hc
  | step hgoes hstep ih =>
    rcases step_cases hstep with ⟨j, -, hready, rfl⟩ | ⟨⟨unit, hunit, -⟩, rfl⟩ |
      ⟨unit, -, -, -, rfl⟩
    · exact ih (PlannedCache.dropped_of_step hready hc)
    · exact .inr (.inr (hgoes.deadline (by rw [Option.mem_def.1 hunit]; rfl)))
    · exact ih hc
  | leave _ j ih =>
    rcases PlannedCache.dropped_of_drop hc with rfl | hbefore
    · exact .inr (.inl List.mem_cons_self)
    · exact (ih hbefore).imp id (Or.imp (List.mem_cons_of_mem _) id)

/-! ## From the start of a batch -/

variable {p : PlannedCache} {handles : List Handle} {deadline : Option Nat}

/-- At its start no retrieval of a batch has ended. -/
theorem fate?_start (hi : i ∈ (start p handles deadline).members) :
    (start p handles deadline).scene.fate? i = none := by
  obtain ⟨k, hlt, rfl⟩ := mem_members_start.1 hi
  rw [PlannedCache.fate?, getElem?_start, List.getElem?_eq_getElem hlt]
  rfl

/-- Once a batch is over, each of its retrievals has ended, and only those were
given up whose callers have left, unless there was a deadline. -/
theorem Goes.ended (h : (start p handles deadline).Goes k given c)
    (hover : c.isOver = true) (hi : i ∈ (start p handles deadline).members) :
    ∃ fate, c.scene.fate? i = some fate ∧
      (fate = .dropped → i ∈ given ∨ deadline.isSome = true) := by
  have hall : ∀ i ∈ c.members, (c.scene.fate? i).isSome = true := by
    simpa [isOver] using hover
  obtain ⟨fate, hfate⟩ := Option.isSome_iff_exists.1 (hall i (h.members ▸ hi))
  refine ⟨fate, hfate, ?_⟩
  rintro rfl
  refine (h.dropped hfate).resolve_left ?_
  rw [fate?_start hi]
  simp

/-- A batch on an idle cache that is granted its steps runs to its end. -/
theorem run_eq_complete (hp : p.Idle) (handles : List Handle)
    (deadline : Option Nat) :
    play.run (start p handles deadline).steps [] (start p handles deadline) =
      .complete (start p handles deadline).run :=
  Play.run_eq_complete (run_isOver hp handles deadline)

end Batch

end CloudAccess
