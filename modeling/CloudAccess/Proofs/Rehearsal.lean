import CloudAccess.Rehearsal
import Mathlib.Order.OrderIsoNat

/-!
# Rehearsals that come to an end

* `earliest_eq_some` and `isSome_earliest` say which unit is the next one at
  which something is due.
* `Winds` says that a play winds down: each step leaves less to do, and there
  is a step until the play is over.  `Winds.run_isOver` bounds the steps that
  such a play needs, whatever is in line first.
* `Sinks` says the same where what is left to do is no number but falls in an
  order without endless descent.  `Sinks.exists_isOver` says that no order of
  steps goes on for ever, and `Sinks.run_complete` that a run that is granted
  enough steps is complete.
* `Shows` says that a view of the states shows all that a play depends on.
  Then `Shows.reaches` and `Shows.run` say that states that look the same go on
  the same way.
-/

namespace CloudAccess

/-! ## The next unit -/

theorem earlier_eq_some {a b : Option Nat} {unit : Nat}
    (h : earlier a b = some unit) : a = some unit ∨ b = some unit := by
  cases a with
  | none => exact .inr h
  | some m =>
    cases b with
    | none => exact .inl h
    | some n =>
      have hmin : min m n = unit := Option.some.inj h
      rcases Nat.le_total m n with hle | hle
      · rw [Nat.min_eq_left hle] at hmin
        exact .inl (congrArg some hmin)
      · rw [Nat.min_eq_right hle] at hmin
        exact .inr (congrArg some hmin)

theorem isSome_earlier (a b : Option Nat) :
    (earlier a b).isSome = (a.isSome || b.isSome) := by
  cases a <;> cases b <;> rfl

private theorem foldl_earlier_eq_some {due : List (Option Nat)}
    {first : Option Nat} {unit : Nat}
    (h : due.foldl earlier first = some unit) :
    first = some unit ∨ some unit ∈ due := by
  induction due generalizing first with
  | nil => exact .inl h
  | cons next due ih =>
    rcases ih h with hsoon | hlater
    · rcases earlier_eq_some hsoon with hfirst | hnext
      · exact .inl hfirst
      · exact .inr (hnext ▸ List.mem_cons_self)
    · exact .inr (List.mem_cons_of_mem _ hlater)

/-- The earliest unit is one of those in the list. -/
theorem earliest_eq_some {due : List (Option Nat)} {unit : Nat}
    (h : earliest due = some unit) : some unit ∈ due := by
  rcases foldl_earlier_eq_some h with hnone | hin
  · cases hnone
  · exact hin

private theorem isSome_foldl_earlier (due : List (Option Nat))
    (first : Option Nat) :
    (due.foldl earlier first).isSome =
      (first.isSome || due.any (·.isSome)) := by
  induction due generalizing first with
  | nil => simp
  | cons next due ih =>
    rw [List.foldl_cons, ih, isSome_earlier, List.any_cons, Bool.or_assoc]

/-- There is an earliest unit when there is any. -/
theorem isSome_earliest (due : List (Option Nat)) :
    (earliest due).isSome = due.any (·.isSome) :=
  isSome_foldl_earlier due none

/-! ## The steps of a run -/

namespace Play

variable {σ τ : Type} {p : Play σ τ} {I : σ → Prop}

/-- There is a step when the time can move on as long as every task waits. -/
theorem exists_step {s : σ}
    (hdue : (∀ task ∈ p.tasks s, p.ready s task = false) →
      (p.due s).isSome = true) : ∃ t, p.Step s t := by
  by_cases hwaits : ∀ task ∈ p.tasks s, p.ready s task = false
  · obtain ⟨unit, hunit⟩ := Option.isSome_iff_exists.1 (hdue hwaits)
    exact ⟨_, .time hwaits hunit⟩
  · simp only [not_forall, Bool.not_eq_false] at hwaits
    obtain ⟨task, hmem, hready⟩ := hwaits
    exact ⟨_, .task hmem hready⟩

/-- A run that is not over takes some step if there is one, and goes on from
there. -/
theorem exists_run_succ [DecidableEq τ] {s : σ} (queue : List τ)
    (hover : p.isOver s = false) (hgoes : ∃ t, p.Step s t) :
    ∃ t rest, p.Step s t ∧
      ∀ steps, p.run (steps + 1) queue s = p.run steps rest t := by
  cases hline : p.line queue s with
  | cons task rest =>
    obtain ⟨hmem, hready⟩ :=
      mem_line (hline ▸ List.mem_cons_self : task ∈ p.line queue s)
    exact ⟨_, task :: rest, .task hmem hready, fun steps =>
      by simp [run, hover, hline]⟩
  | nil =>
    have hwaits := waits_of_line_eq_nil hline
    obtain ⟨t, hstep⟩ := hgoes
    cases hstep with
    | task hmem hready =>
      rw [hwaits _ hmem] at hready
      cases hready
    | time _ hdue =>
      exact ⟨_, [], .time hwaits hdue, fun steps =>
        by simp [run, hover, hline, hdue]⟩

/-- A run whose play is over is complete, however many steps are granted. -/
theorem run_of_isOver [DecidableEq τ] {s : σ} (hover : p.isOver s = true)
    (steps : Nat) (queue : List τ) : p.run steps queue s = .complete s := by
  cases steps <;> simp [run, hover]

/-- A run that is complete after some steps is so after more of them. -/
theorem run_complete_of_le [DecidableEq τ] {steps more : Nat} {queue : List τ}
    {s t : σ} (h : p.run steps queue s = .complete t) (hle : steps ≤ more) :
    p.run more queue s = .complete t := by
  induction steps generalizing more queue s with
  | zero =>
    unfold run at h
    split at h
    · rename_i hover
      rw [run_of_isOver hover, h]
    · cases h
  | succ steps ih =>
    obtain ⟨more, rfl⟩ : ∃ k, more = k + 1 := ⟨more - 1, by omega⟩
    unfold run at h ⊢
    split
    · simpa [*] using h
    · simp only [*, Bool.false_eq_true, if_false] at h
      split at h
      · exact ih h (by omega)
      · split at h
        · exact ih h (by omega)
        · cases h

/-- A run that is granted no step stays where it is. -/
theorem state_run_zero [DecidableEq τ] (queue : List τ) (s : σ) :
    (p.run 0 queue s).state = s := by
  unfold run
  split <;> rfl

/-- A run stays where it is, or the first task in line takes a step, or the time
moves on. -/
theorem run_cases [DecidableEq τ] (p : Play σ τ) (queue : List τ) (s : σ) :
    (∀ steps, (p.run steps queue s).state = s) ∨
      (∃ task rest, p.line queue s = task :: rest ∧
        ∀ steps, p.run (steps + 1) queue s =
          p.run steps (task :: rest) (p.step s task)) ∨
      ∃ unit, p.line queue s = [] ∧
        ∀ steps, p.run (steps + 1) queue s =
          p.run steps [] (p.advance s unit) := by
  cases hover : p.isOver s with
  | true => exact .inl fun steps => by rw [run_of_isOver hover]; rfl
  | false =>
    cases hline : p.line queue s with
    | cons task rest =>
      exact .inr (.inl ⟨task, rest, rfl, fun steps =>
        by simp [run, hover, hline]⟩)
    | nil =>
      cases hdue : p.due s with
      | some unit =>
        exact .inr (.inr ⟨unit, rfl, fun steps =>
          by simp [run, hover, hline, hdue]⟩)
      | none =>
        refine .inl fun steps => ?_
        cases steps with
        | zero => exact state_run_zero queue s
        | succ steps => simp [run, hover, hline, hdue, Ending.state]

/-- A run that ends where its play is over is complete. -/
theorem run_eq_complete [DecidableEq τ] {steps : Nat} {queue : List τ} {s : σ}
    (hover : p.isOver (p.run steps queue s).state = true) :
    p.run steps queue s = .complete (p.run steps queue s).state := by
  induction steps generalizing queue s with
  | zero =>
    unfold run at hover ⊢
    split at hover <;> simp_all [Ending.state]
  | succ steps ih =>
    cases hend : p.isOver s with
    | true => rw [run_of_isOver hend]; rfl
    | false =>
      unfold run at hover ⊢
      simp only [hend, Bool.false_eq_true, if_false] at hover ⊢
      split at hover
      · exact ih hover
      · split at hover
        · exact ih hover
        · rw [show (Ending.stuck s).state = s from rfl, hend] at hover
          cases hover

/-! ## Plays that wind down -/

section Winds

variable {left : σ → Nat}

/-- While `I` holds, each step of a play that is not over leaves less to do,
and there is such a step. -/
structure Winds (p : Play σ τ) (I : σ → Prop) (left : σ → Nat) : Prop where
  keeps : ∀ s t, I s → p.Step s t → I t
  falls : ∀ s t, I s → p.isOver s = false → p.Step s t → left t < left s
  goesOn : ∀ s, I s → p.isOver s = false → ∃ t, p.Step s t

/-- A play that winds down is over after as many steps as there is left to
do. -/
theorem Winds.run_isOver [DecidableEq τ] (h : p.Winds I left) {steps : Nat}
    {queue : List τ} {s : σ} (hs : I s) (hle : left s ≤ steps) :
    p.isOver (p.run steps queue s).state = true := by
  induction steps generalizing queue s with
  | zero =>
    cases hover : p.isOver s with
    | true => rwa [run_of_isOver hover]
    | false =>
      obtain ⟨t, hstep⟩ := h.goesOn s hs hover
      have hlt := h.falls s t hs hover hstep
      omega
  | succ steps ih =>
    cases hover : p.isOver s with
    | true => rwa [run_of_isOver hover]
    | false =>
      obtain ⟨t, rest, hstep, hrun⟩ :=
        exists_run_succ queue hover (h.goesOn s hs hover)
      have hlt := h.falls s t hs hover hstep
      rw [hrun]
      exact ih (h.keeps s t hs hstep) (by omega)

end Winds

/-! ## Plays that cannot go on for ever -/

/-- An endless sequence of states in which each one that is not over takes a
step to the next. -/
def Unfolds (p : Play σ τ) (f : Nat → σ) : Prop :=
  ∀ n, p.isOver (f n) = false → p.Step (f n) (f (n + 1))

/-- While `I` holds, each step of a play that is not over leaves less to do,
in an order without endless descent, and there is such a step. -/
structure Sinks {α : Type} [Preorder α] (p : Play σ τ) (I : σ → Prop)
    (left : σ → α) :
    Prop where
  keeps : ∀ s t, I s → p.isOver s = false → p.Step s t → I t
  falls : ∀ s t, I s → p.isOver s = false → p.Step s t → left t < left s
  goesOn : ∀ s, I s → p.isOver s = false → ∃ t, p.Step s t

section Sinks

variable {α : Type} [Preorder α] [WellFoundedLT α] {left : σ → α}

/-- In every order of its steps such a play is over at some point. -/
theorem Sinks.exists_isOver (h : p.Sinks I left) {f : Nat → σ}
    (hf : p.Unfolds f) (hs : I (f 0)) :
    ∃ n, p.isOver (f n) = true ∧ I (f n) ∧ p.Reaches (f 0) (f n) := by
  by_contra hnone
  push Not at hnone
  have hgoes (n : Nat) (hn : I (f n) ∧ p.Reaches (f 0) (f n)) :
      p.isOver (f n) = false := by
    cases hover : p.isOver (f n) with
    | false => rfl
    | true => exact absurd hn.2 (hnone n hover hn.1)
  have hkept (n : Nat) : I (f n) ∧ p.Reaches (f 0) (f n) := by
    induction n with
    | zero => exact ⟨hs, .refl⟩
    | succ n ih =>
      have hstep := hf n (hgoes n ih)
      exact ⟨h.keeps _ _ ih.1 (hgoes n ih) hstep, ih.2.trans (.single hstep)⟩
  refine not_strictAnti_of_wellFoundedLT (fun n => left (f n))
    (strictAnti_nat_of_succ_lt ?_)
  intro n
  exact h.falls _ _ (hkept n).1 (hgoes n (hkept n)) (hf n (hgoes n (hkept n)))

/-- A run of such a play that is granted enough steps is complete. -/
theorem Sinks.run_complete [DecidableEq τ] (h : p.Sinks I left) {s : σ}
    (hs : I s) (queue : List τ) :
    ∃ n t, p.isOver t = true ∧ I t ∧ p.Reaches s t ∧
      ∀ steps, n ≤ steps → p.run steps queue s = .complete t := by
  induction hleft : left s using WellFoundedLT.induction generalizing
    s queue with
  | ind bound ih =>
    cases hover : p.isOver s with
    | true =>
      exact ⟨0, s, hover, hs, .refl, fun steps _ =>
        run_of_isOver hover steps queue⟩
    | false =>
      obtain ⟨t, rest, hstep, hrun⟩ :=
        exists_run_succ queue hover (h.goesOn s hs hover)
      obtain ⟨n, u, hend, hu, hreach, hcomplete⟩ :=
        ih (left t) (hleft ▸ h.falls s t hs hover hstep)
          (h.keeps s t hs hover hstep) rest rfl
      refine ⟨n + 1, u, hend, hu, (Reaches.single hstep).trans hreach,
        fun steps hle => ?_⟩
      obtain ⟨steps, rfl⟩ : ∃ k, steps = k + 1 := ⟨steps - 1, by omega⟩
      rw [hrun, hcomplete steps (by omega)]

end Sinks

/-! ## States that look the same -/

/-- A view of the states of a play shows all that goes on depends on: which
tasks there are, when they are ready and due, and when the play is over. -/
structure Shows (p : Play σ τ) (view : σ → σ) : Prop where
  tasks : ∀ s, p.tasks (view s) = p.tasks s
  ready : ∀ s task, p.ready (view s) task = p.ready s task
  step : ∀ s task, p.step (view s) task = view (p.step s task)
  due : ∀ s, p.due (view s) = p.due s
  advance : ∀ s unit, p.advance (view s) unit = view (p.advance s unit)
  isOver : ∀ s, p.isOver (view s) = p.isOver s

section Shows

variable {view : σ → σ} {s s' t : σ}

/-- From a state that looks the same, a step leads to one that looks the
same. -/
theorem Shows.match_step (h : p.Shows view) (hview : view s' = view s)
    (hstep : p.Step s t) : ∃ t', p.Step s' t' ∧ view t' = view t := by
  have hready (task : τ) : p.ready s' task = p.ready s task := by
    rw [← h.ready s', hview, h.ready]
  have htasks : p.tasks s' = p.tasks s := by rw [← h.tasks s', hview, h.tasks]
  cases hstep with
  | @task task hmem hgoes =>
    refine ⟨_, .task (htasks ▸ hmem) ((hready task).trans hgoes), ?_⟩
    rw [← h.step, ← h.step, hview]
  | @time unit hwaits hdue =>
    refine ⟨_, .time (fun task hmem =>
      (hready task).trans (hwaits task (htasks ▸ hmem)))
      (?_ : p.due s' = some unit), ?_⟩
    · rw [← h.due, hview, h.due, hdue]
    · rw [← h.advance, ← h.advance, hview]

/-- So it is for steps in any order. -/
theorem Shows.reaches (h : p.Shows view) (hview : view s' = view s)
    (hreach : p.Reaches s t) : ∃ t', p.Reaches s' t' ∧ view t' = view t := by
  refine hreach.invariant (I := fun t => ∃ t', p.Reaches s' t' ∧
    view t' = view t) ⟨s', .refl, hview⟩ ?_
  rintro u v ⟨u', hu', hviews⟩ hstep
  obtain ⟨v', hstep', hview'⟩ := h.match_step hviews hstep
  exact ⟨v', hu'.trans (.single hstep'), hview'⟩

/-- A run looks the same all the way. -/
theorem Shows.run [DecidableEq τ] (h : p.Shows view) (steps : Nat)
    (queue : List τ) (s : σ) :
    (p.run steps queue (view s)).state = view (p.run steps queue s).state := by
  induction steps generalizing queue s with
  | zero =>
    simp only [Play.run, h.isOver]
    split <;> rfl
  | succ steps ih =>
    have hready : p.ready (view s) = p.ready s := funext (h.ready s)
    have hline : p.line queue (view s) = p.line queue s := by
      simp only [line, h.tasks, hready]
    simp only [Play.run, h.isOver, hline, h.due]
    split
    · rfl
    · split
      · rw [h.step, ih]
      · split
        · rw [h.advance, ih]
        · rfl

end Shows

end Play

end CloudAccess
