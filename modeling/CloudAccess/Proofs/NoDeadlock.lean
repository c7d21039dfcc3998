import CloudAccess.Proofs.Cache.Leaving
import CloudAccess.Proofs.Enumeration.Prompt

/-!
# Nothing waits for ever

Enumerations over finite chains of pages and batches of retrievals come to
their end.

* `RunScene.FetchCrashed` says that a fetch crashed on the way, and
  `RunScene.Concludes` how an enumeration has ended: it has a result, or it
  crashed for want of permits or with a fetch, or its caller has given it up.
* `RunScene.standing_sinks` says that a scene with finite waits has a step
  until it is over, and cannot go on for ever.
* `no_deadlock` says so of enumerations, and of retrievals that share a cache
  and some of whose callers leave.
-/

namespace CloudAccess

namespace RunScene

variable {ω φ κ : Type} {r : Remote ω φ κ} {f : Gauge φ} {l : Gauge κ}
  {s t : RunScene ω φ κ} {within : Nat → RunScene ω φ κ → Prop} {e : Enumerator}
  {signals : Signals} {caller : Cancellation}

/-- On the way from `s` to `t` the fetch under way crashed. -/
def FetchCrashed (r : Remote ω φ κ) (s t : RunScene ω φ κ) : Prop :=
  ∃ u task world, (play r).Reaches s u ∧ (play r).Reaches u t ∧
    u.fetch = some task ∧
    r.fetching.turn u.world u.situation task = (world, .done .crashed)

/-- How the enumeration that began with a scene `s` has ended in `t`: it
returned a result; it crashed because it needs more permits than there can be
or because a fetch of it did; or its caller gave it up, as the caller
intended. -/
def Concludes (r : Remote ω φ κ) (e : Enumerator) (s t : RunScene ω φ κ) :
    Prop :=
  (∃ result, t.run.driver = .returned result) ∨
    (t.run.driver = .crashed ∧
      (Enumerator.maxPermits < e.concurrency ∨ FetchCrashed r s t)) ∨
    (t.run.driver = .dropped ∧ s.dropAt.isSome = true)

theorem FetchCrashed.step (h : FetchCrashed r s t) {u : RunScene ω φ κ}
    (hstep : (play r).Step t u) : FetchCrashed r s u := by
  obtain ⟨before, task, world, hs, ht, hfetch, hturn⟩ := h
  exact ⟨before, task, world, hs, ht.step hstep, hfetch, hturn⟩

/-- A driver crashes with the fetch that it waits for. -/
theorem Move.crashed (hm : Move r s t) (hd : t.run.driver = .crashed) :
    s.run.driver = .crashed ∨
      ∃ task world, s.fetch = some task ∧
        r.fetching.turn s.world s.situation task = (world, .done .crashed) := by
  have hact {a : Run.Action} (ha : a ≠ .answer .crashed)
      (hrun : t.run = s.run.act a) : s.run.driver = .crashed := by
    have he : s.run.Effect a t.run := hrun ▸ s.run.effect_act a
    exact (he.crashed hd).2.resolve_right fun ⟨_, hanswer, _⟩ => ha hanswer
  cases hm with
  | ask | drive => exact .inl (hact (a := .drive) (by simp) rfl)
  | fetch _ _ _ _ hrun | lookup _ _ _ hrun =>
    rcases hrun with rfl | ⟨g, rfl⟩ <;> exact .inl hd
  | @answer task o world hfetch _ hdone =>
    cases o with
    | crashed => exact .inr ⟨task, world, hfetch, hdone⟩
    | value p => exact .inl (hact (a := .answer (.value p)) (by simp) rfl)
    | failed err => exact .inl (hact (a := .answer (.failed err)) (by simp) rfl)
  | @work i => exact .inl (hact (a := .work i) (by simp) rfl)
  | @report i _ o => exact .inl (hact (a := .report i o) (by simp) rfl)
  | @unwind i => exact .inl (hact (a := .unwind i) (by simp) rfl)
  | giveUp => exact .inl (hact (a := .drop) (by simp) rfl)
  | cancel | time => exact .inl hd

/-- An enumeration crashes for want of permits or with a fetch. -/
theorem crashed_cases (hs : s.Opens e signals caller)
    (ht : (play r).Reaches s t) (hd : t.run.driver = .crashed) :
    Enumerator.maxPermits < e.concurrency ∨ FetchCrashed r s t := by
  refine ht.invariant (I := fun t => (play r).Reaches s t ∧
    (t.run.driver = .crashed →
    Enumerator.maxPermits < e.concurrency ∨ FetchCrashed r s t))
    ⟨.refl, fun hd => ?_⟩ ?_ |>.2 hd
  · refine .inl (Nat.lt_of_not_le fun hfit => ?_)
    rw [hs.run_eq, Run.start_eq] at hd
    simp [hfit] at hd
  · rintro u v ⟨hu, hbefore⟩ hstep
    refine ⟨hu.step hstep, fun hd => ?_⟩
    rcases (move hstep).crashed hd with hwas | ⟨task, world, hfetch, hturn⟩
    · exact (hbefore hwas).imp_right (·.step hstep)
    · exact .inr ⟨u, task, world, hu, .single hstep, hfetch, hturn⟩

/-- Nobody gives up an enumeration whose caller does not intend to. -/
theorem intends_of_dropped (hs : s.Opens e signals caller)
    (ht : (play r).Reaches s t) (hd : t.run.driver = .dropped) :
    s.dropAt.isSome = true := by
  have hkept : (t.run.driver = .dropped → s.dropAt.isSome = true) ∧
      (t.dropAt.isSome = true → s.dropAt.isSome = true) := by
    refine ht.invariant (I := fun t =>
      (t.run.driver = .dropped → s.dropAt.isSome = true) ∧
      (t.dropAt.isSome = true → s.dropAt.isSome = true)) ⟨fun hd => ?_, id⟩ ?_
    · rw [hs.run_eq, Run.start_eq] at hd
      by_cases hfit : e.concurrency ≤ Enumerator.maxPermits <;>
        simp [hfit] at hd
    · rintro u v ⟨hu, hintends⟩ hstep
      have hm := move hstep
      exact ⟨fun hd => (hm.dropped hd).elim hu hintends, fun h =>
        hintends (hm.dropAt h)⟩
  exact hkept.1 hd

theorem concludes (hs : s.Opens e signals caller) (ht : (play r).Reaches s t)
    (hover : t.isOver = true) : Concludes r e s t := by
  rw [isOver, Bool.and_eq_true] at hover
  cases hd : t.run.driver with
  | returned result => exact .inl ⟨result, hd⟩
  | crashed => exact .inr (.inl ⟨hd, crashed_cases hs ht hd⟩)
  | dropped => exact .inr (.inr ⟨hd, intends_of_dropped hs ht hd⟩)
  | _ => simp [hd, Run.Driver.isOver] at hover

/-- A scene in which no task waits for ever has a step until it is over, and
cannot go on for ever. -/
theorem standing_sinks (hr : r.Ends f l) (hw : Reckons r within) :
    (play r).Sinks (Standing r f l within) (left r f l within) where
  keeps _ _ h _ hstep := h.step hr.toRests hw hstep
  falls s u h _ hstep := by
    cases hstep with
    | task _ hready => exact h.left_step_lt hr.toRests hw hready
    | time hwaits hdue => exact h.left_time_lt hr hw hwaits hdue
  goesOn s h hover := h.goesOn hr hover

end RunScene

/-- An enumeration over a finite chain of pages, or with a page limit, whose
fetches and lookups do not wait for ever: wherever its steps lead, there is a
step until it is over, every order of steps leads to its end, and so does a
rehearsal that is granted enough steps, whatever fails, crashes or is cancelled
meanwhile.  It then has a result, unless it crashed for want of permits or with
a fetch, or its caller gave it up.  And retrievals that are started together on
a cache between the operations of a session, whose callers leave whenever they
like: there is a step until each retrieval has ended, after no more than
`Batch.steps` of them all have ended, and only those were given up whose callers
left, unless there was a deadline. -/
theorem no_deadlock :
    (∀ {ω φ κ : Type} (r : Remote ω φ κ) (f : Gauge φ) (l : Gauge κ)
      (e : Enumerator) (signals : Signals) (caller : Cancellation)
      (s : RunScene ω φ κ),
      r.Ends f l → r.Finite e → s.Opens e signals caller →
      (∀ t, (RunScene.play r).Reaches s t →
        (t.isOver = false → ∃ u, (RunScene.play r).Step t u) ∧
        ∀ order, (RunScene.play r).Unfolds order → order 0 = t →
          ∃ n, (order n).isOver = true ∧ s.Concludes r e (order n)) ∧
      ∃ n t, t.isOver = true ∧ s.Concludes r e t ∧
        ∀ steps, n ≤ steps → (RunScene.play r).run steps [] s = .complete t) ∧
    ∀ (request : Request) (now : Instant) (window : Option Span)
      (plan : List PlannedAssumption) (s : CacheSession),
      (CacheSession.start request now window plan).Reaches s →
      ∀ (handles : List Handle) (deadline : Option Nat),
      (∀ k given c, (Batch.start s.scene handles deadline).Goes k given c →
        k ≤ (Batch.start s.scene handles deadline).steps ∧
        (c.isOver = false → ∃ d, Batch.play.Step c d) ∧
        (c.isOver = true → ∀ i ∈ (Batch.start s.scene handles deadline).members,
          ∃ fate, c.scene.fate? i = some fate ∧
            (fate = .dropped → i ∈ given ∨ deadline.isSome = true))) ∧
      (Batch.play.run (Batch.start s.scene handles deadline).steps []
          (Batch.start s.scene handles deadline) =
        .complete (Batch.start s.scene handles deadline).run) := by
  refine ⟨fun r f l e signals caller s hr hfinite hs => ?_,
    fun request now window plan s hs handles deadline =>
    ⟨fun k given c hgoes => ?_, ?_⟩⟩
  · obtain ⟨within, hw, hbounded⟩ := RunScene.exists_reckons hfinite hs
    have hstart : RunScene.Standing r f l within s := hs.standing hbounded
    have hsinks := RunScene.standing_sinks hr hw
    refine ⟨fun t ht => ?_, ?_⟩
    · have hstanding := hstart.reaches hr.toRests hw ht
      refine ⟨hstanding.goesOn hr, fun order horder hfirst => ?_⟩
      obtain ⟨n, hover, -, hreach⟩ :=
        hsinks.exists_isOver horder (hfirst ▸ hstanding)
      exact ⟨n, hover, RunScene.concludes hs (ht.trans (hfirst ▸ hreach)) hover⟩
    · obtain ⟨n, t, hover, -, hreach, hrun⟩ := hsinks.run_complete hstart []
      exact ⟨n, t, hover, RunScene.concludes hs hreach hover, hrun⟩
  · have hmanned := Batch.manned_start hs.idle handles deadline
    have hlength := hgoes.length_le
    have hleft := Batch.left_start_le s.scene handles deadline
    exact ⟨by omega, hgoes.goesOn hmanned,
      fun hover i hi => hgoes.ended hover hi⟩
  · exact Batch.run_eq_complete hs.idle handles deadline

/-- Two pages of one item each, whose lookups take a while: the first one is
long, and the second one crashes. -/
def slowItems : Listing :=
  { pages :=
      [(none, { content := ⟨["a"], some "next"⟩, delay := 1 }),
        (some "next", { content := ⟨["b"], none⟩ })]
    lookups := [("a", { delay := 9 }), ("b", { delay := 1, crashes := true })] }

/-- One lookup at a time. -/
def oneByOne : Enumerator where
  concurrency := 1
  concurrency_pos := Nat.one_pos

/-- Their enumeration with one permit. -/
def slowScene : RunScene Diary Listing.Fetch Listing.Lookup :=
  .start oneByOne {} false none none

/-- A rehearsal of it. -/
def slowRun (steps : Nat) :
    Ending (RunScene Diary Listing.Fetch Listing.Lookup) :=
  (RunScene.play slowItems.remote).run steps [] slowScene

/-- A cache whose first assumption takes a while. -/
def slowSession : CacheSession :=
  .start Cache.plainRequest .epoch none [{ delay := 5 }]

/-- One of two retrievals has begun to assume the role when its caller leaves,
while the other one waits for the guard. -/
def leftBatch : Batch :=
  ((((Batch.start slowSession.scene [{}, {}] none).goOn 0).goOn 1).goOn 0)
    |>.leave 0

theorem no_deadlock_slow :
    (∃ n t, t.isOver = true ∧ slowScene.Concludes slowItems.remote oneByOne t ∧
        (∀ steps, n ≤ steps → slowRun steps = .complete t) ∧
        t.run.driver = .returned (.error .workerPanicked)) ∧
      (leftBatch.scene.fate? 0 = some .dropped ∧
        leftBatch.scene.fate? 1 = none) ∧
        ∃ d, Batch.play.Step leftBatch d := by
  obtain ⟨henumerations, hbatches⟩ := no_deadlock
  have hfinite : slowItems.remote.Finite oneByOne := by
    refine .inr ⟨_, Listing.leads (n := 1) fun p page next hp hvalue hnext =>
      ?_⟩
    obtain rfl : { content := ⟨["a"], some "next"⟩, delay := 1 } = p :=
      Option.some.inj hp
    obtain rfl : ⟨["a"], some "next"⟩ = page := Outcome.value.inj hvalue
    obtain rfl : "next" = next := Option.some.inj hnext
    intro p page next hp hvalue hnext
    obtain rfl : { content := ⟨["b"], none⟩ } = p := Option.some.inj hp
    obtain rfl : ⟨["b"], none⟩ = page := Outcome.value.inj hvalue
    cases hnext
  have hends := slowItems.ends fun x => by
    unfold Listing.lookup slowItems
    simp only [List.lookup_cons, List.lookup_nil]
    split <;> [rfl; split <;> rfl]
  obtain ⟨signals, caller, hopens⟩ :
    ∃ signals caller, slowScene.Opens _ signals caller :=
    RunScene.opens_start _ _ _ _ _
  have hgoes : (Batch.start slowSession.scene [{}, {}] none).Goes 3 [0]
      leftBatch := by
    have hstep (b : Batch) (i : Nat) (hi : i ∈ b.members)
        (hready : b.scene.ready b.moment.unit i = true) :
        Batch.play.Step b (b.goOn i) := by
      have hmem : Batch.Task.retrieval i ∈ Batch.play.tasks b := by
        simp [Batch.play, hi]
      exact .task hmem hready
    exact .leave (.step (.step (.step .refl (hstep _ 0 (by decide) rfl))
      (hstep _ 1 (by decide) rfl)) (hstep _ 0 (by decide) rfl)) 0
  refine ⟨?_, ⟨rfl, rfl⟩, ?_⟩
  · obtain ⟨n, t, hover, hconcludes, hrun⟩ :=
      (henumerations slowItems.remote _ _ _ signals caller slowScene hends
        hfinite hopens).2
    refine ⟨n, t, hover, hconcludes, hrun, ?_⟩
    -- forty steps are enough, and a rehearsal of more ends in the same scene
    have hforty : slowRun 40 = .complete (slowRun 40).state :=
      Play.run_eq_complete rfl
    have hsame := (hrun (max n 40) (Nat.le_max_left _ _)).symm.trans
      (Play.run_complete_of_le hforty (Nat.le_max_right _ _))
    rw [Ending.complete.inj hsame]
    rfl
  obtain ⟨hsteps, -⟩ :=
    hbatches Cache.plainRequest .epoch none [{ delay := 5 }] slowSession .refl
    [{}, {}] none
  exact (hsteps 3 [0] leftBatch hgoes).2.1 rfl

end CloudAccess
