import CloudAccess.Proofs.Enumeration.FirstError
import CloudAccess.Proofs.Enumeration.Tasks

/-!
# A cancelled run halts, and returns when all is quiet

A run that is cancelled asks for no further page and submits no further
reference, and it returns only after its last worker has finished.

* `cancels_iff` says what cancels a run: a failure that the driver or a worker
  observes, or a cancellation of its handle or of one above it.
* `Halts` compares a run that takes no more workers with what becomes of it:
  the fetches, the pages and the workers stay those that there were.
* `reaches_withFetches` says the same of the fetch under way.  From a cancelled
  scene the steps lead to the same scenes whatever a fetch would begin with and
  do in its turn, since no fetch gets a turn any more.
* `Reaches.returned` says that nothing follows once a run has returned.
-/

namespace CloudAccess

namespace Run

variable {r t u : Run} {a : Action}

/-! ## What cancels a run -/

/-- Cancelling a handle cancels a run whose own handle it is, or from which
that one descends. -/
theorem isCancelled_cancel_iff (r : Run) (g : Cancellation) :
    (r.cancel g).isCancelled = true ↔
      r.isCancelled = true ∨ g.own = r.handle.own ∨
      g.own ∈ r.handle.ancestors := by
  unfold isCancelled
  rw [Cancellation.isCancelled_iff, Cancellation.isCancelled_iff]
  simp only [Run.cancel, Signals.mem_raised_cancel]
  constructor
  · rintro ((hown | hraised) | ⟨n, hn, rfl | hraised⟩)
    · exact .inr (.inl hown.symm)
    · exact .inl (.inl hraised)
    · exact .inr (.inr hn)
    · exact .inl (.inr ⟨n, hn, hraised⟩)
  · rintro ((hraised | ⟨n, hn, hraised⟩) | hown | hin)
    · exact .inl (.inr hraised)
    · exact .inr ⟨n, hn, .inr hraised⟩
    · exact .inl (.inl hown.symm)
    · exact .inr ⟨g.own, hin, .inl rfl⟩

/-- A run is cancelled by the failures that are observed in it, and by a
cancellation of its handle or of one from which that descends. -/
theorem cancels_iff (hcounted : r.Counted) :
    (r.act a).isCancelled = true ↔
      r.isCancelled = true ∨ (∃ err, r.Observes a err) ∨
        ∃ g, a = .cancel g ∧ (g.own = r.handle.own ∨
          g.own ∈ r.handle.ancestors) := by
  have he := r.effect_act a
  constructor
  · intro hc
    by_cases hobserved : ∃ err, r.Observes a err
    · exact .inr (.inl hobserved)
    · have hno : ∀ err, ¬r.Observes a err := fun err h => hobserved ⟨err, h⟩
      rcases (he.unobserved hcounted hno).2 with hsame | ⟨g, rfl, _⟩
      · refine .inl ?_
        unfold isCancelled at hc ⊢
        rw [← he.fixed.2.2, ← hsame]
        exact hc
      · rcases (isCancelled_cancel_iff r g).1 hc with hbefore | habove
        · exact .inl hbefore
        · exact .inr (.inr ⟨g, rfl, habove⟩)
  · rintro (hbefore | ⟨err, hobserved⟩ | ⟨g, rfl, habove⟩)
    · exact he.isCancelled hbefore
    · exact (hobserved.act hcounted).1
    · exact (isCancelled_cancel_iff r g).2 (.inr habove)

/-! ## What a cancelled run does no more -/

/-- Whether a run takes no more workers: it is cancelled, or its driver is
gone. -/
def IsClosed (r : Run) : Prop := r.isCancelled = true ∨ r.driver.isGone = true

/-- What has become of a run without any further fetch, page or worker. -/
structure Halts (r t : Run) : Prop where
  asked : t.asked = r.asked
  received : t.received = r.received
  references : t.workers.map (·.reference) = r.workers.map (·.reference)

theorem Effect.isClosed (he : r.Effect a t) (h : r.IsClosed) : t.IsClosed :=
  h.imp he.isCancelled he.isGone

theorem not_isClosed (hc : r.isCancelled = false)
    (hg : r.driver.isGone = false) : ¬r.IsClosed := by
  rintro (hcancelled | hgone)
  · rw [hc] at hcancelled
    cases hcancelled
  · rw [hg] at hgone
    cases hgone

/-- A closed run takes no worker. -/
theorem Effect.references (he : r.Effect a t) (h : r.IsClosed) :
    t.workers.map (·.reference) = r.workers.map (·.reference) := by
  have hlength : t.workers.length = r.workers.length := by
    rcases he.hires with hsame | ⟨hc, hg, -⟩
    · exact hsame
    · have hthere : r.driver.isGone = false := by
        cases hgone : r.driver.isGone with
        | false => rfl
        | true => rw [he.isGone hgone] at hg; cases hg
      exact absurd h (not_isClosed hc hthere)
  refine List.ext_getElem? fun i => ?_
  rw [List.getElem?_map, List.getElem?_map]
  cases hw : r.workers[i]? with
  | none =>
    have hout : t.workers.length ≤ i := by
      rw [hlength]
      exact List.getElem?_eq_none_iff.1 hw
    rw [List.getElem?_eq_none_iff.2 hout]
  | some w =>
    obtain ⟨w', hw', hturn⟩ := he.turn hw
    rw [hw']
    simp [hturn.reference]

/-- A closed run begins no fetch and takes no page and no worker. -/
theorem Effect.halts (he : r.Effect a t) (h : r.IsClosed) : r.Halts t where
  asked := by
    by_contra hne
    obtain ⟨cursor, hd, hc, -⟩ := he.asks hne
    exact not_isClosed hc (by rw [hd]; rfl) h
  received := by
    cases he with
    | fetched hd hc => exact absurd h (not_isClosed hc (by rw [hd]; rfl))
    | _ =>
      simp [fail_eq, leave_eq, release_eq, ungrant_eq, Run.finish,
        setStage, spawn, Run.conclude, emit, Run.cancel]
  references := he.references h

/-- Wherever actions lead from a closed run, it has halted. -/
theorem Reaches.halts (h : r.Reaches t) (hclosed : r.IsClosed) : r.Halts t := by
  have hkept : t.IsClosed ∧ r.Halts t := by
    refine h.keeps (I := fun u => u.IsClosed ∧ r.Halts u) ⟨hclosed, rfl,
      rfl, rfl⟩ ?_
    intro u v a hu he
    obtain ⟨huclosed, hu⟩ := hu
    have hv := he.halts huclosed
    refine ⟨he.isClosed huclosed, ?_, ?_, ?_⟩
    · rw [hv.asked, hu.asked]
    · rw [hv.received, hu.received]
    · rw [hv.references, hu.references]
  exact hkept.2

theorem Reaches.isCancelled (h : r.Reaches t) (hc : r.isCancelled = true) :
    t.isCancelled = true :=
  h.keeps (I := fun u => u.isCancelled = true) hc fun _ _ _ hu he =>
    he.isCancelled hu

/-- A worker whose lookup has failed or crashed closes the run before it gives
its permit back. -/
theorem closes_of_failure {i : Nat} {x : String} {o : Outcome EnrichedItem}
    {w : Worker} (hw : r.workers[i]? = some ⟨x, .reported o⟩)
    (ho : ∀ item, o ≠ .value item) (hw' : (r.act a).workers[i]? = some w)
    (hback : w.holdsPermit = false) :
    (r.act a).isCancelled = true ∨ r.driver.isGone = true := by
  obtain ⟨v, hv, hturn⟩ := (r.effect_act a).turn hw
  obtain rfl := Option.some.inj (hw'.symm.trans hv)
  cases hg : r.driver.isGone with
  | true => exact .inr rfl
  | false => exact .inl (hturn.cancels hg rfl ho hback)

/-- Nothing follows once a run has returned, and none of its workers is
left. -/
theorem Reaches.returned {e : Enumerator} {signals : Signals}
    {caller : Cancellation} {result : Except EnumerationError ResultSet}
    (h : (start e signals caller).Reaches r) (hd : r.driver = .returned result)
    (ht : r.Reaches t) :
    t.driver = .returned result ∧ ∀ w ∈ t.workers, w.stage = .finished := by
  refine ht.keeps
    (I := fun u => u.driver = .returned result ∧
      ∀ w ∈ u.workers, w.stage = .finished)
    ⟨hd, (h.settled result hd).quiet⟩ ?_
  intro u v a hu he
  obtain ⟨hdriver, hquiet⟩ := hu
  have hover : u.driver.isOver = true := by
    rw [hdriver]
    rfl
  obtain ⟨hworkers, hsame, -⟩ := he.still hover hquiet
  exact ⟨hsame.trans hdriver, hworkers ▸ hquiet⟩

/-- A cancelled driver does not wait for a fetch after its move. -/
theorem driver_ne_fetching (hc : r.isCancelled = true)
    (cursor : Option String) : (r.act .drive).driver ≠ .fetching cursor := by
  intro hd
  have he := r.effect_act .drive
  generalize r.act .drive = t at he hd
  cases he with
  | idle hidle => exact hidle (by simp [Enabled, driverReady, hd, hc])
  | ask _ _ hcalm =>
    rw [hc] at hcalm
    cases hcalm
  | _ => simp [leave_eq, spawn, Run.conclude, emit] at hd

end Run

/-! ## The fetch of a cancelled run -/

/-- The same remote, except for what a fetch begins with and does in its
turn. -/
def Remote.withFetches {ω φ κ : Type} (r : Remote ω φ κ)
    (fetch : Nat → Option String → φ)
    (turn : ω → Situation → φ → ω × Turn φ (Outcome Page)) : Remote ω φ κ :=
  { r with fetch := fetch, fetching := { r.fetching with turn := turn } }

namespace RunScene

variable {ω φ κ : Type} {s t : RunScene ω φ κ} {r : Remote ω φ κ}
  {fetch : Nat → Option String → φ}
  {turn : ω → Situation → φ → ω × Turn φ (Outcome Page)}

/-- The driver of a cancelled run begins no fetch and lets none go on. -/
theorem driverStep_withFetches (h : s.Attended)
    (hc : s.run.isCancelled = true) :
    s.driverStep (r.withFetches fetch turn) = s.driverStep r := by
  unfold driverStep
  cases hready : s.run.driverReady with
  | true =>
    simp only [if_true]
    unfold RunScene.drive
    dsimp only
    split
    · rename_i cursor hd
      exact absurd hd (Run.driver_ne_fetching hc cursor)
    · rfl
  | false =>
    cases hfetch : s.fetch with
    | none => rfl
    | some task =>
      obtain ⟨cursor, hd⟩ := h.fetch_iff.1 (by simp [hfetch])
      simp [Run.driverReady, hd, hc] at hready

/-- In a cancelled scene no step depends on what fetches begin with and do. -/
theorem step_withFetches (h : s.Attended) (hc : s.run.isCancelled = true)
    (task : RunTask) :
    s.step (r.withFetches fetch turn) task = s.step r task := by
  cases task with
  | driver => exact driverStep_withFetches h hc
  | giveUp | cancel | worker | lookup => rfl

/-- From a cancelled scene the same steps can be taken whatever fetches begin
with and do. -/
theorem reaches_withFetches (h : s.Attended) (hc : s.run.isCancelled = true)
    (hreach : (play r).Reaches s t) :
    (play (r.withFetches fetch turn)).Reaches s t := by
  induction hreach with
  | refl => exact .refl
  | @step u v hu hstep ih =>
    refine ih.step ?_
    have hattended := reaches_attended hu h
    have hcancelled := (reaches_run hu).isCancelled hc
    cases hstep with
    | @task task mem ready =>
      have hsame : u.step (r.withFetches fetch turn) task = u.step r task :=
        step_withFetches hattended hcancelled task
      show (play (r.withFetches fetch turn)).Step u (u.step r task)
      rw [← hsame]
      exact .task mem ready
    | time waits due => exact .time waits due

/-- A scene whose workers have finished has no lookup under way. -/
theorem Attended.lookups_eq_nil (h : s.Attended)
    (hq : ∀ w ∈ s.run.workers, w.stage = .finished) : s.lookups = [] := by
  refine List.eq_nil_iff_forall_not_mem.2 fun p hp => ?_
  obtain ⟨w, hw, hlooks⟩ := h.watches.looking p hp
  have hfinished := hq w (List.mem_of_getElem? hw)
  simp [Worker.isLooking, hfinished] at hlooks

/-- A scene whose driver has come to its end has no fetch under way. -/
theorem Attended.fetch_eq_none (h : s.Attended)
    (hd : s.run.driver.isOver = true) : s.fetch = none := by
  cases hfetch : s.fetch with
  | none => rfl
  | some task =>
    obtain ⟨cursor, hat⟩ := h.fetch_iff.1 (by simp [hfetch])
    rw [hat] at hd
    cases hd

end RunScene

/-! ## Fail fast, and wait for the workers -/

namespace Run

/-- A run is cancelled by the failures that its driver and its workers observe,
and by its caller or one above the caller.  From then on it stays cancelled,
asks for no page, and submits no reference to a worker; in a scene no fetch
takes a turn any more.  A worker whose lookup has failed or crashed gives its
permit back only to a run that takes no more workers.  Once a run has returned,
whatever it has returned, nothing of it is left: no worker, no lookup and no
fetch. -/
theorem fail_fast (e : Enumerator) (signals : Signals) (caller : Cancellation) :
    (∀ r, (start e signals caller).Reaches r →
      (∀ a, (r.act a).isCancelled = true ↔
        r.isCancelled = true ∨ (∃ err, r.Observes a err) ∨
          ∃ g, a = .cancel g ∧
            (g.own = signals.count ∨ g.own = caller.own ∨
              g.own ∈ caller.ancestors)) ∧
      (r.isCancelled = true → ∀ t, r.Reaches t →
        t.isCancelled = true ∧ r.Halts t) ∧
      (∀ (a : Action) (i : Nat) (x : String)
        (o : Outcome EnrichedItem) (w : Worker),
        r.workers[i]? = some ⟨x, .reported o⟩ → (∀ item, o ≠ .value item) →
        (r.act a).workers[i]? = some w → w.holdsPermit = false →
          ((r.act a).isCancelled = true ∨ r.driver.isGone = true) ∧
            ∀ t, (r.act a).Reaches t → (r.act a).Halts t) ∧
      ∀ result, r.driver = .returned result → ∀ t, r.Reaches t →
        t.driver = .returned result ∧ ∀ w ∈ t.workers, w.stage = .finished) ∧
    ∀ (ω φ κ : Type) (remote : Remote ω φ κ) (s t : RunScene ω φ κ),
      s.Opens e signals caller → (RunScene.play remote).Reaches s t →
        (t.run.isCancelled = true → ∀ fetch turn u,
          (RunScene.play remote).Reaches t u ↔
            (RunScene.play (remote.withFetches fetch turn)).Reaches t u) ∧
        ∀ result, t.run.driver = .returned result →
          t.fetch = none ∧ t.lookups = [] := by
  refine ⟨fun r h => ⟨fun a => ?_, fun hc t ht => ?_, ?_, ?_⟩,
    fun ω φ κ remote s t hs ht =>
    ⟨fun hc fetch turn u => ?_, fun result hd => ?_⟩⟩
  · have hhandle : r.handle = ⟨signals.count,
        caller.own :: caller.ancestors⟩ := by
      refine h.keeps
        (I := fun r => r.handle =
          ⟨signals.count, caller.own :: caller.ancestors⟩) ?_ ?_
      · rw [start_eq]
      · intro u v a hu he
        exact he.fixed.2.2.trans hu
    rw [cancels_iff h.counted, hhandle]
    simp only [List.mem_cons]
  · exact ⟨ht.isCancelled hc, ht.halts (.inl hc)⟩
  · intro a i x o w hw ho hw' hback
    have hcloses := closes_of_failure hw ho hw' hback
    refine ⟨hcloses, fun t ht => ht.halts ?_⟩
    exact hcloses.imp id (r.effect_act a).isGone
  · intro result hd t ht
    exact h.returned hd ht
  · have hattended := RunScene.reaches_attended ht hs.attended
    refine ⟨RunScene.reaches_withFetches hattended hc, fun hu => ?_⟩
    have hback : (RunScene.play
        ((remote.withFetches fetch turn).withFetches remote.fetch
        remote.fetching.turn)).Reaches t u :=
      RunScene.reaches_withFetches hattended hc hu
    exact hback
  · have hattended := RunScene.reaches_attended ht hs.attended
    have hrun : (start e signals caller).Reaches t.run :=
      hs.run_eq ▸ RunScene.reaches_run ht
    have hover : t.run.driver.isOver = true := by
      rw [hd]
      rfl
    exact ⟨hattended.fetch_eq_none hover,
      hattended.lookups_eq_nil (hrun.settled result hd).quiet⟩

/-- One permit, and two items on a page: the lookup of the first item has
failed while the driver waits to submit the second one. -/
def failing : Run :=
  (start { concurrency := 1, concurrency_pos := Nat.one_pos } { count := 1 }
    ⟨0, []⟩).after
    [.drive, .answer (.value ⟨["a", "b"], none⟩), .drive, .drive, .work 0,
      .report 0 (.failed ⟨"denied", []⟩)]

/-- A scene over a listing of two items whose caller has cancelled. -/
def cancelledScene : RunScene Diary Listing.Fetch Listing.Lookup :=
  .start { concurrency := 1, concurrency_pos := Nat.one_pos } {} false
    (some 0) none

/-- What becomes of that scene. -/
def endedScene : RunScene Diary Listing.Fetch Listing.Lookup :=
  ((RunScene.play twoItems.remote).run 8 [] cancelledScene).state

theorem fail_fast_failing :
    ((failing.act (.work 0)).granted = true ∧
      (failing.act (.work 0)).isCancelled = true ∧
        (failing.act (.work 0)).Halts
          (failing.after [.work 0, .drive, .drive])) ∧
      ((failing.after [.work 0, .drive, .drive]).driver =
          .returned (.error (.enrichment "a" ⟨"denied", []⟩)) ∧
        ∀ w ∈ (failing.after [.work 0, .drive, .drive]).workers, w.stage =
          .finished) ∧
      ∀ fetch turn,
        (RunScene.play (twoItems.remote.withFetches fetch turn)).Reaches
          cancelledScene
            endedScene ∧
          endedScene.fetch = none ∧ endedScene.lookups = [] := by
  obtain ⟨hruns, -⟩ := fail_fast { concurrency := 1 } { count := 1 } ⟨0, []⟩
  obtain ⟨-, hscenes⟩ :=
    fail_fast { concurrency := 1 } { count := 1, raised := [0] } ⟨0, []⟩
  have hreach : (start { concurrency := 1 } { count := 1 } ⟨0, []⟩).Reaches
      failing :=
    reaches_after _ _
  obtain ⟨-, -, hfailure, -⟩ := hruns failing hreach
  obtain ⟨hcloses, hhalts⟩ :=
    hfailure (.work 0) 0 "a" (.failed ⟨"denied", []⟩) _ rfl (by simp) rfl rfl
  have hon : (failing.act (.work 0)).Reaches
      (failing.after [.work 0, .drive, .drive]) :=
    reaches_after _ [.drive, .drive]
  obtain ⟨-, -, -, hreturned⟩ :=
    hruns _ (hreach.trans (reaches_after failing _))
  refine ⟨⟨rfl, hcloses.resolve_right (by decide), hhalts _ hon⟩,
    ⟨rfl, (hreturned _ rfl _ .refl).2⟩, fun fetch turn => ⟨?_, ?_⟩⟩
  · have hplayed : (RunScene.play twoItems.remote).Reaches cancelledScene
        endedScene :=
      Play.reaches_run _ _ _ _
    have hcancelled :=
      (hscenes _ _ _ twoItems.remote cancelledScene cancelledScene
      ⟨rfl, rfl, rfl⟩ .refl).1 rfl
    exact (hcancelled fetch turn endedScene).1 hplayed
  · exact (hscenes _ _ _ twoItems.remote cancelledScene endedScene
      ⟨rfl, rfl, rfl⟩ (Play.reaches_run _ _ _ _)).2 (.error .cancelled) rfl

end Run

end CloudAccess
