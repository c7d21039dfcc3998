import CloudAccess.Proofs.Enumeration.Exact
import CloudAccess.Proofs.Enumeration.FirstError

/-!
# What a run was told

How the fetches and the lookups of a run end may depend on when they do: a
lookup can end otherwise because it has seen that the run is cancelled.  Then
there is no enumeration beforehand of which the run is a way.  But each page is
answered once and each reference is reported on once, so there is one
afterwards.

* `Assigned` says that no two workers have the same reference.
* `Heard` is what a run was told so far, and `Enumeration.overlay` is an
  enumeration in which the pages and lookups end as was told, and the others
  anyhow.
* `Tale` says that a run is a way of each such enumeration.  `Tale.move`,
  `Tale.answer` and `Tale.report` say that it stays so.
* `Tale.firstError` says that an error that such a run returns is its first one,
  and no cancellation.
* `HeadsFor` says what holds of the next page that the driver will ask for.
-/

namespace CloudAccess

/-- Whether the lookup of a worker is yet to end, unless it is stopped. -/
def Worker.isPending (w : Worker) : Bool :=
  match w.stage with
  | .spawned | .looking => true
  | _ => false

namespace Run

variable {r t : Run} {a : Action} {i : Nat} {w w' : Worker}

/-- Whether an action is a move of the driver, of a worker, or of a lookup that
was stopped. -/
def Action.isMove : Action → Bool
  | .drive | .work _ | .unwind _ => true
  | _ => false

/-! ## One worker for each reference -/

theorem map_reference_setStage (r : Run) (i : Nat) (stage : Worker.Stage) :
    (r.setStage i stage).workers.map (·.reference) =
      r.workers.map (·.reference) := by
  refine List.ext_getElem? fun j => ?_
  rw [List.getElem?_map, List.getElem?_map, getElem?_setStage]
  split
  · cases r.workers[j]? <;> rfl
  · rfl

/-- Every reference submitted has at most one worker, or waits for a permit. -/
structure Assigned (r : Run) : Prop where
  distinct : (r.workers.map (·.reference) ++ r.awaited).Nodup
  submitted : ∀ x ∈ r.workers.map (·.reference) ++ r.awaited, x ∈ r.submitted

/-- The driver moves on, and may forget the reference that waits. -/
theorem Assigned.mono (h : r.Assigned)
    (hw : t.workers.map (·.reference) = r.workers.map (·.reference))
    (ha : t.awaited = r.awaited ∨ t.awaited = [])
    (hs : ∀ x ∈ r.submitted, x ∈ t.submitted) : t.Assigned := by
  have hsub : (t.workers.map (·.reference) ++ t.awaited).Sublist
      (r.workers.map (·.reference) ++ r.awaited) := by
    rw [hw]
    refine List.Sublist.append (List.Sublist.refl _) ?_
    rcases ha with ha | ha <;> rw [ha]
    exact List.nil_sublist _
  exact ⟨h.distinct.sublist hsub, fun x hx =>
    hs x (h.submitted x (hsub.subset hx))⟩

/-- A new reference gets a worker, or waits. -/
theorem Assigned.submit {x : String} (h : r.Assigned) (hnone : r.awaited = [])
    (hx : x ∉ r.submitted)
    (ht : t.workers.map (·.reference) ++ t.awaited =
      r.workers.map (·.reference) ++ [x])
    (hs : t.submitted = r.submitted ++ [x]) : t.Assigned := by
  have hdistinct := h.distinct
  have hsubmitted := h.submitted
  rw [hnone, List.append_nil] at hdistinct hsubmitted
  refine ⟨?_, fun y hy => ?_⟩
  · rw [ht, List.nodup_append]
    refine ⟨hdistinct, List.nodup_singleton x, fun y hy z hz heq => ?_⟩
    rw [List.mem_singleton.1 hz] at heq
    exact hx (heq ▸ hsubmitted y hy)
  · rw [ht] at hy
    rw [hs]
    rcases List.mem_append.1 hy with hy | hy
    · exact List.mem_append_left _ (hsubmitted y hy)
    · exact List.mem_append_right _ hy

/-- A driver that ends paging forgets the reference that waits. -/
theorem Assigned.leave (h : r.Assigned)
    (hw : t.workers.map (·.reference) = r.workers.map (·.reference))
    (hs : ∀ x ∈ r.submitted, x ∈ t.submitted) : t.leave.Assigned :=
  h.mono (by rw [leave_eq, hw]) (.inr (by rw [leave_eq]; rfl))
    (by rw [leave_eq]; exact hs)

theorem Effect.assigned (he : r.Effect a t) (h : r.Assigned) : t.Assigned := by
  cases hdrivers : a.isDrivers with
  | false =>
    obtain ⟨hd, _, hs, _⟩ := he.paging hdrivers
    refine h.mono ?_ (.inl (by simp only [Run.awaited, hd])) fun x hx => hs ▸ hx
    rcases he.moved hdrivers with hw | ⟨i, w, stage, _, hw, _⟩ <;> rw [hw]
    exact map_reference_setStage _ _ _
  | true =>
    cases he with
    | idle => exact h
    | ask | next | pass | conclude | fetchCrashed | fetched =>
      exact h.mono rfl (.inr rfl) fun _ hx => hx
    | exceed | fetchFailed =>
      exact h.leave (by rw [fail_eq]) (by rw [fail_eq]; exact fun _ hx => hx)
    | quit | complete => exact h.leave rfl fun _ hx => hx
    | refuse => exact h.leave rfl fun _ hx => List.mem_append_left _ hx
    | employ hd hx =>
      exact h.submit (by simp [Run.awaited, hd]) hx
        (by simp [spawn, Run.awaited]) rfl
    | queue hd hx => exact h.submit (by simp [Run.awaited, hd]) hx rfl rfl
    | @grant x items next hd =>
      have hone : r.awaited = [x] := by simp [Run.awaited, hd]
      have hsame : (r.spawn x items next).workers.map (·.reference) ++ [] =
          r.workers.map (·.reference) ++ r.awaited := by simp [spawn, hone]
      exact ⟨hsame ▸ h.distinct, hsame ▸ h.submitted⟩
    | drop =>
      rw [ungrant_eq]
      exact h.mono rfl (.inr rfl) fun _ hx => hx
    | _ => cases hdrivers

/-- A lookup that has ended does not begin again. -/
theorem Turn.isPending (h : r.Turn a t i w w') (hw : w.isPending = false) :
    w'.isPending = false := by
  cases h <;> simp_all [Worker.isPending]

/-! ## What the driver heads for -/

/-- `P` holds of the next page that the driver will ask for: its cursor, and the
number of fetches before it. -/
def HeadsFor (P : Option String → Nat → Prop) (r : Run) : Prop :=
  match r.driver with
  | .turning cursor | .fetching cursor => P cursor r.pages
  | .submitting _ next | .queueing _ _ next =>
    next.isSome = true → P next r.pages
  | _ => True

variable {P : Option String → Nat → Prop}

/-- Only a page that is received changes what the driver heads for. -/
theorem Effect.headsFor (he : r.Effect a t) (h : r.HeadsFor P)
    (hpage : ∀ cursor p, a = .answer (.value p) → r.driver = .fetching cursor →
      p.nextCursor.isSome = true → P p.nextCursor (r.pages + 1)) :
    t.HeadsFor P := by
  cases hdrivers : a.isDrivers with
  | false =>
    obtain ⟨hd, _, _, hpages, _⟩ := he.paging hdrivers
    simpa only [HeadsFor, hd, hpages] using h
  | true =>
    cases he with
    | idle => exact h
    | ask hd | pass hd | queue hd =>
      simpa only [HeadsFor, hd] using h
    | employ hd | grant hd => simpa only [HeadsFor, hd, spawn] using h
    | next hd =>
      simp only [HeadsFor, hd] at h
      exact h rfl
    | fetched hd => exact hpage _ _ rfl hd
    | exceed | quit | complete | refuse | fetchFailed =>
      rw [leave_eq]
      trivial
    | conclude | fetchCrashed | drop => trivial
    | _ => cases hdrivers

/-- Only an answer ends a fetch. -/
theorem Effect.pages (he : r.Effect a t) (ha : ∀ o, a ≠ .answer o) :
    t.pages = r.pages := by
  cases he with
  | fetchCrashed | fetchFailed | fetched => exact absurd rfl (ha _)
  | _ =>
    simp [fail_eq, leave_eq, release_eq, ungrant_eq, Run.finish,
      setStage, spawn, Run.conclude, emit, Run.cancel]

end Run

/-! ## What a run was told -/

/-- What a run was told so far: the answers to its fetches in their order, and
the reports on its references. -/
structure Heard where
  answers : Nat → Option (Outcome Page) := fun _ => none
  reports : String → Option (Outcome EnrichedItem) := fun _ => none

namespace Heard

/-- A fetch is answered. -/
def answer (heard : Heard) (k : Nat) (o : Outcome Page) : Heard :=
  { heard with answers := Function.update heard.answers k (some o) }

/-- A reference is reported on. -/
def report (heard : Heard) (x : String) (o : Outcome EnrichedItem) : Heard :=
  { heard with reports := Function.update heard.reports x (some o) }

end Heard

namespace Enumeration

variable {n : Enumeration} {heard : Heard} {r : Run} {a : Run.Action} {i : Nat}
  {x : String}

/-- An enumeration in which everything ends as was told; what was not told ends
as given. -/
def overlay (n : Enumeration) (heard : Heard) (answers : Nat → Outcome Page)
    (lookup : String → Outcome EnrichedItem) : Enumeration :=
  { n with
    answers k := (heard.answers k).getD (answers k)
    lookup x := (heard.reports x).getD (lookup x) }

theorem overlay_answer {k : Nat} (hnone : heard.answers k = none)
    (o : Outcome Page) (answers : Nat → Outcome Page)
    (lookup : String → Outcome EnrichedItem) :
    n.overlay (heard.answer k o) answers lookup =
      n.overlay heard (Function.update answers k o) lookup := by
  have hsame : (fun j => ((heard.answer k o).answers j).getD (answers j)) =
      fun j => (heard.answers j).getD (Function.update answers k o j) := by
    funext j
    rcases eq_or_ne j k with rfl | hne
    · simp [Heard.answer, hnone]
    · simp [Heard.answer, hne]
  simp only [overlay, Heard.answer] at hsame ⊢
  rw [hsame]

theorem overlay_report (hnone : heard.reports x = none)
    (o : Outcome EnrichedItem) (answers : Nat → Outcome Page)
    (lookup : String → Outcome EnrichedItem) :
    n.overlay (heard.report x o) answers lookup =
      n.overlay heard answers (Function.update lookup x o) := by
  have hsame : (fun y => ((heard.report x o).reports y).getD (lookup y)) =
      fun y => (heard.reports y).getD (Function.update lookup x o y) := by
    funext y
    rcases eq_or_ne y x with rfl | hne
    · simp [Heard.report, hnone]
    · simp [Heard.report, hne]
  simp only [overlay, Heard.report] at hsame ⊢
  rw [hsame]

/-- A run over the bounds and for the caller of `n`, and what it was told.
Nobody but the run itself cancels anything. -/
structure Tale (n : Enumeration) (heard : Heard) (r : Run) : Prop where
  way : ∀ answers lookup, ∃ k, (n.overlay heard answers lookup).Way k r
  unanswered : r.driver.isGone = false → ∀ k, r.pages ≤ k →
    heard.answers k = none
  reported : ∀ x, heard.reports x ≠ none →
    ∃ (i : Nat) (w : Worker),
      r.workers[i]? = some w ∧ w.reference = x ∧ w.isPending = false
  assigned : r.Assigned
  calm : ∀ k ∈ r.signals.raised, k ∈ n.signals.raised ∨ k = n.signals.count

theorem tale_start (n : Enumeration) : n.Tale {} n.start where
  way answers lookup := ⟨0, Way.start⟩
  unanswered _ _ _ := rfl
  reported _ h := absurd rfl h
  assigned := by
    have hnone : n.start.workers.map (·.reference) ++ n.start.awaited = [] := by
      rw [start_eq]
      by_cases hfit : n.enumerator.concurrency ≤ Enumerator.maxPermits <;>
        simp [Run.awaited, hfit]
    constructor <;> simp [hnone]
  calm k hk := .inl (by simpa [start_eq] using hk)

/-- What is reported stays so. -/
theorem Tale.reported_act (h : n.Tale heard r) (a : Run.Action) (x : String)
    (hx : heard.reports x ≠ none) :
    ∃ (i : Nat) (w : Worker),
      (r.act a).workers[i]? = some w ∧ w.reference = x ∧
      w.isPending = false := by
  obtain ⟨i, w, hw, href, hdone⟩ := h.reported x hx
  obtain ⟨w', hw', hturn⟩ := (r.effect_act a).turn hw
  exact ⟨i, w', hw', hturn.reference.trans href, hturn.isPending hdone⟩

/-- What the run does by itself raises no signal but its own. -/
theorem Tale.calm_act (h : n.Tale heard r) (ha : ∀ g, a ≠ .cancel g) :
    ∀ k ∈ (r.act a).signals.raised, k ∈ n.signals.raised ∨
      k = n.signals.count := by
  intro k hk
  obtain ⟨j, hway⟩ := h.way (fun _ => .crashed) (fun _ => .crashed)
  rcases (r.effect_act a).signals with ⟨hs, _⟩ | ⟨hs, _⟩ | ⟨g, hg, _⟩
  · exact h.calm k (hs ▸ hk)
  · rw [hs, Signals.mem_raised_cancel, hway.handle] at hk
    exact hk.elim .inr (h.calm k)
  · exact absurd hg (ha g)

/-- The run moves. -/
theorem Tale.move (h : n.Tale heard r) (hmove : a.isMove = true)
    (ha : r.Enabled a) :
    n.Tale heard (r.act a) where
  way answers lookup := by
    obtain ⟨k, hway⟩ := h.way answers lookup
    refine ⟨k + 1, hway.act ⟨ha, ?_⟩⟩
    cases a with
    | drive | work | unwind => trivial
    | answer | report | cancel | drop => cases hmove
  unanswered hg k hk := by
    have he := r.effect_act a
    have hsame : (r.act a).pages = r.pages :=
      he.pages (by rintro o rfl; cases hmove)
    refine h.unanswered ?_ k (hsame ▸ hk)
    refine Bool.eq_false_iff.2 fun hgone => ?_
    rw [he.isGone hgone] at hg
    cases hg
  reported := h.reported_act a
  assigned := (r.effect_act a).assigned h.assigned
  calm := h.calm_act (by rintro g rfl; cases hmove)

/-- A fetch is answered, with whatever. -/
theorem Tale.answer (h : n.Tale heard r) {o : Outcome Page}
    (ha : r.Enabled (.answer o)) :
    n.Tale (heard.answer r.pages o) (r.act (.answer o)) := by
  obtain ⟨⟨cursor, hd⟩, hc⟩ := id ha
  have hnone := h.unanswered (by rw [hd]; rfl) r.pages (Nat.le_refl _)
  refine ⟨fun answers lookup => ?_, fun hg k hk => ?_, h.reported_act _,
    (r.effect_act _).assigned h.assigned, h.calm_act (by simp)⟩
  · rw [overlay_answer hnone]
    obtain ⟨k, hway⟩ := h.way (Function.update answers r.pages o) lookup
    exact ⟨k + 1, hway.act ⟨ha, by simp [Fits, overlay, hnone]⟩⟩
  · -- only a fetch that crashes is answered without being counted
    have hlt : r.pages < k := by
      cases o with
      | crashed => simp [Run.act, Run.answer, hd, hc, Run.Driver.isGone] at hg
      | failed e =>
        exact Nat.lt_of_succ_le
          (by simpa [Run.act, Run.answer, hd, hc, Run.leave_eq,
          Run.fail_eq] using hk)
      | value p =>
        exact Nat.lt_of_succ_le
          (by simpa [Run.act, Run.answer, hd, hc, Run.emit] using hk)
    have hold := h.unanswered (by rw [hd]; rfl) k (Nat.le_of_lt hlt)
    simpa [Heard.answer, Nat.ne_of_gt hlt] using hold

/-- A lookup that is under way was not reported on. -/
theorem Tale.not_reported (h : n.Tale heard r)
    (hw : r.workers[i]? = some ⟨x, .looking⟩) : heard.reports x = none := by
  by_contra hx
  obtain ⟨j, w, hw', href, hdone⟩ := h.reported x hx
  have hdistinct := (List.nodup_append.1 h.assigned.distinct).1
  have hat : (r.workers.map (·.reference))[i]? =
      (r.workers.map (·.reference))[j]? := by
    simp [hw, hw', href]
  have hlt : i < (r.workers.map (·.reference)).length := by
    simpa using (List.getElem?_eq_some_iff.1 hw).1
  obtain rfl := (List.getElem?_inj hlt hdistinct).1 hat
  rw [hw, Option.some_inj] at hw'
  rw [← hw'] at hdone
  cases hdone

/-- A lookup ends, in whatever. -/
theorem Tale.report (h : n.Tale heard r) {o : Outcome EnrichedItem}
    (hw : r.workers[i]? = some ⟨x, .looking⟩) :
    n.Tale (heard.report x o) (r.act (.report i o)) := by
  have hnone := h.not_reported hw
  have hact : r.act (.report i o) = r.setStage i (.reported o) := by
    simp [Run.act, Run.report, hw]
  refine ⟨fun answers lookup => ?_, fun hg k hk => ?_, fun y hy => ?_,
    (r.effect_act _).assigned h.assigned, h.calm_act (by simp)⟩
  · rw [overlay_report hnone]
    obtain ⟨k, hway⟩ := h.way answers (Function.update lookup x o)
    refine ⟨k + 1, hway.act ⟨⟨x, hw⟩, fun w hw' => ?_⟩⟩
    obtain rfl := Option.some.inj (hw.symm.trans hw')
    simp [overlay, hnone]
  · rw [hact] at hg hk
    exact h.unanswered hg k hk
  · rcases eq_or_ne y x with rfl | hne
    · refine ⟨i, ⟨y, .reported o⟩, ?_, rfl, rfl⟩
      rw [hact, Run.getElem?_setStage, if_pos rfl, hw]
      rfl
    · exact h.reported_act _ y (by simpa [Heard.report, hne] using hy)

/-! ## What a run returns -/

/-- A reference of a worker is on a page that was received. -/
theorem Tale.listed (h : n.Tale heard r) {w : Worker} (hw : w ∈ r.workers) :
    ∃ k p, heard.answers k = some (.value p) ∧ w.reference ∈ p.items := by
  obtain ⟨j, hway⟩ := h.way (fun _ => .crashed) (fun _ => .crashed)
  have hx := hway.paged.listed _ (hway.staffed.sent w hw)
  obtain ⟨p, hp, hx⟩ := List.mem_flatMap.1 hx
  obtain ⟨k, hk⟩ := List.mem_iff_getElem?.1 hp
  refine ⟨k, p, ?_, hx⟩
  have htold := hway.paged.yields.answered k p hk
  cases hheard : heard.answers k <;> simp_all [overlay]

/-- The caller of a run that goes on by itself is not cancelled unless it was
before. -/
theorem Tale.caller (h : n.Tale heard r)
    (hc : n.caller.isCancelled n.signals = false) :
    n.caller.isCancelled r.signals = false := by
  refine Bool.eq_false_iff.2 fun hcancelled => ?_
  have hback : ∀ k < n.signals.count, k ∈ r.signals.raised →
      k ∈ n.signals.raised := by
    intro k hk hin
    rcases h.calm k hin with hin | rfl
    · exact hin
    · exact absurd hk (Nat.lt_irrefl _)
  rw [Cancellation.isCancelled_iff] at hcancelled
  have hbefore : n.caller.isCancelled n.signals = true := by
    rw [Cancellation.isCancelled_iff]
    rcases hcancelled with hown | ⟨k, hk, hin⟩
    · exact .inl (hback _ n.issued.1 hown)
    · exact .inr ⟨k, hk, hback k (n.issued.2 k hk) hin⟩
  rw [hc] at hbefore
  cases hbefore

/-- What a run that goes on by itself returns is its first error, if it has one,
and no cancellation. -/
theorem Tale.firstError (h : n.Tale heard r)
    (hc : n.caller.isCancelled n.signals = false) {err : EnumerationError}
    (hd : r.driver = .returned (.error err)) : r.firstError = some err := by
  obtain ⟨k, hway⟩ := h.way (fun _ => .crashed) (fun _ => .crashed)
  obtain ⟨_, hresult⟩ := hway.returned _ hd
  cases hfirst : r.firstError with
  | some first =>
    rw [Run.result, hfirst] at hresult
    injection hresult with hresult
    rw [hresult]
  | none =>
    have hcalm : r.isCancelled = false := by
      refine Bool.eq_false_iff.2 fun hcancelled => ?_
      rcases hway.isCancelled_iff.1 hcancelled with hf | hcaller
      · rw [hfirst] at hf
        cases hf
      · have hnot := h.caller hc
        rw [show n.caller.isCancelled r.signals = true from hcaller] at hnot
        cases hnot
    simp [Run.result, hfirst, hcalm] at hresult

end Enumeration

end CloudAccess
