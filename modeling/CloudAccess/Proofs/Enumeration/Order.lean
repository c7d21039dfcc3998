import CloudAccess.Proofs.Enumeration.Moves
import CloudAccess.Proofs.Enumeration.Paging
import CloudAccess.Proofs.Enumeration.Tales

/-!
# The order of fetches and workers

In which order a run asks for its pages and looks up the references on them.

* `Page.cursors` are the cursors that lead to some pages and past them.
  `Follows` says at each place of the driver how far the fetches have come along
  them.
* `employed` are the references that have got a worker.  `CameTo` says that
  these are the references up to some place in the listing, each one once, and
  `Employs` at which place the driver is.
* `in_listing_order` puts both together, for runs and for the fetches of a
  scene.
-/

namespace CloudAccess

/-! ## First occurrences -/

section FirstOccurrences

variable {α : Type} [BEq α] [LawfulBEq α] {x : α} {xs ys : List α}

theorem eraseDups_concat_of_mem (h : x ∈ xs) :
    (xs ++ [x]).eraseDups = xs.eraseDups := by
  simp [List.eraseDups_append, List.removeAll, h]

theorem eraseDups_concat_of_notMem (h : x ∉ xs) :
    (xs ++ [x]).eraseDups = xs.eraseDups ++ [x] := by
  simp [List.eraseDups_append, List.removeAll, h, List.eraseDups_cons]

theorem eraseDups_prefix (h : xs <+: ys) : xs.eraseDups <+: ys.eraseDups := by
  obtain ⟨rest, rfl⟩ := h
  rw [List.eraseDups_append]
  exact List.prefix_append _ _

theorem nodup_eraseDups (xs : List α) : xs.eraseDups.Nodup := by
  induction xs using List.reverseRecOn with
  | nil => simp
  | append_singleton xs x ih =>
    by_cases hx : x ∈ xs
    · rwa [eraseDups_concat_of_mem hx]
    · rw [eraseDups_concat_of_notMem hx]
      refine List.Nodup.append ih (List.nodup_singleton x) ?_
      simpa [List.mem_eraseDups] using hx

omit [BEq α] [LawfulBEq α] in
theorem mem_tail_concat {y : α} :
    y ∈ (xs ++ [x]).tail ↔ y ∈ xs.tail ∨ xs ≠ [] ∧ y = x := by
  cases xs <;> simp

end FirstOccurrences

/-- The cursors for some pages: none for the first one, and then what each page
says comes after it. -/
def Page.cursors (pages : List Page) : List (Option String) :=
  none :: pages.map (·.nextCursor)

theorem Page.cursors_append (pages : List Page) (p : Page) :
    Page.cursors (pages ++ [p]) = Page.cursors pages ++ [p.nextCursor] := by
  simp [Page.cursors]

namespace Run

variable {r t : Run} {a : Action} {x : String} {passed items : List String}

/-! ## Fetches -/

/-- How far the fetches have come.  A driver that is busy with a page has the
cursor that comes next. -/
def Follows (r : Run) : Prop :=
  match r.driver with
  | .turning next =>
    r.asked ++ [next] = Page.cursors r.received ∧
      none ∉ (r.asked ++ [next]).tail
  | .submitting _ next | .queueing _ _ next =>
    r.asked ++ [next] = Page.cursors r.received ∧ none ∉ r.asked.tail
  | .fetching _ => r.asked = Page.cursors r.received ∧ none ∉ r.asked.tail
  | .draining | .returned _ | .crashed | .dropped =>
    r.asked <+: Page.cursors r.received ∧ none ∉ r.asked.tail

/-- At every place the cursors asked for are the first ones. -/
theorem Follows.asked (h : r.Follows) :
    r.asked <+: Page.cursors r.received ∧ none ∉ r.asked.tail := by
  unfold Follows at h
  split at h
  · exact ⟨h.1 ▸ List.prefix_append _ _, fun hin =>
      h.2 (mem_tail_concat.2 (.inl hin))⟩
  · exact ⟨h.1 ▸ List.prefix_append _ _, h.2⟩
  · exact ⟨h.1 ▸ List.prefix_append _ _, h.2⟩
  · exact ⟨h.1 ▸ List.prefix_rfl, h.2⟩
  all_goals exact h

/-- A driver may end paging anywhere. -/
theorem Follows.leave (h : r.Follows)
    (hd : t.driver = .draining ∨ t.driver.isOver = true)
    (ha : t.asked = r.asked) (hr : t.received = r.received) : t.Follows := by
  have hasked := h.asked
  rw [← ha, ← hr] at hasked
  unfold Follows
  cases hat : t.driver <;> simp_all [Driver.isOver]

theorem Effect.follows (he : r.Effect a t) (h : r.Follows) : t.Follows := by
  cases hdrivers : a.isDrivers with
  | false =>
    obtain ⟨hd, hr, _, _, ha⟩ := he.paging hdrivers
    simpa only [Follows, hd, hr, ha] using h
  | true =>
    have hat := h
    cases he with
    | idle => exact h
    | ask hd =>
      simp only [Follows, hd] at hat
      exact hat
    | next hd =>
      simp only [Follows, hd] at hat
      refine ⟨hat.1, fun hin => ?_⟩
      rcases mem_tail_concat.1 hin with hin | ⟨_, hnone⟩
      · exact hat.2 hin
      · cases hnone
    | pass hd | queue hd | employ hd | grant hd =>
      simp only [Follows, hd] at hat
      exact hat
    | @fetched _ p hd =>
      simp only [Follows, hd] at hat
      exact ⟨by rw [Page.cursors_append, hat.1], hat.2⟩
    | exceed | quit | complete | refuse | fetchFailed =>
      exact h.leave (.inl (by rw [leave_eq])) (by simp [leave_eq, fail_eq])
        (by simp [leave_eq, fail_eq])
    | conclude | fetchCrashed | drop =>
      exact h.leave (.inr rfl) (by simp [Run.conclude, emit, ungrant_eq])
        (by simp [Run.conclude, emit, ungrant_eq])
    | _ => cases hdrivers

/-! ## Workers -/

/-- The references that have got a worker, in the order in which they have. -/
def employed (r : Run) : List String := r.workers.map (·.reference)

/-- Every reference received before the place where `items` are left has got one
worker, and these are all workers. -/
def CameTo (r : Run) (passed items : List String) : Prop :=
  Page.references r.received = passed ++ items ∧ r.employed = passed.eraseDups

/-- The place in the listing at which the driver is.  A run that was cancelled
may have left paging anywhere. -/
def Employs (r : Run) : Prop :=
  match r.driver with
  | .turning _ | .fetching _ =>
    r.CameTo (Page.references r.received) [] ∧ r.submitted = r.employed
  | .submitting items _ =>
    ∃ passed, r.CameTo passed items ∧ r.submitted = r.employed
  | .queueing x items _ =>
    ∃ passed, r.CameTo passed (x :: items) ∧ x ∉ passed ∧
      r.submitted = r.employed ++ [x]
  | .draining =>
    (∃ passed items, r.CameTo passed items) ∧
      (r.isCancelled = false →
        r.employed = (Page.references r.received).eraseDups)
  | .returned (.ok _) => r.CameTo (Page.references r.received) []
  | .returned (.error _) | .crashed | .dropped =>
    ∃ passed items, r.CameTo passed items

/-- A worker is there for each reference up to some place. -/
theorem Employs.cameTo (h : r.Employs) :
    ∃ passed items, r.CameTo passed items := by
  unfold Employs at h
  split at h
  · exact ⟨_, _, h.1⟩
  · exact ⟨_, _, h.1⟩
  · obtain ⟨passed, hcame, _⟩ := h
    exact ⟨passed, _, hcame⟩
  · obtain ⟨passed, hcame, _⟩ := h
    exact ⟨passed, _, hcame⟩
  · exact h.1
  · exact ⟨_, _, h⟩
  all_goals exact h

/-- What comes first among the references received has workers in that order. -/
theorem CameTo.isPrefix (h : r.CameTo passed items) :
    r.employed <+: (Page.references r.received).eraseDups := by
  rw [h.1, h.2]
  exact eraseDups_prefix (List.prefix_append _ _)

/-- A reference with a worker is one that the driver has come past. -/
theorem CameTo.mem_submitted (h : r.CameTo passed items)
    (hs : r.submitted = r.employed) : x ∈ r.submitted ↔ x ∈ passed := by
  rw [hs, h.2, List.mem_eraseDups]

/-- The driver passes a reference that has a worker. -/
theorem CameTo.pass (h : r.CameTo passed (x :: items)) (hx : x ∈ passed)
    (hr : t.received = r.received) (he : t.employed = r.employed) :
    t.CameTo (passed ++ [x]) items :=
  ⟨by rw [hr, h.1, List.append_assoc]; rfl, by rw [he, h.2,
    eraseDups_concat_of_mem hx]⟩

/-- The next reference on the page gets a worker. -/
theorem CameTo.employ (h : r.CameTo passed (x :: items)) (hx : x ∉ passed)
    (hr : t.received = r.received) (he : t.employed = r.employed ++ [x]) :
    t.CameTo (passed ++ [x]) items :=
  ⟨by rw [hr, h.1, List.append_assoc]; rfl, by rw [he, h.2,
    eraseDups_concat_of_notMem hx]⟩

/-- At the end of a page the driver has come past all references received. -/
theorem CameTo.whole (h : r.CameTo passed []) :
    r.CameTo (Page.references r.received) [] := by
  have hpassed : Page.references r.received = passed := by
    rw [h.1, List.append_nil]
  exact ⟨(List.append_nil _).symm, by rw [h.2, hpassed]⟩

/-- A cancelled run may leave paging anywhere. -/
theorem Employs.leave (h : r.Employs) (hc : t.isCancelled = true)
    (hr : t.received = r.received) (he : t.workers = r.workers) :
    t.leave.Employs := by
  obtain ⟨passed, items, hcame⟩ := h.cameTo
  have hleft : t.leave.CameTo passed items := by
    simp only [CameTo, employed, leave_eq, hr, he]
    exact hcame
  have hd : t.leave.driver = .draining := by rw [leave_eq]
  simp only [Employs, hd]
  exact ⟨⟨passed, items, hleft⟩, fun hn =>
    by rw [isCancelled_leave, hc] at hn; cases hn⟩

/-- What the others do leaves the references of the workers as they are. -/
theorem Effect.employed (he : r.Effect a t) (ha : a.isDrivers = false) :
    t.employed = r.employed := by
  rcases he.moved ha with hsame | ⟨i, w, stage, _, hmoved, _⟩
  · rw [Run.employed, hsame]
    rfl
  · rw [Run.employed, hmoved]
    exact map_reference_setStage r i stage

theorem Effect.employs (he : r.Effect a t) (h : r.Employs) : t.Employs := by
  cases hdrivers : a.isDrivers with
  | false =>
    obtain ⟨hd, hr, hs, _, _⟩ := he.paging hdrivers
    have hemployed := he.employed hdrivers
    unfold Employs at h ⊢
    rw [hd]
    split at h <;> simp only [CameTo, hr, hs, hemployed] at h ⊢
    case h_5 => exact ⟨h.1, fun hn => h.2 (he.calm hn)⟩
    all_goals exact h
  | true =>
    have hat := h
    cases he with
    | idle => exact h
    | ask hd =>
      simp only [Employs, hd] at hat
      exact hat
    | next hd =>
      simp only [Employs, hd] at hat
      obtain ⟨passed, hcame, hsub⟩ := hat
      exact ⟨hcame.whole, hsub⟩
    | complete hd =>
      simp only [Employs, hd] at hat
      obtain ⟨passed, hcame, _⟩ := hat
      have hleft : r.leave.CameTo (Page.references r.leave.received) [] := by
        simpa only [CameTo, Run.employed, leave_eq] using hcame.whole
      have hd' : r.leave.driver = .draining := by rw [leave_eq]
      simp only [Employs, hd']
      exact ⟨⟨_, _, hleft⟩, fun _ => hleft.2⟩
    | pass hd hx =>
      simp only [Employs, hd] at hat
      obtain ⟨passed, hcame, hsub⟩ := hat
      exact ⟨_, hcame.pass ((hcame.mem_submitted hsub).1 hx) rfl rfl, hsub⟩
    | @employ x items next hd hx =>
      simp only [Employs, hd] at hat
      obtain ⟨passed, hcame, hsub⟩ := hat
      have hnew : x ∉ passed := fun hin => hx ((hcame.mem_submitted hsub).2 hin)
      refine ⟨_, hcame.employ hnew rfl (by simp [Run.employed, spawn]), ?_⟩
      simp [Run.employed, spawn, hsub]
    | queue hd hx =>
      simp only [Employs, hd] at hat
      obtain ⟨passed, hcame, hsub⟩ := hat
      exact ⟨passed, hcame, fun hin => hx ((hcame.mem_submitted hsub).2 hin), by
        simp [Run.employed, hsub]⟩
    | grant hd =>
      simp only [Employs, hd] at hat
      obtain ⟨passed, hcame, hnew, hsub⟩ := hat
      refine ⟨_, hcame.employ hnew rfl (by simp [Run.employed, spawn]), ?_⟩
      simp [Run.employed, spawn, hsub]
    | @fetched _ p hd =>
      simp only [Employs, hd] at hat
      obtain ⟨hcame, hsub⟩ := hat
      exact ⟨_, ⟨Page.references_append _ _, hcame.2⟩, hsub⟩
    | exceed | fetchFailed =>
      exact h.leave (isCancelled_fail _ _ _) (by rw [fail_eq]) (by rw [fail_eq])
    | quit _ hc | refuse _ _ hc => exact h.leave hc rfl rfl
    | conclude hd =>
      simp only [Employs, hd] at hat
      obtain ⟨⟨passed, items, hcame⟩, hwhole⟩ := hat
      have hd' : r.conclude.driver = .returned r.result := rfl
      cases hresult : r.result with
      | error e =>
        simp only [Employs, hd', hresult]
        exact ⟨passed, items, hcame⟩
      | ok found =>
        simp only [Employs, hd', hresult]
        refine ⟨(List.append_nil _).symm, hwhole ?_⟩
        unfold Run.result at hresult
        split at hresult
        · cases hresult
        · split at hresult
          · cases hresult
          · rename_i hn
            simpa using hn
    | fetchCrashed => exact h.cameTo
    | drop =>
      rw [ungrant_eq]
      exact h.cameTo
    | _ => cases hdrivers

/-! ## Runs -/

/-- What was asked for, received and employed only ever grows at its end. -/
theorem Effect.grows (he : r.Effect a t) :
    r.asked <+: t.asked ∧ r.received <+: t.received ∧
      r.employed <+: t.employed := by
  cases hdrivers : a.isDrivers with
  | false =>
    obtain ⟨_, hr, _, _, ha⟩ := he.paging hdrivers
    rw [ha, hr, he.employed hdrivers]
    exact ⟨List.prefix_rfl, List.prefix_rfl, List.prefix_rfl⟩
  | true =>
    cases he <;> simp [Action.isDrivers] at hdrivers <;>
      simp [Run.employed, fail_eq, leave_eq, ungrant_eq, spawn,
        Run.conclude, emit]

/-- Wherever actions lead from the start, fetches and workers are in order. -/
theorem Reaches.inOrder {e : Enumerator} {signals : Signals}
    {caller : Cancellation} (h : (start e signals caller).Reaches r) :
    r.Follows ∧ r.Employs := by
  refine h.keeps (I := fun r => r.Follows ∧ r.Employs) ?_ fun _ _ _ hu he =>
    ⟨he.follows hu.1, he.employs hu.2⟩
  rw [start_eq]
  by_cases hfit : e.concurrency ≤ Enumerator.maxPermits <;>
    simp [hfit, Follows, Employs, CameTo, employed, Page.cursors,
      Page.references]

/-- A page is received only as the answer to a fetch. -/
theorem Effect.receives_page (he : r.Effect a t)
    (hr : t.received ≠ r.received) :
    ∃ p cursor, a = .answer (.value p) ∧ r.driver = .fetching cursor ∧
      t.received = r.received ++ [p] := by
  cases he with
  | fetched hd => exact ⟨_, _, rfl, hd, rfl⟩
  | _ =>
    exact absurd (by simp [fail_eq, leave_eq, release_eq, ungrant_eq,
      Run.finish, setStage, spawn, Run.conclude, emit, Run.cancel]) hr

/-- Only a move of the driver asks for a page. -/
theorem Effect.asked_eq (he : r.Effect a t) (ha : a ≠ .drive) :
    t.asked = r.asked := by
  cases he with
  | ask => exact absurd rfl ha
  | _ =>
    simp [fail_eq, leave_eq, release_eq, ungrant_eq, Run.finish,
      setStage, spawn, Run.conclude, emit, Run.cancel]

/-- A driver that moves on to a fetch asks for its page. -/
theorem Effect.asked_of_fetching {cursor : Option String}
    (he : r.Effect .drive t) (hready : r.driverReady = true)
    (hd : t.driver = .fetching cursor) : t.asked = r.asked ++ [cursor] := by
  cases he with
  | idle hidle => exact absurd hready hidle
  | ask => simpa using hd
  | _ => simp [leave_eq, spawn, Run.conclude] at hd

end Run

namespace RunScene

variable {ω φ κ : Type} {remote : Remote ω φ κ} {s t : RunScene ω φ κ}

/-- A fetch begins when the driver asks for its page, and in no other step. -/
theorem Move.fetches (h : Move remote s t) :
    (t.run.asked = s.run.asked ∧
      (t.fetch.isSome = true → s.fetch.isSome = true)) ∨
      ∃ cursor, t.run.asked = s.run.asked ++ [cursor] ∧
        t.fetch = some (remote.fetch t.run.pages cursor) := by
  have hothers (a : Run.Action) (ha : a ≠ .drive) :
      (s.run.act a).asked = s.run.asked :=
    (s.run.effect_act a).asked_eq ha
  cases h with
  | ask hready hd =>
    exact .inr ⟨_, (s.run.effect_act .drive).asked_of_fetching hready hd, rfl⟩
  | drive hready hd =>
    refine .inl ⟨Decidable.byContradiction fun hasks => ?_, by simp⟩
    obtain ⟨cursor, _, _, hd', _⟩ := (s.run.effect_act .drive).asks hasks
    exact hd cursor hd'
  | fetch hfetch _ _ _ hrun =>
    refine .inl ⟨?_, by simp [hfetch]⟩
    rcases hrun with rfl | ⟨g, rfl⟩ <;> rfl
  | lookup _ _ _ hrun =>
    refine .inl ⟨?_, id⟩
    rcases hrun with rfl | ⟨g, rfl⟩ <;> rfl
  | answer | giveUp => exact .inl ⟨hothers _ (by simp), by simp⟩
  | work | report | unwind => exact .inl ⟨hothers _ (by simp), id⟩
  | cancel | time => exact .inl ⟨rfl, id⟩

end RunScene

namespace Run

/-- Whatever happens to a run, and in whatever order, its fetches and its
workers follow the listing.

* The cursors asked for are none and then, one after the other, the cursors that
  the pages received name, each of which says that there is another page.  A
  page is asked for only by a driver that has the cursor of the last page
  received, and that has employed a worker for every reference received; and a
  page is received only when all these cursors have been asked for.
* The references with a worker are different from each other.  In the order of
  their workers they are the first ones of the references received, each taken
  where it first occurs, and all of them once the run has returned options.
* What was asked for, received and employed only grows at its end.  In a scene a
  fetch begins with the cursor that the driver asks for, and in no other
  step. -/
theorem in_listing_order (e : Enumerator) (signals : Signals)
    (caller : Cancellation) :
    (∀ r, (start e signals caller).Reaches r →
      (r.asked <+: Page.cursors r.received ∧ none ∉ r.asked.tail) ∧
      (∀ cursor, r.driver = .turning cursor →
        r.asked ++ [cursor] = Page.cursors r.received ∧
          r.employed = (Page.references r.received).eraseDups) ∧
      (r.employed.Nodup ∧
        r.employed <+: (Page.references r.received).eraseDups ∧
        ∀ found, r.driver = .returned (.ok found) →
          r.employed = (Page.references r.received).eraseDups) ∧
      (∀ a, (r.act a).asked ≠ r.asked →
        ∃ cursor, r.driver = .turning cursor ∧
          (r.act a).asked = r.asked ++ [cursor]) ∧
      (∀ a, (r.act a).received ≠ r.received →
        ∃ p, a = .answer (.value p) ∧ (r.act a).received = r.received ++ [p] ∧
          r.asked = Page.cursors r.received) ∧
      ∀ t, r.Reaches t →
        r.asked <+: t.asked ∧ r.received <+: t.received ∧
          r.employed <+: t.employed) ∧
    ∀ (ω φ κ : Type) (remote : Remote ω φ κ) (s t : RunScene ω φ κ),
      (RunScene.play remote).Step s t →
        (t.run.asked = s.run.asked ∧
          (t.fetch.isSome = true → s.fetch.isSome = true)) ∨
          ∃ cursor, t.run.asked = s.run.asked ++ [cursor] ∧
            t.fetch = some (remote.fetch t.run.pages cursor) := by
  refine ⟨fun r h => ?_, fun ω φ κ remote s t hstep =>
    (RunScene.move hstep).fetches⟩
  obtain ⟨hfollows, hemploys⟩ := h.inOrder
  obtain ⟨passed, items, hcame⟩ := hemploys.cameTo
  refine ⟨hfollows.asked, fun cursor hd => ?_,
    ⟨?_, hcame.isPrefix, fun found hd => ?_⟩,
    fun a hasks => ?_, fun a hreceives => ?_, fun t ht => ?_⟩
  · simp only [Follows, Employs, hd] at hfollows hemploys
    exact ⟨hfollows.1, hemploys.1.2⟩
  · rw [hcame.2]
    exact nodup_eraseDups passed
  · simp only [Employs, hd] at hemploys
    exact hemploys.2
  · obtain ⟨cursor, hd, _, _, hasked⟩ := (r.effect_act a).asks hasks
    exact ⟨cursor, hd, hasked⟩
  · obtain ⟨p, cursor, ha, hd, hreceived⟩ :=
      (r.effect_act a).receives_page hreceives
    simp only [Follows, hd] at hfollows
    exact ⟨p, ha, hreceived, hfollows.1⟩
  · refine ht.keeps (I := fun t =>
      r.asked <+: t.asked ∧ r.received <+: t.received ∧
        r.employed <+: t.employed)
      ⟨List.prefix_rfl, List.prefix_rfl, List.prefix_rfl⟩ fun u v a hu he => ?_
    obtain ⟨hasked, hreceived, hemployed⟩ := he.grows
    exact ⟨hu.1.trans hasked, hu.2.1.trans hreceived, hu.2.2.trans hemployed⟩

/-- Two lookups at a time. -/
def twoAtOnce : Enumerator where
  concurrency := 2
  concurrency_pos := Nat.two_pos

/-- One page that lists a reference twice, and a next page: the driver turns to
that once the reference has its worker. -/
def repeatedItem : Run :=
  (start twoAtOnce { count := 1 } ⟨0, []⟩).after
    [.drive, .answer (.value ⟨["a", "a"], some "next"⟩), .drive, .drive, .drive]

/-- The end of that run: the next page lists the reference once more, and
another one. -/
def repeatedItemEnd : Run :=
  repeatedItem.after
    [.drive, .answer (.value ⟨["a", "b"], none⟩), .drive, .drive, .drive,
      .work 0, .report 0 (.value (.rejected "a")), .work 0,
      .work 1, .report 1 (.value (.rejected "b")), .work 1, .drive]

theorem in_listing_order_repeated :
    (repeatedItem.driver = .turning (some "next") ∧
      repeatedItem.employed = ["a"] ∧
        repeatedItem.asked ++ [some "next"] =
          Page.cursors repeatedItem.received) ∧
      repeatedItemEnd.driver = .returned (.ok ⟨[]⟩) ∧
        repeatedItemEnd.employed = ["a", "b"] ∧
        repeatedItemEnd.employed =
          (Page.references repeatedItemEnd.received).eraseDups := by
  obtain ⟨hruns, -⟩ := in_listing_order twoAtOnce { count := 1 } ⟨0, []⟩
  have hreach : (start twoAtOnce { count := 1 } ⟨0, []⟩).Reaches repeatedItem :=
    reaches_after _ _
  obtain ⟨_, hturns, _⟩ := hruns _ hreach
  obtain ⟨_, _, hemployed, _⟩ :=
    hruns _ (hreach.trans (reaches_after repeatedItem _))
  have hend : repeatedItemEnd.driver = .returned (.ok ⟨[]⟩) := rfl
  exact ⟨⟨rfl, rfl, (hturns (some "next") rfl).1⟩, hend, rfl,
    hemployed.2.2 _ hend⟩

end Run

end CloudAccess
