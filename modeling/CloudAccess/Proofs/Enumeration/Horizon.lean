import CloudAccess.Proofs.Enumeration.Load
import CloudAccess.Proofs.Enumeration.Moves

/-!
# The pages that are still to come

A run over a finite chain of pages, or with a page limit, receives only so many
pages, whatever its fetches do meanwhile.

* `upcoming` is the fetch under way in a scene, or the one that its driver
  begins next.
* `Remote.Leads` says that the pages of a remote come to an end, and
  `Remote.Finite` that they do or that a page limit is set.
* `Reckons` says of a bound on the pages to come that no step raises it and
  that each page received lowers it.  `Remote.Finite.reckons` finds such a
  bound.
-/

namespace CloudAccess

variable {ω φ κ : Type}

namespace Run

variable {r t : Run} {a : Action}

/-- The cursor of the page that the driver asks for next. -/
def nextCursor? (r : Run) : Option (Option String) :=
  match r.driver with
  | .turning cursor => some cursor
  | .submitting _ next | .queueing _ _ next => next.map some
  | _ => none

/-- After an action the driver heads for the same page as before, or for none;
or it was told a page and heads for the one after it. -/
theorem Effect.nextCursor? (he : r.Effect a t) :
    t.nextCursor? = r.nextCursor? ∨ t.nextCursor? = none ∨
      ∃ p, a = .answer (.value p) ∧ t.nextCursor? = p.nextCursor.map some := by
  cases hdrivers : a.isDrivers with
  | false =>
    refine .inl ?_
    rw [Run.nextCursor?, Run.nextCursor?, (he.paging hdrivers).1]
  | true =>
    cases he with
    | idle => exact .inl rfl
    | fetched => exact .inr (.inr ⟨_, rfl, rfl⟩)
    | next hd | pass hd | employ hd | queue hd | grant hd =>
      exact .inl (by simp [Run.nextCursor?, hd, spawn])
    | exceed | ask | quit | complete | refuse | conclude | fetchCrashed
    | fetchFailed | drop =>
      exact .inr (.inl (by simp [Run.nextCursor?, leave_eq, Run.conclude]))
    | _ => cases hdrivers

/-- A driver that comes to wait for a page headed for it before. -/
theorem Effect.nextCursor?_of_fetching (he : r.Effect .drive t)
    (hready : r.driverReady = true) {cursor : Option String}
    (hd : t.driver = .fetching cursor) : r.nextCursor? = some cursor := by
  cases he with
  | idle hidle => exact absurd hready hidle
  | ask hat =>
    injection hd with hd
    simp [Run.nextCursor?, hat, hd]
  | _ => simp [leave_eq, spawn, Run.conclude, emit] at hd

/-- A page is received only by its answer, while the driver waits for it. -/
theorem Effect.receives (he : r.Effect a t)
    (hreceived : t.received ≠ r.received) :
    ∃ p cursor, a = .answer (.value p) ∧ r.driver = .fetching cursor ∧
      t.pages = r.pages + 1 ∧ t.nextCursor? = p.nextCursor.map some ∧
      ∀ cursor, t.driver ≠ .fetching cursor := by
  cases he with
  | fetched hd => exact ⟨_, _, rfl, hd, rfl, rfl, by simp⟩
  | _ =>
    exact absurd (by simp [fail_eq, leave_eq, release_eq, ungrant_eq,
      Run.finish, setStage, spawn, Run.conclude, emit, Run.cancel]) hreceived

/-- What brings no page leaves those that were received, and their number. -/
theorem Effect.received_eq (he : r.Effect a t) (ha : ∀ o, a ≠ .answer o) :
    t.received = r.received ∧ t.pages = r.pages := by
  cases he with
  | fetched | fetchFailed => exact absurd rfl (ha _)
  | _ =>
    simp [fail_eq, leave_eq, release_eq, ungrant_eq, Run.finish,
      setStage, spawn, Run.conclude, emit, Run.cancel]

/-- The driver waits for a page only below the page limit. -/
def Limited (r : Run) : Prop :=
  ∀ cursor, r.driver = .fetching cursor →
    ∀ limit ∈ r.enumerator.pageLimit, r.pages < limit

theorem Effect.limited (he : r.Effect a t) (h : r.Limited) : t.Limited := by
  intro cursor hd limit hlimit
  rw [he.fixed.1] at hlimit
  cases hdrivers : a.isDrivers with
  | false =>
    obtain ⟨hsame, _, _, hp, _⟩ := he.paging hdrivers
    rw [hp]
    exact h cursor (hsame ▸ hd) limit hlimit
  | true =>
    cases he with
    | idle => exact h cursor hd limit hlimit
    | ask _ hbelow => exact hbelow limit hlimit
    | _ => simp [leave_eq, spawn, Run.conclude, Action.isDrivers] at hd hdrivers

/-- The number of pages never falls. -/
theorem Effect.pages_le (he : r.Effect a t) : r.pages ≤ t.pages := by
  cases he <;>
    simp [fail_eq, leave_eq, release_eq, ungrant_eq, Run.finish,
      setStage, spawn, Run.conclude, emit, Run.cancel]

end Run

/-! ## Finite chains of pages -/

namespace Remote

/-- `ahead k n task` says that after `task`, the fetch of the page after `k`
others, at most `n` more pages are to come.  The first fetch is some number of
pages ahead of the end, a fetch that goes on stays as far, and the next one is
closer to it. -/
structure Leads (r : Remote ω φ κ) (ahead : Nat → Nat → φ → Prop) : Prop where
  starts : ∃ n, ahead 0 n (r.fetch 0 none)
  goesOn : ∀ {k n : Nat} {world world' : ω} {s : Situation} {task task' : φ},
    ahead k n task → r.fetching.GoesOn world s task world' task' →
      ahead k n task'
  falls : ∀ {k n : Nat} {world world' : ω} {s : Situation} {task : φ} {p : Page}
    {cursor : String}, ahead k n task →
      r.fetching.turn world s task = (world', .done (.value p)) →
        p.nextCursor = some cursor →
          ∃ m < n, ahead (k + 1) m (r.fetch (k + 1) (some cursor))

/-- The chain of pages is finite, or a page limit is set. -/
def Finite (r : Remote ω φ κ) (e : Enumerator) : Prop :=
  e.pageLimit.isSome = true ∨ ∃ ahead, r.Leads ahead

end Remote

namespace RunScene

variable {r : Remote ω φ κ} {s t : RunScene ω φ κ} {e : Enumerator}
  {signals : Signals} {caller : Cancellation}

/-- The fetch under way, or else the one that the driver begins next. -/
def upcoming (r : Remote ω φ κ) (s : RunScene ω φ κ) : Option φ :=
  s.fetch <|> s.run.nextCursor?.map (r.fetch s.run.pages)

/-- A bound on the pages to come: no step raises it, and with each page that is
received it falls. -/
def Reckons (r : Remote ω φ κ) (within : Nat → RunScene ω φ κ → Prop) : Prop :=
  ∀ n s t, s.Attended → within n s → Move r s t →
    ∃ m ≤ n, within m t ∧ (t.run.received ≠ s.run.received → m < n)

/-- What a step does to the fetch that comes next: it stays, there is none any
more, or it goes on; or a page was received, and it is that of the page
after. -/
inductive Heads (r : Remote ω φ κ) (s t : RunScene ω φ κ) : Prop
  | stays (h : upcoming r t = upcoming r s)
      (hreceived : t.run.received = s.run.received)
      (hpages : t.run.pages = s.run.pages)
  | ends (h : upcoming r t = none) (hreceived : t.run.received = s.run.received)
  | goesOn {task task' : φ} {world : ω} (hs : upcoming r s = some task)
      (ht : upcoming r t = some task')
      (hready : r.fetching.ready s.world s.situation task = true)
      (hgoes : r.fetching.GoesOn s.world s.situation task world task')
      (hreceived : t.run.received = s.run.received)
      (hpages : t.run.pages = s.run.pages)
  | receives {task : φ} {p : Page} {world : ω} (hs : upcoming r s = some task)
      (hdone : r.fetching.turn s.world s.situation task =
        (world, .done (.value p)))
      (ht : upcoming r t = p.nextCursor.map fun cursor =>
        r.fetch t.run.pages (some cursor))
      (hreceived : t.run.received ≠ s.run.received)
      (hpages : t.run.pages = s.run.pages + 1)

/-- A driver that heads for a page does not wait for one. -/
theorem Attended.fetch_eq_none_of_next (h : s.Attended) {cursor : Option String}
    (hnext : s.run.nextCursor? = some cursor) : s.fetch = none := by
  by_contra hsome
  obtain ⟨_, hd⟩ := h.fetch_iff.1 (Option.isSome_iff_ne_none.2 hsome)
  simp [Run.nextCursor?, hd] at hnext

/-- A driver that stops waiting heads for the same page as before, or for
none. -/
theorem Attended.heads_drive (h : s.Attended) {a : Run.Action}
    (hbegins : ∀ o, a ≠ .answer o) (hrun : t.run = s.run.act a)
    (hfetch : t.fetch = none) : Heads r s t := by
  obtain ⟨hreceived, hpages⟩ := hrun ▸ (s.run.effect_act a).received_eq hbegins
  have hafter : upcoming r t = t.run.nextCursor?.map (r.fetch s.run.pages) := by
    simp [upcoming, hfetch, hpages]
  have he : s.run.Effect a t.run := hrun ▸ s.run.effect_act a
  rcases he.nextCursor? with hsame | hnone | ⟨_, hanswer, _⟩
  · cases hnext : s.run.nextCursor? with
    | none => exact .ends (by rw [hafter, hsame, hnext]; rfl) hreceived
    | some cursor =>
      refine .stays ?_ hreceived hpages
      rw [hafter, upcoming, h.fetch_eq_none_of_next hnext, hsame]
      rfl
  · exact .ends (by rw [hafter, hnone]; rfl) hreceived
  · exact absurd hanswer (hbegins _)

/-- What leaves the driver and its fetch alone leaves the fetch that comes
next. -/
theorem heads_of_driver (hd : t.run.driver = s.run.driver)
    (hfetch : t.fetch = s.fetch) (hreceived : t.run.received = s.run.received)
    (hpages : t.run.pages = s.run.pages) : Heads r s t := by
  refine .stays ?_ hreceived hpages
  rw [upcoming, upcoming, hfetch, Run.nextCursor?, Run.nextCursor?, hd, hpages]

theorem heads_act {a : Run.Action} (ha : a.isDrivers = false)
    (hrun : t.run = s.run.act a) (hfetch : t.fetch = s.fetch) :
    Heads r s t := by
  obtain ⟨hd, hreceived, _, hpages, _⟩ := (s.run.effect_act a).paging ha
  exact heads_of_driver (hrun ▸ hd) hfetch (hrun ▸ hreceived) (hrun ▸ hpages)

/-- Every step does one of these things to the fetch that comes next. -/
theorem Move.heads (hm : Move r s t) (hs : s.Attended) : Heads r s t := by
  cases hm with
  | ask hready hd =>
    have hnext := (s.run.effect_act .drive).nextCursor?_of_fetching hready hd
    obtain ⟨hreceived, hpages⟩ :=
      (s.run.effect_act .drive).received_eq (by simp)
    refine .stays ?_ hreceived hpages
    simp [upcoming, hs.fetch_eq_none_of_next hnext, hnext, hpages]
  | drive => exact hs.heads_drive (a := .drive) (by simp) rfl rfl
  | giveUp => exact hs.heads_drive (a := .drop) (by simp) rfl rfl
  | fetch hfetch _ hready hgoes hrun =>
    refine .goesOn (by simp [upcoming, hfetch]) (by simp [upcoming]) hready
      hgoes ?_ ?_ <;>
      rcases hrun with rfl | ⟨g, rfl⟩ <;> rfl
  | @answer task o world hfetch hwaits hdone =>
    obtain ⟨cursor, hd⟩ := hs.fetch_iff.1 (by simp [hfetch])
    have hc : s.run.isCancelled = false := by
      simpa [Run.driverReady, hd] using hwaits
    have hbefore : upcoming r s = some task := by simp [upcoming, hfetch]
    cases o with
    | value p =>
      refine .receives hbefore hdone ?_ ?_ ?_
      · simp [upcoming, Run.act, Run.answer, hd, hc, Run.nextCursor?]
        rfl
      · simp [Run.act, Run.answer, hd, hc]
      · simp [Run.act, Run.answer, hd, hc, Run.emit]
    | failed | crashed =>
      refine .ends ?_ ?_ <;>
        simp [upcoming, Run.act, Run.answer, hd, hc, Run.nextCursor?,
          Run.leave_eq, Run.fail_eq]
  | @work i => exact heads_act (a := .work i) rfl rfl rfl
  | lookup _ _ _ hrun =>
    rcases hrun with rfl | ⟨g, rfl⟩ <;> exact heads_of_driver rfl rfl rfl rfl
  | @report i _ o => exact heads_act (a := .report i o) rfl rfl rfl
  | @unwind i => exact heads_act (a := .unwind i) rfl rfl rfl
  | cancel | time => exact heads_of_driver rfl rfl rfl rfl

/-! ## Bounds -/

/-- A finite chain bounds the pages to come by those ahead of the next
fetch. -/
theorem reckons_of_leads {ahead : Nat → Nat → φ → Prop} (h : r.Leads ahead) :
    Reckons r fun n s => ∀ task ∈ upcoming r s, ∃ m <
      n, ahead s.run.pages m task := by
  intro n s t hs hn hm
  dsimp only at hn ⊢
  cases hm.heads hs with
  | stays hsame hreceived hpages =>
    exact ⟨n, Nat.le_refl n, by rwa [hsame,
      hpages], fun hne => absurd hreceived hne⟩
  | ends hnone hreceived =>
    exact ⟨n, Nat.le_refl n, by simp [hnone], fun hne => absurd hreceived hne⟩
  | goesOn hbefore hafter _ hgoes hreceived hpages =>
    refine ⟨n, Nat.le_refl n, fun task htask => ?_, fun hne =>
      absurd hreceived hne⟩
    obtain ⟨m, hlt, hahead⟩ := hn _ hbefore
    obtain rfl := Option.some.inj (hafter.symm.trans htask)
    exact ⟨m, hlt, hpages ▸ h.goesOn hahead hgoes⟩
  | receives hbefore hdone hafter _ hpages =>
    obtain ⟨m, hlt, hahead⟩ := hn _ hbefore
    refine ⟨m, Nat.le_of_lt hlt, fun next hnext => ?_, fun _ => hlt⟩
    rw [hafter, Option.mem_def, Option.map_eq_some_iff] at hnext
    obtain ⟨cursor, hcursor, rfl⟩ := hnext
    rw [hpages]
    exact h.falls hahead hdone hcursor

/-- A page limit bounds the pages to come by those that it leaves. -/
theorem reckons_of_limit (r : Remote ω φ κ) (limit : Nat) :
    Reckons r fun n s => s.run.enumerator.pageLimit = some limit ∧
    s.run.Limited ∧
      limit ≤ s.run.pages + n := by
  rintro n s t hs ⟨hlimit, hlimited, hle⟩ hm
  dsimp only
  rcases hm.run_eq with hsame | ⟨a, hrun⟩
  · exact ⟨n, Nat.le_refl n, by rw [hsame]; exact ⟨hlimit, hlimited, hle⟩,
      fun hne => absurd (by rw [hsame]) hne⟩
  · have he : s.run.Effect a t.run := hrun ▸ s.run.effect_act a
    have hlimit' : t.run.enumerator.pageLimit = some limit := by
      rw [he.fixed.1, hlimit]
    by_cases hreceived : t.run.received = s.run.received
    · have hpages := he.pages_le
      exact ⟨n, Nat.le_refl n, ⟨hlimit', he.limited hlimited, by omega⟩,
        fun hne => absurd hreceived hne⟩
    · obtain ⟨_, cursor, _, hd, hpages, _⟩ := he.receives hreceived
      have hbelow := hlimited cursor hd limit hlimit
      exact ⟨n - 1, Nat.sub_le n 1, ⟨hlimit', he.limited hlimited, by omega⟩,
        fun _ => by omega⟩

/-- Over a finite chain of pages, or with a page limit, the pages to come are
bounded from the start. -/
theorem exists_reckons (h : r.Finite e) (hs : s.Opens e signals caller) :
    ∃ within, Reckons r within ∧ ∃ n, within n s := by
  rcases h with hlimit | ⟨ahead, hleads⟩
  · obtain ⟨limit, hlimit⟩ := Option.isSome_iff_exists.1 hlimit
    refine ⟨_, reckons_of_limit r limit, limit, ?_, fun cursor hd =>
      ?_, by omega⟩
    · rw [hs.run_eq, Run.start_eq]
      exact hlimit
    · rw [hs.run_eq, Run.start_eq] at hd
      by_cases hfit : e.concurrency ≤ Enumerator.maxPermits <;>
        simp [hfit] at hd
  · obtain ⟨n, hn⟩ := hleads.starts
    refine ⟨_, reckons_of_leads hleads, n + 1, fun task htask =>
      ⟨n, by omega, ?_⟩⟩
    rw [hs.run_eq, Run.start_eq]
    rw [upcoming, hs.fetch_eq, hs.run_eq, Run.start_eq] at htask
    by_cases hfit : e.concurrency ≤ Enumerator.maxPermits <;>
      simp [hfit, Run.nextCursor?] at htask
    exact htask ▸ hn

end RunScene

end CloudAccess
