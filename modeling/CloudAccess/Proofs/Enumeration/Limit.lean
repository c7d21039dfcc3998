import CloudAccess.Proofs.Enumeration.Closing
import CloudAccess.Proofs.Enumeration.Horizon
import CloudAccess.Proofs.Enumeration.Order

/-!
# Runs with a page limit

How far a run gets with its pages, and how it comes to exceed a page limit.

* `Closes` says at each place of the driver whether the last page received ends
  the listing.
* `Reaches.pages_eq` and `Reaches.asked_le` count the pages while the driver is
  busy with them, and bound the fetches by the page limit.
* `Full` says that as many pages were received as a limit allows, that another
  one is to come, and that every reference received has a worker.
  `Reaches.full` says that a driver that finds the limit reached has come so
  far, and `exceeds_iff` that a run exceeds its limit exactly when its driver
  comes to look at it then.
-/

namespace CloudAccess.Run

variable {r t : Run} {a : Action} {actions : List Action} {e : Enumerator}
  {signals : Signals} {caller : Cancellation} {limit : Nat}

/-! ## The last page received -/

/-- Whether the last page received ends the listing.  A run that was cancelled
may have left paging anywhere. -/
def Closes (r : Run) : Prop :=
  match r.driver with
  | .turning _ | .fetching _ => ∀ p ∈ r.received.getLast?, p.isLast = false
  | .submitting _ next | .queueing _ _ next =>
    ∃ p ∈ r.received.getLast?, p.nextCursor = next
  | .draining | .returned _ =>
    r.isCancelled = false → ∃ p ∈ r.received.getLast?, p.isLast = true
  | .crashed | .dropped => True

/-- A cancelled run may leave paging anywhere. -/
theorem closes_leave (hc : r.isCancelled = true) : r.leave.Closes := by
  have hd : r.leave.driver = .draining := by rw [leave_eq]
  simp only [Closes, hd, isCancelled_leave, hc]
  exact fun hn => by cases hn

theorem Effect.closes (he : r.Effect a t) (h : r.Closes) : t.Closes := by
  cases hdrivers : a.isDrivers with
  | false =>
    obtain ⟨hd, hr, _, _, _⟩ := he.paging hdrivers
    unfold Closes at h ⊢
    rw [hd]
    split at h <;> simp only [hr] at h ⊢
    case h_5 | h_6 => exact fun hn => h (he.calm hn)
    all_goals exact h
  | true =>
    have hat := h
    cases he with
    | idle => exact h
    | ask hd =>
      simp only [Closes, hd] at hat
      exact hat
    | next hd =>
      simp only [Closes, hd] at hat
      obtain ⟨p, hp, hnext⟩ := hat
      intro q hq
      obtain rfl := Option.mem_unique hp hq
      simp [Page.isLast, hnext]
    | complete hd =>
      simp only [Closes, hd] at hat
      obtain ⟨p, hp, hnext⟩ := hat
      simp only [Closes, leave_eq]
      exact fun _ => ⟨p, hp, by rw [Page.isLast, hnext]; rfl⟩
    | pass hd | queue hd | employ hd | grant hd =>
      simp only [Closes, hd] at hat
      exact hat
    | fetched =>
      exact ⟨_, by simp, rfl⟩
    | exceed | fetchFailed => exact closes_leave (isCancelled_fail _ _ _)
    | quit _ hc | refuse _ _ hc => exact closes_leave hc
    | conclude hd =>
      simp only [Closes, hd] at hat
      exact hat
    | fetchCrashed | drop => exact trivial
    | _ => cases hdrivers

theorem Reaches.closes (h : (start e signals caller).Reaches r) : r.Closes := by
  refine h.keeps (I := Closes) ?_ fun _ _ _ hu he => he.closes hu
  rw [start_eq]
  by_cases hfit : e.concurrency ≤ Enumerator.maxPermits <;> simp [Closes, hfit]

/-! ## The pages are counted -/

/-- As long as the driver is busy with pages, it has received those that it has
counted. -/
theorem Reaches.pages_eq (h : (start e signals caller).Reaches r)
    (hd : (∃ cursor, r.driver = .turning cursor) ∨
      ∃ cursor, r.driver = .fetching cursor) : r.pages = r.received.length := by
  have hcounted := h.counted
  have hfollows := h.inOrder.1
  rcases hd with ⟨cursor, hd⟩ | ⟨cursor, hd⟩
  all_goals
    simp only [Counted, Follows, hd] at hcounted hfollows
    have hlength := congrArg List.length hfollows.1
    simp [Page.cursors] at hlength
    omega

/-- A run keeps the page limit that it was given. -/
theorem Reaches.enumerator (h : (start e signals caller).Reaches r) :
    r.enumerator = e :=
  h.loaded.2

/-- A driver that waits for a page has received fewer than the page limit. -/
theorem Reaches.limited (h : (start e signals caller).Reaches r) :
    r.Limited := by
  refine h.keeps (I := Limited) (fun cursor hd => ?_) fun _ _ _ hu he =>
    he.limited hu
  rw [start_eq] at hd
  by_cases hfit : e.concurrency ≤ Enumerator.maxPermits <;> simp [hfit] at hd

/-- No more fetches are begun than the page limit allows. -/
theorem Reaches.asked_le (h : (start e signals caller).Reaches r)
    (hlimit : limit ∈ e.pageLimit) : r.asked.length ≤ limit := by
  have hkept : r.Counted ∧ ∀ limit ∈ r.enumerator.pageLimit,
      r.asked.length ≤ limit := by
    refine h.keeps
      (I := fun r => r.Counted ∧ ∀ limit ∈ r.enumerator.pageLimit,
        r.asked.length ≤ limit)
      ⟨Reaches.counted .refl, by simp [start_eq]⟩ ?_
    rintro u v a ⟨hcounted, hle⟩ he
    refine ⟨he.counted hcounted, fun limit hlimit => ?_⟩
    rw [he.fixed.1] at hlimit
    by_cases hasked : v.asked = u.asked
    · exact hasked ▸ hle limit hlimit
    · cases he with
      | ask hd hbelow =>
        have hlt := hbelow limit hlimit
        simp only [Counted, hd] at hcounted
        simp [hcounted]
        omega
      | _ =>
        exact absurd (by simp [fail_eq, leave_eq, release_eq, ungrant_eq,
          Run.finish, setStage, spawn, Run.conclude, emit, Run.cancel]) hasked
  exact hkept.2 limit (h.enumerator ▸ hlimit)

/-- A run within the number of permits that there can be crashes before it has
received as many pages as the page limit allows. -/
theorem Reaches.received_lt_of_crashed (h : (start e signals caller).Reaches r)
    (hfit : e.concurrency ≤ Enumerator.maxPermits)
    (hlimit : limit ∈ e.pageLimit) (hd : r.driver = .crashed) :
    r.received.length < limit := by
  have hkept : (start e signals caller).Reaches r ∧
      (r.driver = .crashed → r.received.length < limit) := by
    refine h.invariant (I := fun r => (start e signals caller).Reaches r ∧
      (r.driver = .crashed → r.received.length < limit))
      ⟨.refl, fun hd => by simp [start_eq, hfit] at hd⟩ ?_
    rintro u _ ⟨hu, hearly⟩ ⟨a, rfl⟩
    refine ⟨hu.trans (reaches_act u a), fun hd => ?_⟩
    obtain ⟨hsame, hbefore | ⟨-, -, cursor, hfetching⟩⟩ :=
      (u.effect_act a).crashed hd
    · exact hsame ▸ hearly hbefore
    · have hpages := hu.pages_eq (.inr ⟨cursor, hfetching⟩)
      have hlt := hu.limited cursor hfetching limit (hu.enumerator ▸ hlimit)
      rw [hsame]
      omega
  exact hkept.2 hd

/-! ## Coming to the limit -/

/-- As many pages were received as a limit allows, another one is to come, every
reference received has a worker, and no failure was recorded. -/
structure Full (limit : Nat) (r : Run) : Prop where
  received : r.received.length = limit
  goesOn : ∀ p ∈ r.received.getLast?, p.isLast = false
  employed : r.employed = (Page.references r.received).eraseDups
  unfailed : r.firstError = none

/-- A driver that turns to the next page has given every reference to a worker,
so that the number of pages tells whether the run is full. -/
theorem Reaches.full (h : (start e signals caller).Reaches r)
    {cursor : Option String} (hd : r.driver = .turning cursor)
    (hreceived : r.received.length = limit) (hnone : r.firstError = none) :
    r.Full limit := by
  have hcloses := h.closes
  have hemploys := h.inOrder.2
  simp only [Closes, Employs, hd] at hcloses hemploys
  exact ⟨hreceived, hcloses, hemploys.1.2, hnone⟩

/-- What a driver finds that looks at a page limit and observes that it is
reached. -/
theorem Reaches.full_of_observes (h : (start e signals caller).Reaches r)
    (hnone : r.firstError = none) {n : Nat}
    (ho : r.Observes a (.pageLimitExceeded n)) :
    n ∈ e.pageLimit ∧ a = .drive ∧ (∃ cursor, r.driver = .turning cursor) ∧
    r.Full n := by
  cases ho with
  | @pageLimit cursor _ hd hlimit hle =>
    have hin : n ∈ e.pageLimit := h.enumerator ▸ hlimit
    have hcounted := h.counted
    rw [Counted, hd] at hcounted
    have hreceived : r.received.length = n := by
      have hpages := h.pages_eq (.inl ⟨cursor, hd⟩)
      have hasked := h.asked_le hin
      omega
    exact ⟨hin, rfl, ⟨cursor, hd⟩, h.full hd hreceived hnone⟩

/-- A full run whose driver looks at the page limit exceeds it. -/
theorem Reaches.observes_of_full (h : (start e signals caller).Reaches r)
    (hlimit : limit ∈ e.pageLimit) {cursor : Option String}
    (hd : r.driver = .turning cursor) (hfull : r.Full limit) :
    r.Observes .drive (.pageLimitExceeded limit) := by
  have hcounted := h.counted
  rw [Counted, hd] at hcounted
  have hpages := h.pages_eq (.inl ⟨cursor, hd⟩)
  have hreceived := hfull.received
  exact .pageLimit hd (h.enumerator ▸ hlimit) (by omega)

/-- The failure that is observed first is observed at some point, up to which
there was none. -/
theorem FirstObserved.exists_observes {err : EnumerationError}
    (h : r.FirstObserved actions err) (hcounted : r.Counted)
    (hnone : r.firstError = none) :
    ∃ before a later, actions = before ++ a :: later ∧
      (r.after before).firstError = none ∧
      (r.after before).Observes a err := by
  induction h with
  | @now r a later err ho => exact ⟨[], a, later, rfl, hnone, ho⟩
  | @later r a later err hno _ ih =>
    have he := r.effect_act a
    obtain ⟨before, b, rest, rfl, hfirst, ho⟩ :=
      ih (he.counted hcounted) (by rw [(he.unobserved hcounted hno).1, hnone])
    exact ⟨a :: before, b, rest, rfl, hfirst, ho⟩

/-- What a run that has returned reports as its failure is its first error. -/
theorem Settled.error_iff {result : Except EnumerationError ResultSet}
    {err : EnumerationError} (h : r.Settled result) (hne : err ≠ .cancelled) :
    result = .error err ↔ r.firstError = some err := by
  refine ⟨fun hresult => ?_, h.failed err⟩
  cases hfirst : r.firstError with
  | some first =>
    have hsame := (h.failed first hfirst).symm.trans hresult
    rw [Except.error.inj hsame]
  | none =>
    rcases h.unfailed hfirst with hcancelled | ⟨found, hok⟩
    · exact absurd (Except.error.inj (hresult.symm.trans hcancelled)) hne
    · cases hresult.symm.trans hok

/-- The pages received are the first ones of those received later. -/
theorem Reaches.received_grows (h : r.Reaches t) : r.received <+: t.received :=
  h.keeps (I := fun t => r.received <+: t.received) List.prefix_rfl
    fun _ _ _ hu he =>
    hu.trans he.grows.2.1

/-- A run that has exceeded its page limit and is over has returned that, unless
its caller has given it up. -/
theorem Reaches.returned_of_exceeded (h : (start e signals caller).Reaches r)
    (hfit : e.concurrency ≤ Enumerator.maxPermits)
    (hlimit : limit ∈ e.pageLimit)
    (hfirst : r.firstError = some (.pageLimitExceeded limit))
    (hreceived : limit ≤ r.received.length) (hover : r.driver.isOver = true)
    (hkept : r.driver ≠ .dropped) :
    r.driver = .returned (.error (.pageLimitExceeded limit)) := by
  cases hd : r.driver with
  | returned result => rw [(h.settled result hd).failed _ hfirst]
  | crashed => exact absurd (h.received_lt_of_crashed hfit hlimit hd) (by omega)
  | dropped => exact absurd hd hkept
  | _ => simp [hd, Driver.isOver] at hover

/-- Once the driver of a full run has looked at the page limit, the run returns
that it exceeded the limit, unless its caller gives it up. -/
theorem Reaches.exceeds_of_full (h : (start e signals caller).Reaches r)
    (hfit : e.concurrency ≤ Enumerator.maxPermits)
    (hlimit : limit ∈ e.pageLimit) {cursor : Option String}
    (hd : r.driver = .turning cursor) (hfull : r.Full limit)
    {later : List Action} (ht : t = (r.act .drive).after later)
    (hover : t.driver.isOver = true) (hkept : t.driver ≠ .dropped) :
    t.driver = .returned (.error (.pageLimitExceeded limit)) := by
  have hdrive : (start e signals caller).Reaches (r.act .drive) :=
    h.trans (reaches_act r .drive)
  have hfirst : (r.act .drive).firstError =
      some (.pageLimitExceeded limit) := by
    rw [((h.observes_of_full hlimit hd hfull).act h.counted).2, hfull.unfailed]
    rfl
  have hlater : r.Reaches t :=
    ht ▸ (reaches_act r .drive).trans (reaches_after _ later)
  have hreach : (start e signals caller).Reaches t := h.trans hlater
  have hreceived : limit ≤ t.received.length :=
    hfull.received ▸ hlater.received_grows.length_le
  exact hreach.returned_of_exceeded hfit hlimit
    (ht ▸ firstError_stays hdrive.counted hfirst) hreceived hover hkept

/-- Whatever happens meanwhile, a run within the number of permits that there
can be returns that it exceeded its page limit exactly when its driver finds it
full. -/
theorem exceeds_iff (hfit : e.concurrency ≤ Enumerator.maxPermits)
    (hlimit : e.pageLimit = some limit)
    (ht : t = (start e signals caller).after actions)
    (hover : t.driver.isOver = true) (hkept : t.driver ≠ .dropped) (n : Nat) :
    t.driver = .returned (.error (.pageLimitExceeded n)) ↔
      n = limit ∧ ∃ before later, actions = before ++ .drive :: later ∧
        (∃ cursor, ((start e signals caller).after before).driver =
          .turning cursor) ∧
        ((start e signals caller).after before).Full limit := by
  have hnone : (start e signals caller).firstError = none := by rw [start_eq]
  constructor
  · intro hd
    have hreach : (start e signals caller).Reaches t :=
      ht ▸ reaches_after _ actions
    have hsettled := hreach.settled _ hd
    have hfirst := (hsettled.error_iff (by simp)).1 rfl
    rw [ht, firstError_after (Reaches.counted .refl) hnone] at hfirst
    obtain ⟨before, a, later, rfl, hunfailed, ho⟩ :=
      hfirst.exists_observes (Reaches.counted .refl) hnone
    obtain ⟨hin, rfl, hturning, hfull⟩ :=
      (reaches_after _ before : (start e signals caller).Reaches
        _).full_of_observes hunfailed ho
    obtain rfl : limit = n := Option.some.inj (hlimit.symm.trans hin)
    exact ⟨rfl, before, later, rfl, hturning, hfull⟩
  · rintro ⟨rfl, before, later, rfl, ⟨cursor, hturning⟩, hfull⟩
    have hlater : t = (((start e signals caller).after before).act .drive).after
        later := by
      rw [ht, after_append]
      rfl
    exact (reaches_after _ before).exceeds_of_full hfit hlimit hturning hfull
      hlater hover hkept

end CloudAccess.Run
