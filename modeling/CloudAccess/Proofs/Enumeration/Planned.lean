import CloudAccess.Enumeration.Listing
import CloudAccess.Proofs.Enumeration.Descent

/-!
# What a planned listing has before it

The fetches and the lookups of a planned listing come to their planned ends.

* `Listing.fetchGauge` and `Listing.lookupGauge` say how far they have come.
* `Listing.rests` says that each of them comes to wait at some point, and
  `Listing.ends` that none waits for ever when no lookup waits for a
  cancellation.
* `Listing.leads` says that the chain of pages is finite when it ends within
  some number of pages.
-/

namespace CloudAccess

namespace Listing

variable {l : Listing} {world world' : Diary} {s : Situation}

/-! ## Fetches -/

/-- How far a fetch has come: it is asked, it pauses, or its pause is over. -/
def fetchLeft (m : Moment) : Fetch → Nat
  | .asked _ => 3
  | .pausing due _ => if due ≤ m.unit then 1 else 2

/-- Every fetch of planned pages, and how far it has come. -/
def fetchGauge : Gauge Fetch := ⟨fun _ => True, fetchLeft⟩

/-- A fetch goes on once: it finds its page and pauses. -/
theorem fetching_goesOn {task task' : Fetch}
    (h : l.fetching.GoesOn world s task world' task') :
    ∃ cursor p, task = .asked cursor ∧ l.pages.find cursor = .ok p ∧
      task' = .pausing (s.moment.unit + p.delay) p := by
  cases task with
  | asked cursor =>
    cases hfind : l.pages.find cursor with
    | error err => simp [Process.GoesOn, fetching, hfind] at h
    | ok p =>
      simp only [Process.GoesOn, fetching, hfind, Prod.mk.injEq,
        Turn.goOn.injEq, reduceCtorEq, and_false, exists_false, or_false] at h
      exact ⟨cursor, p, rfl, hfind, h.2.symm⟩
  | pausing due p => simp [Process.GoesOn, fetching] at h

theorem fetching_rests (l : Listing) : l.fetching.Rests fetchGauge where
  keeps _ _ := trivial
  falls := by
    intro _ _ s _ _ _ _ hgoes
    obtain ⟨cursor, p, rfl, -, rfl⟩ := fetching_goesOn hgoes
    show fetchLeft s.moment (.pausing _ p) < 3
    unfold fetchLeft
    grind

theorem fetching_wakes (l : Listing) : l.fetching.Wakes fetchGauge where
  passes := by
    intro m unit task _
    cases task with
    | asked => exact Nat.le_refl _
    | pausing due p =>
      simp only [fetchGauge, fetchLeft, Moment.moveTo]
      grind
  due := by
    intro _ s task _ hready
    cases task with
    | asked => cases hready
    | pausing due p =>
      have hlate : s.moment.unit < due := by simpa [fetching] using hready
      refine ⟨due, rfl, ?_⟩
      simp only [fetchGauge, fetchLeft, Moment.moveTo]
      grind

/-! ## Lookups -/

/-- How far a lookup has come: it has five stages, and in two of them it
pauses until a unit. -/
def lookupLeft (m : Moment) (k : Lookup) : Nat :=
  match k.stage with
  | .begun => 6
  | .pausing due => if due ≤ m.unit then 4 else 5
  | .awaiting => 3
  | .ending due => if due ≤ m.unit then 1 else 2

/-- The lookups that are planned in some way, and how far they have come. -/
def lookupGauge (planned : PlannedLookup → Prop) : Gauge Lookup :=
  ⟨fun k => planned k.plan, lookupLeft⟩

/-- A lookup goes on from its beginning to its pause, to its waiting and to its
end. -/
theorem looking_goesOn {k k' : Lookup}
    (h : looking.GoesOn world s k world' k') :
    k'.plan = k.plan ∧
      ((k.stage = .begun ∧ k'.stage = .pausing (s.moment.unit + k.plan.delay)) ∨
        (∃ due, k.stage = .pausing due ∧ k'.stage = .awaiting) ∨
        (k.stage = .awaiting ∧
          k'.stage = .ending (s.moment.unit + k.plan.delayAfter))) := by
  obtain ⟨reference, plan, stage⟩ := k
  cases stage with
  | begun | awaiting => simp [Process.GoesOn, looking] at h; simp [← h.2]
  | ending due => simp [Process.GoesOn, looking] at h
  | pausing due =>
    cases hcancels : plan.cancels with
    | none | some target =>
      simp [Process.GoesOn, looking, hcancels] at h; simp [← h.2]

theorem looking_rests (planned : PlannedLookup → Prop) :
    looking.Rests (lookupGauge planned) where
  keeps hk hgoes := by
    show planned _
    rw [(looking_goesOn hgoes).1]
    exact hk
  falls := by
    intro _ _ s k k' _ hready hgoes
    simp only [lookupGauge, lookupLeft]
    obtain ⟨-, ⟨hk, hk'⟩ | ⟨due, hk, hk'⟩ | ⟨hk, hk'⟩⟩ := looking_goesOn hgoes
    · grind
    · have hpast : due ≤ s.moment.unit := by simpa [looking, hk] using hready
      grind
    · grind

/-- A lookup that does not wait for a cancellation pauses until some unit. -/
theorem looking_wakes :
    looking.Wakes (lookupGauge fun p => p.awaitsCancel = false) where
  passes := by
    intro m unit k _
    simp only [lookupGauge, lookupLeft, Moment.moveTo]
    split <;> grind
  due := by
    intro _ s k hk hready
    have hplan : k.plan.awaitsCancel = false := hk
    simp only [lookupGauge, lookupLeft, Moment.moveTo]
    cases hstage : k.stage with
    | begun => simp [looking, hstage] at hready
    | awaiting => simp [looking, hstage, hplan] at hready
    | pausing due | ending due =>
      have hlate : s.moment.unit < due := by
        simpa [looking, hstage] using hready
      refine ⟨due, by simp [looking, hstage], ?_⟩
      dsimp only
      grind

/-! ## Listings -/

/-- The fetches and the lookups of a listing come to wait or to their end. -/
theorem rests (l : Listing) :
    l.remote.Rests fetchGauge (lookupGauge fun _ => True) where
  fetching := fetching_rests l
  looking := looking_rests _
  fetch _ _ := trivial
  lookup _ := trivial
  begins _ _ _ := rfl

/-- None of them waits for ever when no lookup waits for a cancellation. -/
theorem ends (l : Listing) (hawaits : ∀ x, (l.lookup x).awaitsCancel = false) :
    l.remote.Ends fetchGauge (lookupGauge fun p => p.awaitsCancel = false) where
  fetching := fetching_rests l
  looking := looking_rests _
  fetch _ _ := trivial
  lookup x := hawaits x
  begins _ _ _ := rfl
  fetchWakes := fetching_wakes l
  lookupWakes := looking_wakes

/-- The pages of a listing from a cursor on are fewer than `n`. -/
def EndsWithin (l : Listing) : Nat → Option String → Prop
  | 0, _ => False
  | n + 1, cursor =>
    ∀ p page next, l.pages.lookup cursor = some p → p.outcome = .value page →
      page.nextCursor = some next → l.EndsWithin n (some next)

/-- How many pages are to come at most after a fetch. -/
def ahead (l : Listing) (n : Nat) : Fetch → Prop
  | .asked cursor => l.EndsWithin (n + 1) cursor
  | .pausing _ p =>
    ∀ page next, p.outcome = .value page → page.nextCursor = some next →
      l.EndsWithin n (some next)

/-- The pages of a listing come to an end when fewer than some number follow
from its beginning. -/
theorem leads {n : Nat} (h : l.EndsWithin (n + 1) none) :
    l.remote.Leads fun _ => l.ahead where
  starts := ⟨n, h⟩
  goesOn := by
    intro _ n _ _ _ task task' hahead hgoes
    obtain ⟨cursor, p, rfl, hfind, rfl⟩ := fetching_goesOn hgoes
    refine fun page next => hahead p page next ?_
    cases hat : l.pages.lookup cursor with
    | none => simp [PlannedPages.find, hat] at hfind
    | some q => simpa [PlannedPages.find, hat] using hfind
  falls := by
    intro _ n _ _ s task page cursor hahead hturn hnext
    cases task with
    | asked asked =>
      cases hfind : l.pages.find asked <;>
        simp [Listing.remote, fetching, hfind] at hturn
    | pausing due p =>
      have hvalue : p.outcome = .value page := by
        simp only [Listing.remote, fetching, Prod.mk.injEq, Turn.done.injEq]
          at hturn
        exact hturn.2
      have hends : l.EndsWithin n (some cursor) :=
        hahead page cursor hvalue hnext
      cases n with
      | zero => exact hends.elim
      | succ n => exact ⟨n, Nat.lt_succ_self n, hends⟩

end Listing

end CloudAccess
