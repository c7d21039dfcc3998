import CloudAccess.Proofs.ArgOption
import CloudAccess.Proofs.Enumeration.Failures
import CloudAccess.Proofs.Enumeration.Progress
import CloudAccess.Proofs.Enumeration.Turns
import Mathlib.Data.List.Dedup

/-!
# What an enumeration returns

The result of an enumeration is told from its listing and its lookups alone,
whatever the order in which its driver, its workers and its caller act.

* `Succeeds n pages` says that the pages are the whole listing, that there are
  no more of them than the limit allows, and that the lookup of every
  reference on them brings an item.
* `Way.succeeds` says that a run that returns options has received such a
  listing, and `Complete.returned_ok` that one over such a listing returns
  options unless its caller cancels it.
* `Way.options_perm` says which options those are.
-/

namespace CloudAccess.Enumeration

variable {n : Enumeration} {k : Nat} {r s : Run} {a : Run.Action}
  {pages : List Page}

/-- The pages are the whole listing, within the page limit, and the lookup of
every reference on them brings an item. -/
structure Succeeds (n : Enumeration) (pages : List Page) : Prop where
  lists : n.Lists pages
  within : ∀ limit ∈ n.enumerator.pageLimit, pages.length ≤ limit
  found : ∀ x ∈ Page.references pages, n.Found x

/-- The options of the references on some pages, one lookup for each. -/
def options (n : Enumeration) (pages : List Page) : List ArgOption :=
  (Page.references pages).dedup.filterMap n.option

/-- Over a listing that succeeds nothing can go wrong. -/
theorem Succeeds.not_causes (h : n.Succeeds pages) {e : EnumerationError} :
    ¬n.Causes e := by
  intro he
  cases he with
  | pageFetch hy hgo hf =>
    have hlt := h.lists.length_lt hy hgo
    have hvalue := h.lists.answered _ _ (List.getElem?_eq_getElem hlt)
    rw [hf] at hvalue
    cases hvalue
  | pageLimitExceeded hy hgo hl hle =>
    have hlt := h.lists.length_lt hy hgo
    have hwithin := h.within _ hl
    omega
  | enrichment hy hx hf | workerPanicked hy hx hf =>
    obtain ⟨item, hitem⟩ := h.found _ (h.lists.mem_references hy hx)
    rw [hf] at hitem
    cases hitem

/-! ## The end of a run -/

/-- Once the driver has come to its end and every worker has finished, nothing
happens any more. -/
theorem not_allows_of_over (hd : r.driver.isOver = true)
    (hq : r.isQuiet = true) : ¬n.Allows r a := by
  have hfinished : ∀ (i : Nat) (w : Worker), r.workers[i]? = some w →
      w.stage = .finished := by
    intro i w hw
    simp only [Run.isQuiet, List.all_eq_true, decide_eq_true_eq] at hq
    exact hq w (List.mem_of_getElem? hw)
  intro ha
  cases a with
  | drive =>
    have hready : r.driverReady = true := ha.1
    cases hat : r.driver <;>
      simp [Run.driverReady, Run.Driver.isOver, hat] at hready hd
  | answer o =>
    obtain ⟨⟨cursor, hat⟩, _⟩ := ha.1
    rw [hat] at hd
    cases hd
  | work i =>
    have hready : r.workerReady i = true := ha.1
    cases hw : r.workers[i]? with
    | none => simp [Run.workerReady, hw] at hready
    | some w => simp [Run.workerReady, hw, hfinished i w hw] at hready
  | report i o =>
    obtain ⟨x, hw⟩ := ha.1
    cases hfinished i _ hw
  | unwind i =>
    obtain ⟨x, hw | hw⟩ := ha.1
    · cases hfinished i _ hw
    · cases hfinished i _ hw
  | cancel h =>
    have hover : r.driver.isOver = false := ha.2.1
    rw [hd] at hover
    cases hover
  | drop => exact ha.2

/-- A run returns once its workers have finished, and what it returns is its
result. -/
theorem Way.returned (h : n.Way k r) :
    ∀ result, r.driver = .returned result →
      r.isQuiet = true ∧ result = r.result := by
  refine h.invariant (I := fun r => ∀ result, r.driver = .returned result →
    r.isQuiet = true ∧ result = r.result) ?_ ?_
  · intro result hd
    rw [start_eq] at hd
    by_cases hfit : n.enumerator.concurrency ≤ Enumerator.maxPermits <;>
      simp [hfit] at hd
  · intro k r a t _ ih ha he result hd
    rcases he.returned hd with hbefore | ⟨hq, rfl⟩
    · exact absurd ha (not_allows_of_over (by rw [hbefore]; rfl)
        (ih result hbefore).1)
    · injection hd with hd
      exact ⟨hq, hd.symm⟩

/-- A run that has returned is complete. -/
theorem Way.complete (h : n.Way k r)
    {result : Except EnumerationError ResultSet}
    (hd : r.driver = .returned result) : n.Complete r :=
  ⟨⟨k, h⟩, fun _ => not_allows_of_over (by rw [hd]; rfl)
    (h.returned result hd).1⟩

/-- A run that needs more permits than there can be has crashed. -/
theorem Way.crashed (h : n.Way k r)
    (hbig : Enumerator.maxPermits < n.enumerator.concurrency) :
    r.driver = .crashed := by
  refine h.invariant (I := fun r => r.driver = .crashed) ?_ ?_
  · rw [start_eq]
    simp [Nat.not_le_of_lt hbig]
  · intro k r a t _ ih _ he
    rw [he.isOver (by rw [ih]; rfl), ih]

/-! ## Results -/

/-- A run returns options only when it has no first error and is not
cancelled. -/
theorem result_eq_ok {found : ResultSet} (h : r.result = .ok found) :
    r.firstError = none ∧ r.isCancelled = false ∧ found = ⟨r.found⟩ := by
  unfold Run.result at h
  cases he : r.firstError with
  | some e =>
    simp [he] at h
  | none =>
    cases hc : r.isCancelled with
    | true => simp [he, hc] at h
    | false =>
      simp only [he, hc] at h
      injection h with h
      exact ⟨rfl, rfl, h.symm⟩

/-- A run that returns options goes well to its end, over the whole
listing. -/
theorem Way.lists (h : n.Way k r) {found : ResultSet}
    (hd : r.driver = .returned (.ok found)) :
    n.Lists r.received ∧ r.Covers ∧ r.GoesWell := by
  obtain ⟨_, hcalm, _⟩ := result_eq_ok (h.returned _ hd).2.symm
  have hplace := h.paged.place
  rw [hd] at hplace
  obtain ⟨hends, hcovers⟩ := hplace hcalm
  exact ⟨⟨h.paged.yields, hends⟩, hcovers, hcalm, by rw [hd]; rfl⟩

/-- A run that returns options has received a listing that succeeds. -/
theorem Way.succeeds (h : n.Way k r) {found : ResultSet}
    (hd : r.driver = .returned (.ok found)) : n.Succeeds r.received := by
  obtain ⟨hlists, hcovers, hwell⟩ := h.lists hd
  have hworking := h.staffed.working hwell
  have hquiet := (h.returned _ hd).1
  refine ⟨hlists, h.paged.within, fun x hx => ?_⟩
  have hnone : r.awaited = [] := by simp [Run.awaited, hd]
  have hsub := hcovers x hx
  rw [hworking.employed, hnone, List.append_nil] at hsub
  obtain ⟨w, hw, rfl⟩ := List.mem_map.1 hsub
  have hfinished : w.stage = .finished := by
    simp only [Run.isQuiet, List.all_eq_true, decide_eq_true_eq] at hquiet
    exact hquiet w hw
  simpa [OnCourse, hfinished] using hworking.onCourse w hw

/-- A run that returns options returns those of the listing, each reference
once. -/
theorem Way.options_perm (h : n.Way k r) {found : ResultSet}
    (hd : r.driver = .returned (.ok found)) :
    found.options.Perm (n.options r.received) := by
  obtain ⟨_, hcovers, hwell⟩ := h.lists hd
  obtain ⟨hquiet, hresult⟩ := h.returned _ hd
  obtain ⟨_, _, rfl⟩ := result_eq_ok hresult.symm
  have hfound :=
    (h.staffed.working hwell).found_perm hquiet (by simp [Run.awaited, hd])
  have hsame : r.submitted.Perm (Page.references r.received).dedup := by
    rw [List.perm_ext_iff_of_nodup h.staffed.distinct (List.nodup_dedup _)]
    intro x
    rw [List.mem_dedup]
    exact ⟨h.paged.listed x, hcovers x⟩
  exact hfound.trans (hsame.filterMap _)

/-- A run over a listing that succeeds returns options, unless its caller
cancels it or it needs too many permits. -/
theorem Complete.returned_ok (h : n.Complete s)
    (hfit : n.enumerator.concurrency ≤ Enumerator.maxPermits)
    (hs : n.Succeeds pages) (hcaller : n.caller.isCancelled s.signals = false) :
    s.driver = .returned (.ok ⟨s.found⟩) := by
  obtain ⟨k, hway⟩ := h.1
  have hnone : s.firstError = none := by
    refine Option.eq_none_iff_forall_not_mem.2 fun e he => ?_
    exact hs.not_causes (hway.causes e he)
  have hcalm : s.isCancelled = false := by
    refine Bool.eq_false_iff.2 fun hc => ?_
    rcases hway.isCancelled_iff.1 hc with he | hc
    · rw [hnone] at he
      cases he
    · rw [hcaller] at hc
      cases hc
  have hplace := hway.paged.place
  have hover := h.isOver
  cases hd : s.driver with
  | returned result =>
    rw [(hway.returned result hd).2, Run.result, hnone, hcalm]
    rfl
  | crashed =>
    rw [hd] at hplace
    rcases hplace with hbig | ⟨hgo, hcrash⟩
    · exact absurd hfit (Nat.not_le_of_lt hbig)
    · have hlt := hs.lists.length_lt hway.paged.yields hgo
      have hvalue := hs.lists.answered _ _ (List.getElem?_eq_getElem hlt)
      rw [hcrash] at hvalue
      cases hvalue
  | dropped =>
    rw [hd] at hplace
    exact hplace.elim
  | turning | fetching | submitting | queueing | draining =>
    rw [hd] at hover; cases hover

/-- Listings with the same references, which end alike, have the same
options. -/
theorem perm_options {m : Enumeration} {pages' : List Page}
    (href : ∀ x, x ∈ Page.references pages ↔ x ∈ Page.references pages')
    (hlook : ∀ x ∈ Page.references pages, n.lookup x = m.lookup x) :
    (n.options pages).Perm (m.options pages') := by
  have hsame : (Page.references pages).dedup.Perm
      (Page.references pages').dedup := by
    rw [List.perm_ext_iff_of_nodup (List.nodup_dedup _) (List.nodup_dedup _)]
    simpa using href
  have halike : n.options pages =
      (Page.references pages).dedup.filterMap m.option :=
    List.filterMap_congr fun x hx => by
      simp only [option, hlook x (List.mem_dedup.1 hx)]
  rw [halike]
  exact hsame.filterMap _

/-! ## Exactness -/

/-- Over a finite listing every run comes to its end, and one that has returned
has come to it.  A run that has come to its end has returned options exactly
when the permits suffice, the listing is whole and within the page limit, every
lookup on it brought an item, and the caller was not cancelled meanwhile.  The
options are then those of the listing, each reference once; and wherever the
same references end alike, they are the same options in their order. -/
theorem returns_exactly (n : Enumeration) :
    (∀ pages, n.Lists pages → ∃ bound, ∀ k r, n.Way k r → k ≤ bound) ∧
      (∀ k r result, n.Way k r → r.driver = .returned result → n.Complete r) ∧
      ∀ s, n.Complete s →
        ((∃ found, s.driver = .returned (.ok found)) ↔
          n.enumerator.concurrency ≤ Enumerator.maxPermits ∧
            (∃ pages, n.Lists pages ∧
              (∀ limit ∈ n.enumerator.pageLimit, pages.length ≤ limit) ∧
              ∀ x ∈ Page.references pages, ∃ item, n.lookup x = .value item) ∧
            n.caller.isCancelled s.signals = false) ∧
        ∀ found, s.driver = .returned (.ok found) →
          (∀ pages, n.Lists pages →
            found.options.Perm
              ((Page.references pages).dedup.filterMap n.option)) ∧
          ∀ (m : Enumeration) (t : Run) (found' : ResultSet)
            (pages pages' : List Page),
            m.Complete t → t.driver = .returned (.ok found') →
            n.Lists pages → m.Lists pages' →
            (∀ x, x ∈ Page.references pages ↔ x ∈ Page.references pages') →
            (∀ x ∈ Page.references pages, n.lookup x = m.lookup x) →
            found.sorted = found'.sorted := by
  refine ⟨fun pages hl => ⟨n.effort pages n.start, fun k r h => h.length_le hl⟩,
    fun k r result h hd => h.complete hd, fun s hs =>
    ⟨⟨?_, ?_⟩, fun found hd => ⟨?_, ?_⟩⟩⟩
  · rintro ⟨found, hd⟩
    obtain ⟨k, hway⟩ := hs.1
    have hsucceeds := hway.succeeds hd
    obtain ⟨_, _, hcalm, _⟩ := hway.lists hd
    refine ⟨Nat.le_of_not_lt fun hbig => ?_,
      ⟨s.received, hsucceeds.lists, hsucceeds.within,
      hsucceeds.found⟩, Bool.eq_false_iff.2 fun hcaller => ?_⟩
    · rw [hway.crashed hbig] at hd
      cases hd
    · rw [hway.isCancelled_iff.2 (.inr hcaller)] at hcalm
      cases hcalm
  · rintro ⟨hfit, ⟨pages, hlists, hwithin, hfound⟩, hcaller⟩
    exact ⟨_, hs.returned_ok hfit ⟨hlists, hwithin, hfound⟩ hcaller⟩
  · intro pages hl
    obtain ⟨k, hway⟩ := hs.1
    have hperm := hway.options_perm hd
    rwa [hl.eq (hway.lists hd).1] at hperm
  · intro m t found' pages pages' ht hd' hl hl' href hlook
    obtain ⟨k, hway⟩ := hs.1
    obtain ⟨k', hway'⟩ := ht.1
    have hperm := hway.options_perm hd
    have hperm' := hway'.options_perm hd'
    rw [hl.eq (hway.lists hd).1] at hperm
    rw [hl'.eq (hway'.lists hd').1] at hperm'
    have hsame := (hperm.trans (perm_options href hlook)).trans hperm'.symm
    exact ResultSet.sorted_eq_of_perm hsame

/-! ## Enumerations of given pages -/

/-- An enumeration of some pages, whose caller has a handle of its own. -/
def ofPages (e : Enumerator) (pages : List Page)
    (lookup : String → Outcome EnrichedItem) :
    Enumeration where
  enumerator := e
  signals := { count := 1 }
  caller := ⟨0, []⟩
  answers k := pages[k]?.elim .crashed .value
  lookup := lookup
  sound := by decide
  issued := by decide

theorem lists_ofPages {e : Enumerator} {lookup : String → Outcome EnrichedItem}
    (hgo : ∀ p ∈ pages.dropLast, p.isLast = false)
    (hends : ∃ p ∈ pages.getLast?, p.isLast = true) :
    (ofPages e pages lookup).Lists pages where
  answered k p hp := by simp [ofPages, hp]
  goOn := hgo
  ends := hends

/-- Each of some actions can happen once those before it have. -/
def AllowsAll (n : Enumeration) (r : Run) : List Run.Action → Prop
  | [] => True
  | a :: later => n.Allows r a ∧ n.AllowsAll (r.act a) later

theorem Way.after {actions : List Run.Action} (h : n.Way k r)
    (ha : n.AllowsAll r actions) :
    n.Way (k + actions.length) (r.after actions) := by
  induction actions generalizing k r with
  | nil => exact h
  | cons a later ih =>
    obtain ⟨hfirst, hlater⟩ := ha
    rw [List.length_cons, Nat.add_comm later.length, ← Nat.add_assoc]
    exact ih (h.act hfirst) hlater

theorem allows_report {i : Nat} {x : String}
    (hw : r.workers[i]? = some ⟨x, .looking⟩) :
    n.Allows r (.report i (n.lookup x)) := by
  refine ⟨⟨x, hw⟩, fun w hw' => ?_⟩
  rw [hw] at hw'
  obtain rfl := Option.some.inj hw'
  rfl

/-- Two pages with three references, of which two are repeated. -/
def mixedPages : List Page :=
  [⟨["b", "a", "b"], some "next"⟩, ⟨["c", "a"], none⟩]

/-- One reference does not belong in the result. -/
def mixedLookup (x : String) : Outcome EnrichedItem :=
  if x = "c" then .value (.rejected x) else .value (.accepted x ("Set " ++ x) x)

/-- The enumeration of these pages with one permit. -/
def mixed : Enumeration :=
  ofPages { concurrency := 1, concurrency_pos := Nat.one_pos }
    mixedPages mixedLookup

/-- The same references on one page. -/
def togetherPages : List Page := [⟨["a", "c", "b", "c"], none⟩]

/-- Their enumeration with three permits and a page limit. -/
def together : Enumeration :=
  ofPages
    { concurrency := 3, pageLimit := some 1, concurrency_pos := Nat.succ_pos _ }
    togetherPages mixedLookup

/-- The first page is submitted as far as there is a permit.  Once its first
lookup has ended the driver goes on with the second reference, and passes over
the repeated one. -/
def mixedFirst : List Run.Action :=
  [.drive, .answer (.value ⟨["b", "a", "b"], some "next"⟩), .drive,
    .drive, .work 0,
    .report 0 (.value (.accepted "b" "Set b" "b")), .work 0, .drive,
    .drive, .drive]

/-- So it goes with the second page, and the run concludes. -/
def mixedSecond : List Run.Action :=
  [.drive, .answer (.value ⟨["c", "a"], none⟩), .drive, .work 1,
    .report 1 (.value (.accepted "a" "Set a" "a")), .work 1, .drive, .drive,
    .drive, .work 2, .report 2 (.value (.rejected "c")), .work 2, .drive]

/-- The end of that run. -/
def mixedEnd : Run := (mixed.start.after mixedFirst).after mixedSecond

theorem mixed_way : mixed.Way 23 mixedEnd := by
  have hfirst : mixed.AllowsAll mixed.start mixedFirst :=
    ⟨⟨rfl, trivial⟩, ⟨⟨⟨none, rfl⟩, rfl⟩, rfl⟩, ⟨rfl, trivial⟩, ⟨rfl, trivial⟩,
      ⟨rfl, trivial⟩, allows_report (x := "b") rfl, ⟨rfl, trivial⟩,
      ⟨rfl, trivial⟩, ⟨rfl, trivial⟩, ⟨rfl, trivial⟩, trivial⟩
  have hsecond : mixed.AllowsAll (mixed.start.after mixedFirst) mixedSecond :=
    ⟨⟨rfl, trivial⟩, ⟨⟨⟨some "next", rfl⟩, rfl⟩, rfl⟩, ⟨rfl, trivial⟩,
      ⟨rfl, trivial⟩,
      allows_report (x := "a") rfl, ⟨rfl, trivial⟩, ⟨rfl, trivial⟩,
      ⟨rfl, trivial⟩,
      ⟨rfl, trivial⟩, ⟨rfl, trivial⟩, allows_report (x := "c") rfl,
      ⟨rfl, trivial⟩, ⟨rfl, trivial⟩, trivial⟩
  exact (Way.start.after hfirst).after hsecond

theorem sorted_mixed :
    (⟨[⟨"Set b", "b"⟩, ⟨"Set a", "a"⟩]⟩ : ResultSet).sorted =
      [⟨"Set a", "a"⟩, ⟨"Set b", "b"⟩] := by
  rw [ResultSet.sorted_eq_of_perm (t := ⟨[⟨"Set a", "a"⟩, ⟨"Set b", "b"⟩]⟩)
    (.swap _ _ _)]
  exact List.mergeSort_of_pairwise (by decide +kernel)

/-- A run over the two pages waits for its permit and returns the options of
both accepted references.  Every complete run over the one page returns the same
ones in their order, unless its caller is cancelled. -/
theorem returns_exactly_mixed :
    (mixed.start.after (mixedFirst.take 4)).driver =
        .queueing "a" ["b"] (some "next") ∧
      mixed.Complete mixedEnd ∧
      ∃ found, mixedEnd.driver = .returned (.ok found) ∧
        found.options.Perm
          ((Page.references mixedPages).dedup.filterMap mixed.option) ∧
        found.sorted = [⟨"Set a", "a"⟩, ⟨"Set b", "b"⟩] ∧
        ∀ t, together.Complete t →
          together.caller.isCancelled t.signals = false →
          ∃ found', t.driver = .returned (.ok found') ∧
            found'.sorted = found.sorted := by
  have hd : mixedEnd.driver = .returned
      (.ok ⟨[⟨"Set b", "b"⟩, ⟨"Set a", "a"⟩]⟩) := rfl
  have hcomplete := mixed_way.complete hd
  have hlists : mixed.Lists mixedPages :=
    lists_ofPages (by decide) ⟨_, rfl, rfl⟩
  have htogether : together.Lists togetherPages :=
    lists_ofPages (by decide) ⟨_, rfl, rfl⟩
  have hitems : ∀ x ∈ Page.references togetherPages, ∃ item, together.lookup x =
      .value item := by
    intro x _
    unfold together ofPages mixedLookup
    dsimp only
    split <;> exact ⟨_, rfl⟩
  obtain ⟨hperm, hsame⟩ := ((returns_exactly mixed).2.2 _ hcomplete).2 _ hd
  refine ⟨rfl, hcomplete, _, hd, hperm _ hlists, sorted_mixed,
    fun t ht hcalm => ?_⟩
  obtain ⟨found', hd'⟩ := ((returns_exactly together).2.2 t ht).1.2
    ⟨by decide, ⟨_, htogether, by decide, hitems⟩, hcalm⟩
  refine ⟨found', hd', (hsame together t found' _ _ ht hd' hlists htogether
    ?_ ?_).symm⟩
  · intro x
    simp only [Page.references, mixedPages, togetherPages, List.flatMap_cons,
      List.flatMap_nil, List.mem_append, List.mem_cons, List.not_mem_nil]
    tauto
  · exact fun _ _ => rfl

/-- Over an empty page a run returns no options when it needs more permits than
there can be: it crashes before it has begun. -/
theorem not_returned_of_many_permits :
    ∃ (n : Enumeration) (s : Run), 0 < n.enumerator.concurrency ∧ n.Complete s ∧
      (∃ pages, n.Lists pages ∧
        (∀ limit ∈ n.enumerator.pageLimit, pages.length ≤ limit) ∧
        ∀ x ∈ Page.references pages, ∃ item, n.lookup x = .value item) ∧
      n.caller.isCancelled s.signals = false ∧
      ¬∃ found, s.driver = .returned (.ok found) := by
  let n :=
    ofPages { concurrency := Enumerator.maxPermits + 1 } [⟨[], none⟩] fun _ =>
      .crashed
  have hd : n.start.driver = .crashed := Way.start.crashed (Nat.lt_succ_self _)
  have hcomplete : n.Complete n.start :=
    ⟨⟨0, .start⟩, fun _ => not_allows_of_over (by rw [hd]; rfl)
      (by rw [start_eq]; rfl)⟩
  refine ⟨n, n.start, Nat.succ_pos _, hcomplete,
    ⟨_, lists_ofPages (by simp) ⟨_, rfl, rfl⟩,
      by simp [n, ofPages], by simp [Page.references]⟩, rfl, ?_⟩
  rintro ⟨found, hfound⟩
  rw [hd] at hfound
  cases hfound

end CloudAccess.Enumeration
