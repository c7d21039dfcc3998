import CloudAccess.Proofs.Enumeration.Ways

/-!
# The pages of a run

What a run has received, and how far its driver has come with it.

* `Yields n ps` says that the first answers of an enumeration are the pages
  `ps`, of which all but the last one have a next page; `Lists n ps` says that
  the last one has none, so that `ps` is the whole listing.
* `yields_prefix` says that pages received so far are the first ones of the
  listing, and `length_lt` that there is one more as long as all of them have
  a next page.
* `Paged` is the invariant of the driver: the pages it has received, the page
  limit, and for each place at which it can be, which references it has
  submitted.  `Way.paged` says that it holds on every way.
-/

namespace CloudAccess

/-- The references on some pages, in their order and with repetitions. -/
def Page.references (pages : List Page) : List String := pages.flatMap (·.items)

theorem Page.references_append (pages : List Page) (p : Page) :
    Page.references (pages ++ [p]) = Page.references pages ++ p.items := by
  simp [Page.references]

namespace Enumeration

/-- The first answers are these pages, and all but the last have a next
page. -/
structure Yields (n : Enumeration) (pages : List Page) : Prop where
  answered : ∀ k p, pages[k]? = some p → n.answers k = .value p
  goOn : ∀ p ∈ pages.dropLast, p.isLast = false

/-- These pages are the whole listing. -/
structure Lists (n : Enumeration) (pages : List Page) :
    Prop extends n.Yields pages where
  ends : ∃ p ∈ pages.getLast?, p.isLast = true

variable {n : Enumeration} {pages received : List Page}

/-! ## Pages received and pages of the listing -/

/-- At one place there is one page. -/
theorem Yields.page_eq (h : n.Yields pages) (h' : n.Yields received) {k : Nat}
    {p q : Page} (hp : pages[k]? = some p) (hq : received[k]? = some q) :
    p = q := by
  have heq := (h.answered k p hp).symm.trans (h'.answered k q hq)
  injection heq

/-- A page that is not the last one received has a next page. -/
theorem Yields.isLast_eq_false (h : n.Yields pages) {k : Nat} {p : Page}
    (hp : pages[k]? = some p) (hk : k + 1 < pages.length) :
    p.isLast = false := by
  refine h.goOn p (List.mem_of_getElem? (i := k) ?_)
  rw [List.getElem?_dropLast, if_pos (by omega), hp]

/-- The last page of a listing stands at its end. -/
theorem Lists.getElem?_last (h : n.Lists pages) :
    ∃ p, pages[pages.length - 1]? = some p ∧ p.isLast = true := by
  obtain ⟨p, hp, hlast⟩ := h.ends
  rw [Option.mem_def, List.getLast?_eq_getElem?] at hp
  exact ⟨p, hp, hlast⟩

theorem Lists.length_pos (h : n.Lists pages) : 0 < pages.length := by
  obtain ⟨p, hp, _⟩ := h.getElem?_last
  obtain ⟨hlt, _⟩ := List.getElem?_eq_some_iff.1 hp
  omega

/-- No run receives more pages than the listing has. -/
theorem Lists.length_le (h : n.Lists pages) (hr : n.Yields received) :
    received.length ≤ pages.length := by
  obtain ⟨p, hp, hlast⟩ := h.getElem?_last
  refine Nat.le_of_not_lt fun hlt => ?_
  have hpos := h.length_pos
  obtain ⟨q, hq⟩ : ∃ q, received[pages.length - 1]? = some q :=
    ⟨_, List.getElem?_eq_getElem (by omega)⟩
  have hgoes := hr.isLast_eq_false hq (by omega)
  rw [← h.page_eq hr hp hq, hlast] at hgoes
  cases hgoes

/-- As long as every page received has a next page, the listing has one
more. -/
theorem Lists.length_lt (h : n.Lists pages) (hr : n.Yields received)
    (hgo : ∀ p ∈ received, p.isLast = false) :
    received.length < pages.length := by
  have hle := h.length_le hr
  obtain ⟨p, hp, hlast⟩ := h.getElem?_last
  refine Nat.lt_of_not_le fun hge => ?_
  have hpos := h.length_pos
  obtain ⟨q, hq⟩ : ∃ q, received[pages.length - 1]? = some q :=
    ⟨_, List.getElem?_eq_getElem (by omega)⟩
  have hgoes := hgo q (List.mem_of_getElem? hq)
  rw [← h.page_eq hr hp hq, hlast] at hgoes
  cases hgoes

/-- The pages received so far are the first ones of the listing. -/
theorem Lists.yields_prefix (h : n.Lists pages) (hr : n.Yields received) :
    received <+: pages := by
  have hle := h.length_le hr
  rw [List.prefix_iff_getElem?]
  intro k hk
  obtain ⟨p, hp⟩ : ∃ p, pages[k]? = some p :=
    ⟨_, List.getElem?_eq_getElem (by omega)⟩
  rw [hp, h.page_eq hr hp (List.getElem?_eq_getElem hk)]

/-- A listing is the only one of its enumeration. -/
theorem Lists.eq (h : n.Lists pages) (h' : n.Lists received) :
    received = pages :=
  (h.yields_prefix h'.toYields).eq_of_length_le (h'.length_le h.toYields)

/-- A reference on pages received so far is on the listing. -/
theorem Lists.mem_references (h : n.Lists pages) (hr : n.Yields received)
    {x : String} (hx : x ∈ Page.references received) :
    x ∈ Page.references pages := by
  obtain ⟨rest, rfl⟩ := h.yields_prefix hr
  simp only [Page.references, List.flatMap_append, List.mem_append] at hx ⊢
  exact .inl hx

/-! ## The places of the driver -/

end Enumeration

namespace Run

/-- Every reference received is submitted. -/
def Covers (r : Run) : Prop := ∀ x ∈ Page.references r.received, x ∈ r.submitted

/-- The driver is on the last page received, with `items` left on it.  What
stands before them, on this page or an earlier one, is submitted. -/
def OnPage (r : Run) (items : List String) (next : Option String) : Prop :=
  ∃ earlier p passed,
    r.received = earlier ++ [p] ∧ p.nextCursor = next ∧
    p.items = passed ++ items ∧
      (∀ q ∈ earlier, q.isLast = false) ∧
      ∀ x ∈ Page.references earlier ++ passed, x ∈ r.submitted

variable {r : Run} {x : String} {items : List String} {next : Option String}

/-- The next reference on a page is one of those received. -/
theorem OnPage.mem_references (h : r.OnPage (x :: items) next) :
    x ∈ Page.references r.received := by
  obtain ⟨earlier, p, passed, hr, _, hp, _, _⟩ := h
  rw [hr, Page.references_append, hp]
  simp

/-- The driver passes a reference that is submitted. -/
theorem OnPage.pass (h : r.OnPage (x :: items) next) (hx : x ∈ r.submitted) :
    r.OnPage items next := by
  obtain ⟨earlier, p, passed, hr, hnext, hp, hgo, hsub⟩ := h
  refine ⟨earlier, p, passed ++ [x], hr, hnext,
    by simp [hp], hgo, fun y hy => ?_⟩
  rw [← List.append_assoc, List.mem_append, List.mem_singleton] at hy
  rcases hy with hy | rfl
  · exact hsub y hy
  · exact hx

/-- Further references may be submitted meanwhile. -/
theorem OnPage.mono {t : Run} (h : r.OnPage items next)
    (hr : t.received = r.received) (hs : ∀ y ∈ r.submitted, y ∈ t.submitted) :
    t.OnPage items next := by
  obtain ⟨earlier, p, passed, hrec, hnext, hp, hgo, hsub⟩ := h
  exact ⟨earlier, p, passed, hr.trans hrec, hnext, hp, hgo, fun y hy =>
    hs y (hsub y hy)⟩

/-- The driver submits the next reference on the page. -/
theorem OnPage.submit {t : Run} (h : r.OnPage (x :: items) next)
    (hr : t.received = r.received) (hs : t.submitted = r.submitted ++ [x]) :
    t.OnPage items next :=
  (h.mono hr fun y hy => hs ▸ List.mem_append_left _ hy).pass (by simp [hs])

/-- At the end of a page every reference received is submitted. -/
theorem OnPage.covers (h : r.OnPage [] next) : r.Covers := by
  obtain ⟨earlier, p, passed, hr, _, hp, _, hsub⟩ := h
  intro y hy
  rw [hr, Page.references_append, hp, List.append_nil] at hy
  exact hsub y hy

/-- The last page received is the one whose cursor the driver has. -/
theorem OnPage.getLast? (h : r.OnPage items next) :
    ∃ p ∈ r.received.getLast?, p.isLast = next.isNone := by
  obtain ⟨earlier, p, passed, hr, hnext, _⟩ := h
  exact ⟨p, by simp [hr], by rw [Page.isLast, hnext]⟩

/-- When the last page received has a next page, all of them have. -/
theorem OnPage.goOn {cursor : String} (h : r.OnPage items (some cursor)) :
    ∀ p ∈ r.received, p.isLast = false := by
  obtain ⟨earlier, p, passed, hr, hnext, _, hgo, _⟩ := h
  intro q hq
  rw [hr, List.mem_append, List.mem_singleton] at hq
  rcases hq with hq | rfl
  · exact hgo q hq
  · simp [Page.isLast, hnext]

end Run

namespace Enumeration

/-- What holds at each place of the driver.  Once the driver waits for the
workers of a run that is not cancelled, it has received the whole listing; and
it crashes only at the start or on a fetch that crashes. -/
def Place (n : Enumeration) (r : Run) : Run.Driver → Prop
  | .turning _ =>
    r.pages = r.received.length ∧
      (∀ p ∈ r.received, p.isLast = false) ∧ r.Covers
  | .fetching _ =>
    r.pages = r.received.length ∧
      (∀ p ∈ r.received, p.isLast = false) ∧ r.Covers ∧
      ∀ limit ∈ n.enumerator.pageLimit, r.pages < limit
  | .submitting items next | .queueing _ items next =>
    r.pages = r.received.length ∧ r.OnPage items next
  | .draining | .returned _ =>
    r.isCancelled = false → (∃ p ∈ r.received.getLast?, p.isLast = true) ∧
      r.Covers
  | .crashed =>
    Enumerator.maxPermits < n.enumerator.concurrency ∨
      (∀ p ∈ r.received, p.isLast = false) ∧
      n.answers r.received.length = .crashed
  | .dropped => False

/-- The invariant of the driver. -/
structure Paged (n : Enumeration) (r : Run) : Prop where
  yields : n.Yields r.received
  within : ∀ limit ∈ n.enumerator.pageLimit, r.received.length ≤ limit
  listed : ∀ x ∈ r.submitted, x ∈ Page.references r.received
  place : n.Place r r.driver

variable {n : Enumeration} {k : Nat} {r t : Run} {a : Run.Action}

/-- What the others do leaves the driver at its place. -/
theorem Place.frame {d : Run.Driver} (h : n.Place r d)
    (hr : t.received = r.received) (hs : t.submitted = r.submitted)
    (hp : t.pages = r.pages)
    (hc : t.isCancelled = false → r.isCancelled = false) : n.Place t d := by
  cases d <;> simp only [Place, Run.Covers, hr, hs, hp] at h ⊢
  case submitting => exact ⟨h.1, h.2.mono hr (by simp [hs])⟩
  case queueing => exact ⟨h.1, h.2.mono hr (by simp [hs])⟩
  case draining => exact fun hn => h (hc hn)
  case returned => exact fun hn => h (hc hn)
  all_goals exact h

/-- A cancelled run may end paging anywhere. -/
theorem Place.leave (hc : r.isCancelled = true) :
    n.Place r.leave r.leave.driver := by
  have hd : r.leave.driver = .draining := by rw [Run.leave_eq]
  rw [hd]
  intro hn
  rw [Run.isCancelled_leave, hc] at hn
  cases hn

/-- The pages received once another one is. -/
theorem Yields.append {p : Page} (h : n.Yields r.received)
    (hgo : ∀ q ∈ r.received, q.isLast = false)
    (hp : n.answers r.received.length = .value p) :
    n.Yields (r.received ++ [p]) := by
  refine ⟨fun k q hq => ?_, by simpa using hgo⟩
  rcases Nat.lt_trichotomy k r.received.length with hk | rfl | hk
  · rw [List.getElem?_append_left hk] at hq
    exact h.answered k q hq
  · rw [List.getElem?_concat_length] at hq
    cases hq
    exact hp
  · rw [List.getElem?_eq_none (by simp; omega)] at hq
    cases hq

/-- The driver reaches another place with the pages it has. -/
theorem Paged.move (h : n.Paged r) (hr : t.received = r.received)
    (hs : ∀ x ∈ t.submitted, x ∈ Page.references r.received)
    (hp : n.Place t t.driver) : n.Paged t :=
  ⟨hr ▸ h.yields, hr ▸ h.within, hr ▸ hs, hp⟩

/-- A cancelled run leaves paging with the pages it has. -/
theorem Paged.leave (h : n.Paged r) (hc : t.isCancelled = true)
    (hr : t.received = r.received)
    (hs : ∀ x ∈ t.submitted, x ∈ Page.references r.received) :
    n.Paged t.leave :=
  h.move (by rw [Run.leave_eq, hr])
    (by simpa [Run.leave_eq] using hs) (.leave hc)

/-- A reference that the driver comes upon is submitted with its page. -/
theorem Paged.submit {x : String} {items : List String} {next : Option String}
    (h : n.Paged r) (hpage : r.OnPage (x :: items) next) :
    ∀ y ∈ r.submitted ++ [x], y ∈ Page.references r.received := by
  intro y hy
  rw [List.mem_append, List.mem_singleton] at hy
  rcases hy with hy | rfl
  · exact h.listed y hy
  · exact hpage.mem_references

/-- The driver gets the next page when that is not past the limit. -/
theorem Paged.receive {p : Page} (h : n.Paged r)
    (hgo : ∀ q ∈ r.received, q.isLast = false)
    (hp : n.answers r.received.length = .value p)
    (hwithin : ∀ limit ∈ n.enumerator.pageLimit, r.received.length < limit)
    (hr : t.received = r.received ++ [p]) (hs : t.submitted = r.submitted)
    (hplace : n.Place t t.driver) : n.Paged t := by
  refine ⟨hr ▸ h.yields.append hgo hp, fun limit hin => ?_,
    fun x hx => ?_, hplace⟩
  · have := hwithin limit hin
    rw [hr]
    simp
    omega
  · rw [hr, Page.references_append, List.mem_append]
    exact .inl (h.listed x (hs ▸ hx))

/-- Every effect of an allowed action keeps the invariant. -/
theorem Paged.step (h : n.Paged r) (hway : n.Way k r) (ha : n.Allows r a)
    (he : r.Effect a t) : n.Paged t := by
  by_cases hdrivers : a.isDrivers = false
  · obtain ⟨hd, hr, hs, hp, _⟩ := he.paging hdrivers
    refine h.move hr (hs ▸ h.listed) ?_
    rw [hd]
    exact h.place.frame hr hs hp he.calm
  have hplace := h.place
  cases he with
  | idle hidle => exact absurd ha.1 hidle
  | exceed =>
    exact h.leave (by simp) (by rw [Run.fail_eq])
      (by simpa [Run.fail_eq] using h.listed)
  | ask hd hlimit =>
    rw [hd] at hplace
    rw [hway.enumerator] at hlimit
    exact h.move rfl h.listed ⟨hplace.1, hplace.2.1, hplace.2.2, hlimit⟩
  | quit _ hc => exact h.leave hc rfl h.listed
  | complete hd =>
    rw [hd] at hplace
    refine h.move (by rw [Run.leave_eq])
      (by simpa [Run.leave_eq] using h.listed) ?_
    rw [Run.leave_eq]
    exact fun _ => ⟨by simpa using hplace.2.getLast?, hplace.2.covers⟩
  | next hd =>
    rw [hd] at hplace
    exact h.move rfl h.listed ⟨hplace.1, hplace.2.goOn, hplace.2.covers⟩
  | pass hd hx =>
    rw [hd] at hplace
    exact h.move rfl h.listed ⟨hplace.1, hplace.2.pass hx⟩
  | refuse hd _ hc =>
    rw [hd] at hplace
    exact h.leave hc rfl (h.submit hplace.2)
  | employ hd | queue hd =>
    rw [hd] at hplace
    exact h.move rfl (h.submit hplace.2) ⟨hplace.1, hplace.2.submit rfl rfl⟩
  | grant hd | conclude hd =>
    rw [hd] at hplace
    exact h.move rfl h.listed hplace
  | fetchCrashed hd =>
    rw [hd] at hplace
    refine h.move rfl h.listed (.inr ⟨hplace.2.1, ?_⟩)
    exact hplace.1 ▸ ha.2.symm
  | fetchFailed =>
    exact h.leave (by simp) (by rw [Run.fail_eq])
      (by simpa [Run.fail_eq] using h.listed)
  | @fetched cursor p hd =>
    rw [hd] at hplace
    obtain ⟨hpages, hgo, hcovers, hlimit⟩ := hplace
    refine h.receive hgo (hpages ▸ ha.2.symm) (hpages ▸ hlimit) rfl rfl
      ⟨by simp [hpages], ?_⟩
    exact ⟨r.received, p, [], rfl, rfl, rfl, hgo,
      by simpa [Run.Covers] using hcovers⟩
  | drop => exact ha.2.elim
  | _ => simp [Run.Action.isDrivers] at hdrivers

/-- The invariant of the driver holds on every way. -/
theorem Way.paged (h : n.Way k r) : n.Paged r := by
  refine h.invariant (I := n.Paged) ?_ fun _ _ _ _ hway ih ha he =>
    ih.step hway ha he
  have hplace : n.Place n.start n.start.driver := by
    rw [start_eq]
    by_cases hfit : n.enumerator.concurrency ≤ Enumerator.maxPermits
    · simp [hfit, Place, Run.Covers, Page.references]
    · simpa [hfit, Place] using .inl (Nat.lt_of_not_le hfit)
  refine ⟨?_, ?_, ?_, hplace⟩
  · rw [start_eq]
    exact ⟨by simp, by simp⟩
  · simp [start_eq]
  · simp [start_eq]

end Enumeration

end CloudAccess
