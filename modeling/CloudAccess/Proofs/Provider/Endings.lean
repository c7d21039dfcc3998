import CloudAccess.Proofs.Provider.Moves

/-!
# What an enumeration of the permission sets comes to

What the answers of a directory say about the enumeration that they were given
to, in whatever order its tasks take their steps.

* `Unfailing` says that no call fails that is made when nothing is stopped, and
  `Exact` that options are those of the managed permission sets, one for each.
  `Served.returned_ok` says that options that are returned are so, and that no
  call has failed then.
* `Blames` says that an error tells of a call that did not bring a page, a
  description or tags.  `Served.returned_error` says that an error that is
  returned does, `Served.crashed` that an enumeration crashes on a call only,
  and `Unfailing.not_blames` that there is nothing to tell of when no call
  fails.
-/

namespace CloudAccess

namespace Outcome

variable {α β : Type} {o : Outcome α}

/-- The error of an enumeration in which a lookup ends so. -/
def failure (x : String) : Outcome α → Option EnumerationError
  | .value _ => none
  | .failed e => some (.enrichment x e)
  | .crashed => some .workerPanicked

theorem failure_eq_none (x : String) (h : o.isValue = true) :
    o.failure x = none := by
  cases o with
  | value => rfl
  | failed | crashed => cases h

theorem failure_without {x : String} {ended : α → Outcome β}
    (h : o.isValue = false) : (o.without ended).failure x = o.failure x := by
  cases o with
  | value => cases h
  | failed | crashed => rfl

end Outcome

namespace Serving

variable {v : Serving} {s : DirectoryScene} {heard : Heard} {r : Run}
  {x : String} {found : ResultSet} {err : EnumerationError}

/-- How the lookup of a permission set ends when it is not stopped. -/
def verdict (v : Serving) (x : String) : Outcome EnrichedItem :=
  v.directory.verdict x (v.tags x)

/-- No page of permission sets fails, no permission set listed fails to be
described, and no page of tags fails that is asked for. -/
structure Unfailing (v : Serving) : Prop where
  listing : ∀ o ∈ v.listing, o.isValue = true
  described : ∀ x, Listed v.listing x →
    (v.directory.description x).outcome.isValue = true
  tagged : ∀ x, Listed v.listing x →
    ∀ o ∈ consulted (v.tags x), o.isValue = true

/-- Options for the permission sets listed that have the tag on some page, and
one for each: its value is the permission set, and its label that of its
description. -/
structure Exact (v : Serving) (found : ResultSet) : Prop where
  distinct : (found.options.map (·.value)).Nodup
  mem_iff : ∀ o, o ∈ found.options ↔ ∃ x p, Listed v.listing x ∧
    (v.directory.description x).outcome = .value p ∧ Carries (v.tags x) ∧
    o = ⟨p.label, x⟩

/-- An error tells of a call that ended so, or of more pages than the limit
allows. -/
inductive Blames (v : Serving) : EnumerationError → Prop
  | pageFetch {k : Nat} {planned : Outcome Page} {e : RemoteError}
      (hk : v.listing[k]? = some planned)
      (ho : Ends v.credentials planned (.failed e)) :
      Blames v (.pageFetch (k + 1) e)
  | pageLimitExceeded {limit : Nat}
      (hlimit : v.enumerator.pageLimit = some limit)
      (hlt : limit < v.listing.length) : Blames v (.pageLimitExceeded limit)
  | description {x : String} {o : Outcome PermissionSet}
      {err : EnumerationError} (hx : Listed v.listing x)
      (ho : Ends v.credentials (v.directory.description x).outcome o)
      (herr : o.failure x = some err) : Blames v err
  | tags {x : String} {p : PermissionSet} {planned o : Outcome TagPage}
      {err : EnumerationError} (hx : Listed v.listing x)
      (hp : (v.directory.description x).outcome = .value p)
      (hasked : planned ∈ consulted (v.tags x))
      (ho : Ends v.credentials planned o) (herr : o.failure x = some err) :
      Blames v err

/-- A lookup that fails does so on the description, or on a page of tags that
was asked for. -/
theorem blames_of_ends {o : Outcome EnrichedItem} (hx : Listed v.listing x)
    (ho : Ends v.credentials (v.verdict x) o) (herr : o.failure x = some err) :
    v.Blames err := by
  rcases ho with rfl | ⟨hsome, -⟩
  · rw [verdict, Directory.verdict, CloudAccess.verdict] at herr
    cases hp : (v.directory.description x).outcome with
    | failed e | crashed =>
      rw [Outcome.failure_without (by rw [hp]; rfl)] at herr
      exact .description hx (.inl rfl) herr
    | value p =>
      rw [hp, Outcome.without] at herr
      have hno : (tagVerdict x p.label (v.tags x)).isValue = false := by
        cases htags : tagVerdict x p.label (v.tags x) with
        | value item => rw [htags] at herr; cases herr
        | failed e => rfl
        | crashed => rfl
      obtain ⟨planned, hasked, hfails, hsame⟩ :=
        tagVerdict_eq_of_not_isValue hno
      refine .tags hx hp hasked (.inl rfl) ?_
      rw [← herr, hsame, Outcome.failure_without hfails]
  · cases o with
    | value item => cases herr
    | failed e =>
      exact .description (o := .failed e) hx (.inr ⟨hsome, rfl⟩) herr
    | crashed => exact .description (o := .crashed) hx (.inr ⟨hsome, rfl⟩) herr

/-! ## Pages received -/

/-- The pages that a run was told are those of the listing. -/
theorem Told.answered (h : v.Told heard r) {k : Nat} {p : Page}
    (hk : heard.answers k = some (.value p)) :
    v.listing[k]? = some (.value p) := by
  obtain ⟨planned, hplanned, ho⟩ := h.answers k _ hk
  rw [hplanned, ho.value]

/-- Where what was not told ends in a crash, pages were told. -/
theorem Told.page (h : v.Told heard r) {lookup : String → Outcome EnrichedItem}
    {k : Nat} {p : Page}
    (hk : (v.base.overlay heard (fun _ => .crashed) lookup).answers k =
      .value p) : v.listing[k]? = some (.value p) := by
  refine h.answered ?_
  simp only [Enumeration.overlay] at hk
  cases htold : heard.answers k with
  | none => rw [htold] at hk; cases hk
  | some o =>
    rw [htold] at hk
    exact congrArg some hk

/-- A whole listing received is the listing. -/
theorem Told.listing_eq (h : v.Told heard r)
    {lookup : String → Outcome EnrichedItem} {pages : List Page}
    (hl : (v.base.overlay heard (fun _ => .crashed) lookup).Lists pages) :
    v.listing = pages.map .value := by
  obtain ⟨p, hp, hlast⟩ := hl.getElem?_last
  have hpos := hl.length_pos
  have hat := h.page (hl.answered _ p hp)
  have hlength : v.listing.length = pages.length - 1 + 1 := by
    refine Chain.length_eq v.lists hat fun page hpage => ?_
    injection hpage with hpage
    rw [← hpage]
    simpa [Page.isLast] using hlast
  refine List.ext_getElem? fun k => ?_
  rw [List.getElem?_map]
  cases hk : pages[k]? with
  | some q => exact h.page (hl.answered k q hk)
  | none =>
    rw [List.getElem?_eq_none_iff] at hk
    exact List.getElem?_eq_none (by omega)

/-- A permission set is listed when it is on one of these pages. -/
theorem listed_map_value {pages : List Page} :
    Listed (pages.map .value) x ↔ x ∈ Page.references pages := by
  simp [Listed, Page.references]

/-! ## Options -/

/-- What was reported in a run that is not cancelled is how the lookup ends that
is not stopped. -/
theorem Told.verdict (h : v.Told heard r) (hcalm : r.isCancelled = false)
    {item : EnrichedItem} (hx : heard.reports x = some (.value item)) :
    v.verdict x = .value item := by
  obtain ⟨_, ho | ⟨hc, _⟩⟩ := h.reports x _ hx
  · exact ho.value
  · rw [hcalm] at hc
    cases hc

/-- The option of a permission set that was looked up: there is one when it is
managed. -/
theorem option_eq_some_iff {item : EnrichedItem} (h : v.verdict x = .value item)
    (o : ArgOption) :
    item.option = some o ↔ ∃ p, (v.directory.description x).outcome = .value p ∧
      Carries (v.tags x) ∧ o = ⟨p.label, x⟩ := by
  obtain ⟨p, hp, _, hitem⟩ := verdict_eq_value_iff.1 h
  rw [hp]
  rcases hitem with ⟨hcarries, rfl⟩ | ⟨hnot, rfl⟩
  · simp [EnrichedItem.accepted, hcarries, eq_comm]
  · simp [EnrichedItem.rejected, hnot]

/-- Options for permission sets without repetitions have different values, when
each has its permission set as its value. -/
theorem nodup_values {references : List String}
    {option : String → Option ArgOption} (hnodup : references.Nodup)
    (hvalue : ∀ x o, option x = some o → o.value = x) :
    ((references.filterMap option).map (·.value)).Nodup := by
  rw [List.map_filterMap]
  refine hnodup.filterMap fun x y value hx hy => ?_
  obtain ⟨o, ho, rfl⟩ := Option.map_eq_some_iff.1 hx
  obtain ⟨o', ho', hsame⟩ := Option.map_eq_some_iff.1 hy
  rw [← hvalue x o ho, ← hvalue y o' ho', hsame]

/-- An enumeration that returns options met no failing call, and returns one
option for each permission set listed that is managed. -/
theorem Served.returned_ok (h : v.Served s)
    (hd : s.run.driver = .returned (.ok found)) :
    v.Unfailing ∧ v.Exact found := by
  obtain ⟨heard, htold⟩ := h.told
  obtain ⟨k, hway⟩ := htold.tale.way (fun _ => .crashed) (fun _ => .crashed)
  have hsucceeds := hway.succeeds hd
  obtain ⟨_, _, hcalm, _⟩ := hway.lists hd
  have hlisting := htold.listing_eq hsucceeds.lists
  have hlisted (x : String) : Listed v.listing x ↔
      x ∈ Page.references s.run.received := by
    rw [hlisting, listed_map_value]
  -- how a lookup has ended is its verdict, for it was not stopped
  have hreport {x : String} {item : EnrichedItem}
      (hx : (v.base.overlay heard (fun _ => .crashed) fun _ =>
        .crashed).lookup x = .value item) : v.verdict x = .value item := by
    refine htold.verdict hcalm ?_
    simp only [Enumeration.overlay] at hx
    cases hreports : heard.reports x with
    | none => rw [hreports] at hx; cases hx
    | some o =>
      rw [hreports] at hx
      exact congrArg some hx
  have hoption (x : String) (o : ArgOption)
      (ho : (v.base.overlay heard (fun _ => .crashed) fun _ => .crashed).option
        x = some o) :
      ∃ p, (v.directory.description x).outcome = .value p ∧ Carries (v.tags x) ∧
        o = ⟨p.label, x⟩ := by
    unfold Enumeration.option at ho
    split at ho
    · rename_i item hitem
      exact (option_eq_some_iff (hreport hitem) o).1 ho
    all_goals cases ho
  have hitem {x : String} (hx : Listed v.listing x) :
      ∃ item, (v.base.overlay heard (fun _ => .crashed) fun _ =>
        .crashed).lookup x = .value item := hsucceeds.found x ((hlisted x).1 hx)
  have hperm := hway.options_perm hd
  refine ⟨⟨fun o ho => ?_, fun x hx => ?_, fun x hx => ?_⟩, ⟨?_, fun o => ?_⟩⟩
  · rw [hlisting] at ho
    obtain ⟨p, _, rfl⟩ := List.mem_map.1 ho
    rfl
  · obtain ⟨item, hlookup⟩ := hitem hx
    obtain ⟨p, hp, _⟩ := verdict_eq_value_iff.1 (hreport hlookup)
    rw [hp]
    rfl
  · obtain ⟨item, hlookup⟩ := hitem hx
    obtain ⟨_, _, htags, _⟩ := verdict_eq_value_iff.1 (hreport hlookup)
    exact htags
  · refine (hperm.map _).nodup_iff.2
      (nodup_values (List.nodup_dedup _) fun x o ho => ?_)
    obtain ⟨p, _, _, rfl⟩ := hoption x o ho
    rfl
  · rw [hperm.mem_iff, Enumeration.options, List.mem_filterMap]
    constructor
    · rintro ⟨x, hx, ho⟩
      obtain ⟨p, hp, hcarries, heq⟩ := hoption x o ho
      exact ⟨x, p, (hlisted x).2 (List.mem_dedup.1 hx), hp, hcarries, heq⟩
    · rintro ⟨x, p, hx, hp, hcarries, rfl⟩
      obtain ⟨item, hlookup⟩ := hitem hx
      refine ⟨x, List.mem_dedup.2 ((hlisted x).1 hx), ?_⟩
      rw [Enumeration.option, hlookup]
      exact (option_eq_some_iff (hreport hlookup) _).2 ⟨p, hp, hcarries, rfl⟩

/-! ## Errors -/

/-- What a lookup is told that does not bring a value is not that it was
stopped. -/
theorem Told.failed (h : v.Told heard r) {o : Outcome EnrichedItem}
    (hx : (v.base.overlay heard (fun _ => .crashed) fun y =>
      .value ⟨y, none⟩).lookup x = o)
    (ho : o.isValue = false) :
    Listed v.listing x ∧ Ends v.credentials (v.verdict x) o := by
  subst hx
  simp only [Enumeration.overlay] at ho ⊢
  cases hreports : heard.reports x with
  | none => rw [hreports] at ho; cases ho
  | some o =>
    rw [hreports] at ho
    obtain ⟨hlisted, hends | ⟨_, hvalue⟩⟩ := h.reports x o hreports
    · exact ⟨hlisted, hends⟩
    · rw [hvalue] at ho
      cases ho

/-- Pages that all have a next one are fewer than the answers of the listing. -/
theorem Told.length_lt (h : v.Told heard r)
    {lookup : String → Outcome EnrichedItem} {pages : List Page}
    (hy : (v.base.overlay heard (fun _ => .crashed) lookup).Yields pages)
    (hgo : ∀ p ∈ pages, p.isLast = false) :
    pages.length < v.listing.length := by
  obtain ⟨o, ho, hlast⟩ := Chain.ends v.lists
  rw [Option.mem_def, List.getLast?_eq_getElem?] at ho
  obtain ⟨hlt, _⟩ := List.getElem?_eq_some_iff.1 ho
  refine Nat.lt_of_not_le fun hle => ?_
  have hp :=
    List.getElem?_eq_getElem (l := pages) (i := v.listing.length - 1) (by omega)
  have hat := h.page (hy.answered _ _ hp)
  have hnone := hlast _ (Option.some.inj (ho.symm.trans hat))
  have hnext := hgo _ (List.mem_of_getElem? hp)
  rw [Page.isLast, hnone] at hnext
  cases hnext

/-- An error that an enumeration returns is its first one, and tells of a
call. -/
theorem Served.returned_error (h : v.Served s)
    (hd : s.run.driver = .returned (.error err)) :
    s.run.firstError = some err ∧ v.Blames err := by
  obtain ⟨heard, htold⟩ := h.told
  have hfirst := htold.tale.firstError rfl hd
  obtain ⟨k, hway⟩ :=
    htold.tale.way (fun _ => .crashed) fun y => .value ⟨y, none⟩
  refine ⟨hfirst, ?_⟩
  cases hway.causes err hfirst with
  | @pageFetch pages e hy hgo hf =>
    simp only [Enumeration.overlay] at hf
    cases hanswer : heard.answers pages.length with
    | none => rw [hanswer] at hf; cases hf
    | some o =>
      obtain ⟨planned, hk, ho⟩ := htold.answers _ _ hanswer
      rw [hanswer] at hf
      exact .pageFetch hk ((show o = .failed e from hf) ▸ ho)
  | pageLimitExceeded hy hgo hl hle =>
    exact .pageLimitExceeded hl
      (Nat.lt_of_le_of_lt hle (htold.length_lt hy hgo))
  | enrichment _ _ hf | workerPanicked _ _ hf =>
    obtain ⟨hlisted, ho⟩ := htold.failed hf rfl
    exact blames_of_ends hlisted ho rfl

/-- An enumeration crashes when it needs too many permits, or on a call for a
page. -/
theorem Served.crashed (h : v.Served s) (hd : s.run.driver = .crashed) :
    Enumerator.maxPermits < v.enumerator.concurrency ∨
      ∃ planned ∈ v.listing, Ends v.credentials planned .crashed := by
  obtain ⟨heard, htold⟩ := h.told
  obtain ⟨k, hway⟩ := htold.tale.way (fun _ => .value .empty) fun _ => .crashed
  have hplace := hway.paged.place
  rw [hd] at hplace
  refine hplace.imp id fun ⟨_, hcrash⟩ => ?_
  simp only [Enumeration.overlay] at hcrash
  cases hanswer : heard.answers s.run.received.length with
  | none => rw [hanswer] at hcrash; cases hcrash
  | some o =>
    obtain ⟨planned, hk, ho⟩ := htold.answers _ _ hanswer
    rw [hanswer] at hcrash
    exact ⟨planned, List.mem_of_getElem? hk,
      (show o = .crashed from hcrash) ▸ ho⟩

/-- Nobody gives the enumeration up. -/
theorem Served.not_dropped (h : v.Served s) : s.run.driver ≠ .dropped := by
  obtain ⟨heard, htold⟩ := h.told
  obtain ⟨k, hway⟩ := htold.tale.way (fun _ => .crashed) fun _ => .crashed
  intro hd
  have hplace := hway.paged.place
  rw [hd] at hplace
  exact hplace

/-! ## When no call fails -/

/-- Where no call fails there is nothing that an error could tell of. -/
theorem Unfailing.not_blames (h : v.Unfailing) (hnone : v.credentials = none)
    (hlimit : ∀ limit ∈ v.enumerator.pageLimit, v.listing.length ≤ limit) :
    ¬v.Blames err := by
  intro hblames
  cases hblames with
  | pageFetch hk ho =>
    have hvalue := h.listing _ (List.mem_of_getElem? hk)
    rw [← ho.eq_planned hnone] at hvalue
    cases hvalue
  | pageLimitExceeded hl hlt =>
    exact absurd (hlimit _ hl) (Nat.not_le_of_lt hlt)
  | description hx ho herr =>
    rw [ho.eq_planned hnone, Outcome.failure_eq_none _ (h.described _ hx)]
      at herr
    cases herr
  | tags hx _ hasked ho herr =>
    rw [ho.eq_planned hnone, Outcome.failure_eq_none _ (h.tagged _ hx _ hasked)]
      at herr
    cases herr

end Serving

end CloudAccess
