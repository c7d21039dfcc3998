import CloudAccess.Proofs.Cache.Handoff
import CloudAccess.Proofs.Provider.Endings
import CloudAccess.Proofs.Provider.Winding
import CloudAccess.Provider.Session

/-!
# The managed permission sets, exactly

What a provider says when it is asked for the permission sets.

* `Settles` says what the end of a listing has to do with the answers of the
  directory, and `Served.settles` that an enumeration that has come to its end
  has settled so.
* `lists_managed_sets` puts together how the permission sets are listed, and
  `not_listed_of_many_permits` says what it is about a bound that is too large.
-/

namespace CloudAccess

namespace Serving

variable {v : Serving} {s t : DirectoryScene}

/-- How a listing ends, and why: with the options of the managed permission sets
when no call fails; with the failure that was observed first; or in a crash of a
call for a page. -/
inductive Settles (v : Serving) (start r : Run) : OpEnd ResultSet → Prop
  | options {found : ResultSet} (hunfailing : v.Unfailing)
      (hexact : v.Exact found) (hnone : r.firstError = none) :
      Settles v start r (.result (.ok found))
  | failure {err : EnumerationError}
      (hfirst : ∀ actions, r = start.after actions →
        start.FirstObserved actions err)
      (hblames : v.Blames err) (hfails : v.credentials = none → ¬v.Unfailing) :
      Settles v start r (.result (.error (.enumeration err)))
  | crash {planned : Outcome Page} (hin : planned ∈ v.listing)
      (ho : Ends v.credentials planned .crashed)
      (hfails : v.credentials = none → ¬v.Unfailing) :
      Settles v start r .crashed

/-- An enumeration within its bounds has settled once its driver has come to its
end. -/
theorem Served.settles (h : v.Served s)
    (hlimit : ∀ limit ∈ v.enumerator.pageLimit, v.listing.length ≤ limit)
    (hfit : v.enumerator.concurrency ≤ Enumerator.maxPermits)
    (hover : s.run.driver.isOver = true) :
    v.Settles v.base.start s.run
      (ProviderSession.enumerationEnd s.run.driver) := by
  have hcounted : v.base.start.Counted := Run.Reaches.counted .refl
  have hfresh : v.base.start.firstError = none := by rw [Enumeration.start_eq]
  cases hd : s.run.driver with
  | returned result =>
    cases result with
    | ok found =>
      obtain ⟨hunfailing, hexact⟩ := h.returned_ok hd
      refine .options hunfailing hexact ?_
      obtain ⟨heard, htold⟩ := h.told
      obtain ⟨k, hway⟩ := htold.tale.way (fun _ => .crashed) fun _ => .crashed
      obtain ⟨_, hresult⟩ := hway.returned _ hd
      cases hfirst : s.run.firstError with
      | none => rfl
      | some err =>
        rw [Run.result, hfirst] at hresult
        cases hresult
    | error err =>
      obtain ⟨hfirst, hblames⟩ := h.returned_error hd
      refine .failure (fun actions hrun => ?_) hblames fun hnone hunfailing =>
        hunfailing.not_blames hnone hlimit hblames
      rw [hrun] at hfirst
      exact (Run.firstError_after hcounted hfresh).1 hfirst
  | crashed =>
    rcases h.crashed hd with hbig | ⟨planned, hin, ho⟩
    · exact absurd hfit (Nat.not_le_of_lt hbig)
    · refine .crash hin ho fun hnone hunfailing => ?_
      have hvalue := hunfailing.listing planned hin
      rw [← ho.eq_planned hnone] at hvalue
      cases hvalue
  | dropped => exact absurd hd h.not_dropped
  | turning | fetching | submitting | queueing | draining =>
    rw [hd] at hover; cases hover

end Serving

namespace ProviderSession

variable {s : ProviderSession} {listing : List (Outcome Page)}
  {tags : String → List (Outcome TagPage)}

/-- What the permission sets are listed from. -/
def serving (s : ProviderSession) (hlists : s.directory.Lists listing)
    (htags : ∀ x, Listed listing x → s.directory.Tags x (tags x)) : Serving :=
  ⟨s.directory, s.credentials, s.enumerator, listing, tags, hlists, htags⟩

/-- The scene that a listing begins with. -/
def listingScene (s : ProviderSession) : DirectoryScene :=
  .start s.enumerator (s.report Run.announce).world true none none

/-- The play of a listing. -/
def listingPlay (s : ProviderSession) : Play DirectoryScene RunTask :=
  RunScene.play (s.directory.remote s.credentials)

/-- A listing ends as the run of its play does. -/
theorem listPermissionSets_end (s : ProviderSession) :
    s.listPermissionSets.2.1 =
      enumerationEnd (s.listingPlay.run s.steps []
        s.listingScene).state.run.driver := rfl

/-! ## Credentials for a listing -/

/-- What is reported leaves the cache idle. -/
theorem idle_report (h : s.world.scene.Idle) (f : Ledger → Ledger) :
    (s.report f).world.scene.Idle := ⟨h.free, h.ended⟩

theorem credentials_isSome (h : s.credentials.isSome = true) :
    s.directory.usesCredentials = true := by
  unfold credentials at h
  split at h
  · assumption
  · cases h

variable (hlists : s.directory.Lists listing)
  (htags : ∀ x, Listed listing x → s.directory.Tags x (tags x))

/-- Wherever the steps of a listing lead, only retrievals that calls wait for
are under way. -/
theorem provisioned
    (hidle : s.directory.usesCredentials = true → s.world.scene.Idle)
    {t : DirectoryScene} (h : s.listingPlay.Reaches s.listingScene t) :
    (s.serving hlists htags).Provisioned t :=
  Serving.provisioned_reaches
    (fun hsome => idle_report (hidle (credentials_isSome hsome)) _) h

/-- A listing that is granted the steps comes to its end. -/
theorem isOver_listing
    (hidle : s.directory.usesCredentials = true → s.world.scene.Idle)
    {steps : Nat} (hle : (s.serving hlists htags).left s.listingScene ≤ steps) :
    (s.listingPlay.run steps [] s.listingScene).state.isOver = true :=
  (Serving.winds (s.serving hlists htags)).run_isOver
    (provisioned hlists htags hidle .refl) hle

/-! ## Listings -/

/-- When the permission sets are listed over finite chains of pages, within the
page limit, each order of the steps comes to its end.  The listing then has
settled: it brings an option for each managed permission set and no other when
no call fails, and else the failure that was observed first.  A provider that is
granted the steps says how such an order of steps has ended.  What a call for a
page brings may depend on its token and on the number of pages before it. -/
theorem lists_managed_sets (s : ProviderSession) {listing : List (Outcome Page)}
    {tags : String → List (Outcome TagPage)}
    (hlists : s.directory.Lists listing)
    (htags : ∀ x, Listed listing x → s.directory.Tags x (tags x))
    (hlimit : ∀ limit ∈ s.enumerator.pageLimit, listing.length ≤ limit)
    (hfit : s.enumerator.concurrency ≤ Enumerator.maxPermits)
    (hidle : s.directory.usesCredentials = true → s.world.scene.Idle) :
    (∃ left : DirectoryScene →
      Nat, ∀ t, s.listingPlay.Reaches s.listingScene t →
      t.isOver = false →
        (∃ u, s.listingPlay.Step t u) ∧ ∀ u, s.listingPlay.Step t u →
          left u < left t) ∧
    (∀ t, s.listingPlay.Reaches s.listingScene t → t.run.driver.isOver = true →
      (∃ actions, t.run = s.listingScene.run.after actions) ∧
        (s.serving hlists htags).Settles s.listingScene.run t.run
          (enumerationEnd t.run.driver)) ∧
    ∃ bound, ∀ steps, bound ≤ steps →
      ∃ t, s.listingPlay.Reaches s.listingScene t ∧
      t.run.driver.isOver = true ∧
      { s with steps := steps }.listPermissionSets.2.1 =
        enumerationEnd t.run.driver := by
  have hwinds := Serving.winds (s.serving hlists htags)
  refine ⟨⟨(s.serving hlists htags).left, fun t ht hover => ?_⟩,
    fun t ht hover => ?_,
    ⟨(s.serving hlists htags).left s.listingScene, fun steps hle => ?_⟩⟩
  · have hprovisioned := provisioned hlists htags hidle ht
    exact ⟨hwinds.goesOn t hprovisioned hover,
      fun u hstep => hwinds.falls t u hprovisioned hover hstep⟩
  · have hserved : (s.serving hlists htags).Served t :=
      Serving.served_reaches ht
    exact ⟨(RunScene.reaches_run ht).exists_after,
      hserved.settles hlimit hfit hover⟩
  · have hover := isOver_listing hlists htags hidle hle
    simp only [RunScene.isOver, Bool.and_eq_true] at hover
    exact ⟨_, Play.reaches_run _ _ _ _, hover.1, listPermissionSets_end _⟩

/-- What a provider has to be told. -/
def plainConfig : ProviderConfig where
  roleArn := ⟨"arn:role", by decide +kernel⟩
  instanceArn := ⟨"arn:instance", by decide +kernel⟩
  identityStoreId := ⟨"store", by decide +kernel⟩
  region := none

/-- A permission set that is listed twice.  The first page of its tags marks it
as managed, and the call for the second one fails. -/
def oneManaged : ProviderSession where
  config := plainConfig
  directory := ({
    permissionSets := [(none, { content := ⟨["a", "a"], none⟩ })]
    descriptions := [("a", { content := ⟨some "Admin", none⟩ })]
    tags := [("a",
      [(none, { content := ⟨[⟨Tag.managedKey, none⟩], some "more"⟩ }),
        (some "more", { content := ⟨[], none⟩, error := some "throttled" })])]
        } :
      PlannedDirectory)
  world :=
    { scene :=
        { cache := .unused Cache.plainRequest [.epoch, .epoch], plan := [] } }
  steps := 0

/-- The answers on its tags. -/
def oneManagedTags : List (Outcome TagPage) :=
  [.value ⟨[⟨Tag.managedKey, none⟩], some "more"⟩, .failed ⟨"throttled", []⟩]

theorem lists_oneManaged :
    oneManaged.directory.Lists [.value ⟨["a", "a"], none⟩] :=
  .last fun _ hpage => (by injection hpage with hpage; rw [← hpage])

theorem listed_oneManaged {x : String} :
    Listed [.value ⟨["a", "a"], none⟩] x ↔ x = "a" := by
  simp [Listed]

theorem tags_oneManaged {x : String}
    (hx : Listed [.value ⟨["a", "a"], none⟩] x) :
    oneManaged.directory.Tags x oneManagedTags := by
  obtain rfl := listed_oneManaged.1 hx
  exact .more rfl rfl (.last fun _ hpage => (by cases hpage))

/-- No call fails that is made: the failing page of tags is not asked for. -/
theorem unfailing_oneManaged (enumerator : Enumerator) :
    ({ oneManaged with enumerator := enumerator }.serving lists_oneManaged
      fun _ hx => tags_oneManaged hx).Unfailing := by
  refine ⟨fun o ho => ?_, fun x hx => ?_, fun x hx o ho => ?_⟩
  · obtain rfl := List.mem_singleton.1 ho
    rfl
  · obtain rfl := listed_oneManaged.1 hx
    rfl
  · have hone : consulted oneManagedTags =
        [.value ⟨[⟨Tag.managedKey, none⟩], some "more"⟩] :=
      rfl
    obtain rfl := List.mem_singleton.1 (hone ▸ ho)
    rfl

/-- The exact options from it. -/
theorem exact_oneManaged {found : ResultSet}
    (h : (oneManaged.serving lists_oneManaged fun _ hx =>
      tags_oneManaged hx).Exact found) : found.options = [⟨"Admin", "a"⟩] := by
  have hdescribed : (oneManaged.directory.description "a").outcome =
      .value ⟨some "Admin", none⟩ := rfl
  refine List.perm_singleton.1 ((List.perm_ext_iff_of_nodup h.distinct.of_map
    (List.nodup_singleton _)).2 fun o => ?_)
  rw [h.mem_iff, List.mem_singleton]
  constructor
  · rintro ⟨x, p, hx, hp, _, rfl⟩
    obtain rfl := listed_oneManaged.1 hx
    obtain rfl : ⟨some "Admin", none⟩ = p := by
      injection hdescribed.symm.trans hp
    rfl
  · rintro rfl
    exact ⟨"a", _, listed_oneManaged.2 rfl, hdescribed,
      ⟨_, List.mem_cons_self, rfl⟩, rfl⟩

theorem lists_managed_sets_one :
    ∃ bound, ∀ steps, bound ≤ steps → ∃ found,
      { oneManaged with steps := steps }.listPermissionSets.2.1 =
        .result (.ok found) ∧
        found.options = [⟨"Admin", "a"⟩] := by
  obtain ⟨_, hsettles, bound, hends⟩ :=
    lists_managed_sets oneManaged lists_oneManaged
      (fun _ hx => tags_oneManaged hx)
      (by intro limit hlimit; cases hlimit) (by decide) fun hneeds => by
      cases hneeds
  refine ⟨bound, fun steps hle => ?_⟩
  obtain ⟨t, ht, hover, hend⟩ := hends steps hle
  obtain ⟨_, hsettled⟩ := hsettles t ht hover
  rw [hend]
  -- no call fails, so the listing cannot have settled otherwise
  generalize enumerationEnd t.run.driver = ending at hsettled
  cases hsettled with
  | options _ hexact => exact ⟨_, rfl, exact_oneManaged hexact⟩
  | failure _ _ hfails | crash _ _ hfails =>
    exact absurd (unfailing_oneManaged oneManaged.enumerator) (hfails rfl)

/-! ## Too many permits -/

/-- A listing that needs more permits than there can be crashes before it has
begun. -/
theorem crashed_of_many_permits (s : ProviderSession)
    (hmany : Enumerator.maxPermits < s.enumerator.concurrency) :
    s.listPermissionSets.2.1 = .crashed := by
  have hcrashed : s.listingScene.run.driver = .crashed := by
    show (Run.start _ _ _).driver = .crashed
    rw [Run.start_eq, if_neg (Nat.not_le_of_lt hmany)]
  have hquiet : s.listingScene.run.isQuiet = true := by
    show (Run.start _ _ _).isQuiet = true
    rw [Run.start_eq]
    rfl
  have hover : s.listingPlay.isOver s.listingScene = true := by
    show (s.listingScene.run.driver.isOver && s.listingScene.run.isQuiet) = true
    rw [hcrashed, hquiet]
    rfl
  rw [listPermissionSets_end]
  have hstays : (s.listingPlay.run s.steps [] s.listingScene).state =
      s.listingScene := by
    cases s.steps <;> simp [Play.run, hover, Ending.state]
  rw [hstays, hcrashed]
  rfl

/-- No call fails, and no page limit is exceeded, yet a listing that needs too
many permits does not bring the options. -/
theorem not_listed_of_many_permits :
    ∃ (s : ProviderSession) (listing : List (Outcome Page))
      (tags : String → List (Outcome TagPage))
        (hlists : s.directory.Lists listing)
      (htags : ∀ x, Listed listing x → s.directory.Tags x (tags x)),
      0 < s.enumerator.concurrency ∧ s.enumerator.pageLimit = none ∧
        (s.serving hlists htags).Unfailing ∧
        ∀ steps, { s with steps := steps }.listPermissionSets.2.1 =
          .crashed := by
  let many : Enumerator :=
    { concurrency := Enumerator.maxPermits + 1
      concurrency_pos := Nat.succ_pos _ }
  exact ⟨{ oneManaged with enumerator := many }, _, _, lists_oneManaged,
    fun _ hx => tags_oneManaged hx, Nat.succ_pos _, rfl,
    unfailing_oneManaged many,
    fun steps => crashed_of_many_permits _ (Nat.lt_succ_self _)⟩

end ProviderSession

end CloudAccess
