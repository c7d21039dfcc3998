import CloudAccess.Proofs.Enumeration.Moves
import CloudAccess.Proofs.Enumeration.Tales
import CloudAccess.Proofs.Provider.Calls

/-!
# Enumerations that the directory answers

The scene in which the permission sets are enumerated, in any order of its
steps.

* `Serving` is what one enumeration is about: the directory, the answers on its
  permission sets and their tags, and the enumerator.
* `Told` says that a run was told nothing but what the calls end in, or what a
  lookup says that was stopped.
* `Served` is what holds of a scene: its run was told so, the driver heads along
  the listing, and what is under way is the next call of somebody.
  `served_opening` says that it holds at the start.
-/

namespace CloudAccess

/-- A scene in which the directory answers. -/
abbrev DirectoryScene := RunScene DirectoryWorld (Call Page) SetLookup

/-- An enumeration of the permission sets: the directory, the handle through
which its calls get credentials if they need any, the bounds, and the answers on
the pages of permission sets and on the tags of those listed. -/
structure Serving where
  directory : Directory
  credentials : Option Handle
  enumerator : Enumerator
  listing : List (Outcome Page)
  tags : String → List (Outcome TagPage)
  lists : directory.Lists listing
  tagged : ∀ x, Listed listing x → directory.Tags x (tags x)

namespace Serving

variable {v : Serving} {s t : DirectoryScene} {heard : Heard} {r : Run}
  {i : Nat} {x : String}

/-- The directory answers. -/
def remote (v : Serving) : Remote DirectoryWorld (Call Page) SetLookup :=
  v.directory.remote v.credentials

/-- The enumeration stands by itself: its caller has a handle that nobody else
has. -/
def base (v : Serving) : Enumeration where
  enumerator := v.enumerator
  signals := { count := 2 }
  caller := ⟨1, []⟩
  answers _ := .crashed
  lookup _ := .crashed
  sound := by decide
  issued := by decide

/-- The scene that the enumeration begins with. -/
def opening (v : Serving) (world : DirectoryWorld) : DirectoryScene :=
  .start v.enumerator world true none none

/-- What is left of the listing from a token on, after some fetches. -/
def Leads (v : Serving) (token : Option String) (k : Nat) : Prop :=
  Chain v.directory.permissionSets.answer (·.nextCursor) k token
    (v.listing.drop k)

/-- The lookup of a worker, as far as it has come. -/
def lookupOf (v : Serving) (s : DirectoryScene) (i : Nat) (x : String) :
    SetLookup :=
  (s.lookup? i).getD (v.remote.lookup x)

/-- A run was told what the calls end in. -/
structure Told (v : Serving) (heard : Heard) (r : Run) : Prop where
  tale : v.base.Tale heard r
  answers : ∀ k o, heard.answers k = some o →
    ∃ planned, v.listing[k]? = some planned ∧ Ends v.credentials planned o
  reports : ∀ x o, heard.reports x = some o → Listed v.listing x ∧
    SetLookup.EndsIn v.directory v.credentials x (v.tags x) r.isCancelled o

/-- What the tasks of a scene keep to. -/
structure Course (v : Serving) (s : DirectoryScene) : Prop where
  told : ∃ heard, v.Told heard s.run
  heads : s.run.HeadsFor v.Leads
  fetch : ∀ call ∈ s.fetch, ∀ cursor, s.run.driver = .fetching cursor →
    Call.Makes v.credentials (v.directory.listPermissionSets s.run.pages cursor)
      call
  lookups : ∀ p ∈ s.lookups, ∀ w, s.run.workers[p.1]? = some w →
    SetLookup.OnTask v.directory v.credentials w.reference
      (v.tags w.reference) p.2
  uncalled : s.cancelAt = none ∧ s.dropAt = none

/-- What holds of a scene in every order of its steps. -/
structure Served (v : Serving) (s : DirectoryScene) :
    Prop extends v.Course s where
  attended : s.Attended

/-- The reference of a worker is listed. -/
theorem Told.listed (h : v.Told heard r) {w : Worker} (hw : w ∈ r.workers) :
    Listed v.listing w.reference := by
  obtain ⟨k, p, hp, hx⟩ := h.tale.listed hw
  obtain ⟨planned, hk, ho⟩ := h.answers k _ hp
  rw [ho.value] at hk
  exact ⟨p, List.mem_of_getElem? hk, hx⟩

/-- A run that is cancelled stays so, and what it was told remains true. -/
theorem Told.reports_act (h : v.Told heard r) (a : Run.Action) :
    ∀ x o, heard.reports x = some o → Listed v.listing x ∧
      SetLookup.EndsIn v.directory v.credentials x (v.tags x)
        (r.act a).isCancelled o := by
  intro x o hx
  obtain ⟨hlisted, ho⟩ := h.reports x o hx
  refine ⟨hlisted, ho.imp_right fun hstopped => ⟨?_, hstopped.2⟩⟩
  exact (r.effect_act a).isCancelled hstopped.1

/-- The run moves. -/
theorem Told.move (h : v.Told heard r) {a : Run.Action}
    (hmove : a.isMove = true) (ha : r.Enabled a) : v.Told heard (r.act a) :=
  ⟨h.tale.move hmove ha, h.answers, h.reports_act a⟩

/-- A fetch ends. -/
theorem Told.answer (h : v.Told heard r) {o planned : Outcome Page}
    (ha : r.Enabled (.answer o)) (hk : v.listing[r.pages]? = some planned)
    (ho : Ends v.credentials planned o) :
    v.Told (heard.answer r.pages o) (r.act (.answer o)) := by
  refine ⟨h.tale.answer ha, fun k o' hk' => ?_, h.reports_act _⟩
  rcases eq_or_ne k r.pages with rfl | hne
  · obtain rfl : o = o' := by simpa [Heard.answer] using hk'
    exact ⟨planned, hk, ho⟩
  · exact h.answers k o' (by simpa [Heard.answer, hne] using hk')

/-- A lookup ends. -/
theorem Told.report (h : v.Told heard r) {o : Outcome EnrichedItem}
    (hw : r.workers[i]? = some ⟨x, .looking⟩)
    (ho : SetLookup.EndsIn v.directory v.credentials x (v.tags x)
      r.isCancelled o) : v.Told (heard.report x o) (r.act (.report i o)) := by
  refine ⟨h.tale.report hw, h.answers, fun y o' hy => ?_⟩
  rcases eq_or_ne y x with rfl | hne
  · obtain rfl : o = o' := by simpa [Heard.report] using hy
    refine ⟨h.listed (List.mem_of_getElem? hw), ho.imp_right fun hstopped =>
      ⟨?_, hstopped.2⟩⟩
    exact (r.effect_act _).isCancelled hstopped.1
  · exact h.reports_act _ y o' (by simpa [Heard.report, hne] using hy)

/-! ## While the run goes on -/

/-- After the last page that the driver has there is none to head for; before it
the listing goes on. -/
theorem headsFor_act (h : r.HeadsFor v.Leads) (a : Run.Action)
    (hpage : ∀ cursor p, a = .answer (.value p) → r.driver = .fetching cursor →
      v.directory.permissionSets.answer r.pages cursor = .value p) :
    (r.act a).HeadsFor v.Leads := by
  refine (r.effect_act a).headsFor h fun cursor p ha hd hnext => ?_
  have hvalue := hpage cursor p ha hd
  rw [Run.HeadsFor, hd] at h
  have hleads : v.Leads cursor r.pages := h
  obtain ⟨rest, hrest⟩ := Chain.exists_cons hleads
  rw [Leads, hrest] at hleads
  have hlater := hleads.tail hvalue hnext
  have hdrop : v.listing.drop (r.pages + 1) = rest := by
    rw [← List.drop_drop, hrest]
    rfl
  rw [Leads, hdrop]
  exact hlater

/-- The tasks of the lookups stay on course while the run goes on. -/
theorem Served.lookups_act (h : v.Served s) (a : Run.Action) :
    ∀ p ∈ s.lookups, ∀ w, (s.run.act a).workers[p.1]? = some w →
      SetLookup.OnTask v.directory v.credentials w.reference
        (v.tags w.reference) p.2 := by
  intro p hp w hw
  obtain ⟨w₀, hw₀, _⟩ := h.attended.watches.looking p hp
  obtain ⟨w', hw', hturn⟩ := (s.run.effect_act a).turn hw₀
  obtain rfl := Option.some.inj (hw.symm.trans hw')
  rw [hturn.reference]
  exact h.lookups p hp w₀ hw₀

/-- The call for the next page is the next one of the listing. -/
theorem Served.answered (h : v.Served s) {cursor : Option String}
    (hd : s.run.driver = .fetching cursor) :
    v.listing[s.run.pages]? = some
      (v.directory.permissionSets.answer s.run.pages cursor) := by
  have hheads := h.heads
  rw [Run.HeadsFor, hd] at hheads
  have hleads : v.Leads cursor s.run.pages := hheads
  obtain ⟨rest, hrest⟩ := Chain.exists_cons hleads
  have hfirst := congrArg (·[0]?) hrest
  simpa using hfirst

/-- The lookup of a worker is on its task. -/
theorem Served.onTask (h : v.Served s)
    (hw : s.run.workers[i]? = some ⟨x, .looking⟩) :
    SetLookup.OnTask v.directory v.credentials x (v.tags x)
      (v.lookupOf s i x) := by
  unfold lookupOf
  cases htask : s.lookup? i with
  | none => exact SetLookup.onTask_begun
  | some task => exact h.lookups _ (RunScene.mem_of_lookup? htask) _ hw

/-! ## The start -/

/-- At its start a scene has all of the listing before it. -/
theorem served_opening (v : Serving) (world : DirectoryWorld) :
    v.Served (v.opening world) := by
  have hrun : (v.opening world).run = v.base.start := rfl
  obtain ⟨signals, parent, hopens⟩ :=
    RunScene.opens_start (κ := SetLookup) (φ := Call Page) v.enumerator world
      true none none
  refine ⟨⟨⟨{}, ?_⟩, ?_, fun call hcall => ?_, fun p hp => ?_, ⟨rfl, rfl⟩⟩,
    hopens.attended⟩
  · refine ⟨hrun ▸ Enumeration.tale_start v.base, fun k o hk => ?_,
      fun x o hx => ?_⟩
    · cases hk
    · cases hx
  · rw [hrun, Enumeration.start_eq]
    by_cases hfit : v.base.enumerator.concurrency ≤ Enumerator.maxPermits
    · have hlists : v.Leads none 0 := v.lists
      simpa [Run.HeadsFor, hfit] using hlists
    · simp [Run.HeadsFor, hfit]
  · cases hcall
  · cases hp

end Serving

end CloudAccess
