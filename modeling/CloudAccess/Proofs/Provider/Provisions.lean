import CloudAccess.Proofs.Provider.Moves
import CloudAccess.Proofs.Provider.Supplies

/-!
# Credentials for an enumeration

The calls of an enumeration that need credentials share the cache of the
provider.

* `Underway` says that a call of a scene is at some stage, and `Held` that one
  waits for a retrieval.
* `Provisioned` says that only such retrievals are under way.
  `Provisioned.step` says that each step keeps this, and `provisioned_reaches`
  that it holds wherever steps lead from an idle cache.
-/

namespace CloudAccess

namespace Serving

variable {v : Serving} {s t : DirectoryScene} {i j : Nat} {x : String}
  {stage : Call.Stage}

/-! ## Calls under way -/

/-- The fetch under way is at a stage. -/
def Fetching (s : DirectoryScene) (stage : Call.Stage) : Prop :=
  ∃ call, s.fetch = some call ∧ call.stage = stage

/-- A lookup is at a stage. -/
def LookedUp (lookups : List (Nat × SetLookup)) (stage : Call.Stage) : Prop :=
  ∃ p ∈ lookups, p.2.stage = stage

/-- A call of the scene is at a stage. -/
def Underway (s : DirectoryScene) (stage : Call.Stage) : Prop :=
  Fetching s stage ∨ LookedUp s.lookups stage

/-- A call of the scene waits for a retrieval. -/
def Held (s : DirectoryScene) (i : Nat) : Prop := Underway s (.retrieving i)

theorem fetching_iff {call : Call Page} (h : s.fetch = some call) :
    Fetching s stage ↔ call.stage = stage := by
  simp [Fetching, h]

theorem not_fetching (h : s.fetch = none) : ¬Fetching s stage := by
  simp [Fetching, h]

theorem lookedUp_cons {task : SetLookup} {lookups : List (Nat × SetLookup)} :
    LookedUp ((i, task) :: lookups) stage ↔
      task.stage = stage ∨ LookedUp lookups stage := by
  simp [LookedUp]

/-- A lookup of those under way is found, for each worker has one at most. -/
theorem lookup?_eq_some_iff (h : s.run.Watches s.lookups) {task : SetLookup} :
    s.lookup? i = some task ↔ (i, task) ∈ s.lookups := by
  refine ⟨RunScene.mem_of_lookup?, fun hin => ?_⟩
  obtain ⟨before, after, hsplit⟩ := List.append_of_mem hin
  refine List.lookup_eq_some_iff.2 ⟨before, after, hsplit, fun p hp => ?_⟩
  have hdistinct := h.distinct
  rw [hsplit, List.map_append, List.map_cons, List.nodup_append] at hdistinct
  have hne := hdistinct.2.2 p.1 (List.mem_map_of_mem hp) i List.mem_cons_self
  exact bne_iff_ne.2 (Ne.symm hne)

/-- Lookups at a stage are that of one worker, or those of others. -/
theorem lookedUp_iff (h : s.run.Watches s.lookups) (i : Nat) :
    LookedUp s.lookups stage ↔
      LookedUp (s.lookups.filter (·.1 ≠ i)) stage ∨
        ∃ task, s.lookup? i = some task ∧ task.stage = stage := by
  constructor
  · rintro ⟨⟨j, task⟩, hin, hstage⟩
    by_cases heq : j = i
    · exact .inr ⟨task, (lookup?_eq_some_iff h).2 (heq ▸ hin), hstage⟩
    · exact .inl ⟨(j, task), List.mem_filter.2 ⟨hin, by simpa using heq⟩,
        hstage⟩
  · rintro (⟨p, hp, hstage⟩ | ⟨task, htask, hstage⟩)
    · exact ⟨p, (List.mem_filter.1 hp).1, hstage⟩
    · exact ⟨_, RunScene.mem_of_lookup? htask, hstage⟩

/-- The lookup of a worker that has not begun waits for no retrieval. -/
theorem retrieving_lookupOf :
    (v.lookupOf s i x).stage = .retrieving j ↔
      ∃ task, s.lookup? i = some task ∧ task.stage = .retrieving j := by
  unfold lookupOf
  cases s.lookup? i with
  | none => simp [remote, Directory.remote, SetLookup.stage, Directory.describe]
  | some task => simp

/-! ## Only calls that need credentials retrieve any -/

/-- A call waits for a retrieval only if calls need credentials. -/
theorem Served.needs (h : v.Served s) (hheld : Held s j) :
    v.credentials.isSome = true := by
  rcases hheld with ⟨call, hfetch, hstage⟩ | ⟨p, hp, hstage⟩
  · obtain ⟨cursor, hd⟩ := h.attended.fetch_iff.1 (by rw [hfetch]; rfl)
    exact (h.fetch call hfetch cursor hd).needs j hstage
  · obtain ⟨w, hw, _⟩ := h.attended.watches.looking p hp
    exact (h.lookups p hp w hw).needs hstage

/-! ## What is kept of the cache -/

/-- Where calls need credentials, only retrievals that calls wait for are under
way. -/
structure Provisioned (v : Serving) (s : DirectoryScene) :
    Prop extends v.Served s where
  supplied : v.credentials.isSome = true → s.world.scene.Supplied (Held s)

/-- A retrieval that a call waits for was started. -/
theorem Provisioned.present (h : v.Provisioned s) (hheld : Held s j) :
    ∃ r, s.world.scene.cache.retrievals[j]? = some r :=
  (h.supplied (h.needs hheld)).present hheld

/-- The retrievals of the fetch, told apart from the others. -/
theorem supplied_fetch {p : PlannedCache} {call : Call Page}
    (hfetch : s.fetch = some call) :
    p.Supplied (Held s) ↔
      p.Supplied fun j => LookedUp s.lookups (.retrieving j) ∨
      call.stage = .retrieving j := by
  have hiff (j : Nat) : Held s j ↔
      LookedUp s.lookups (.retrieving j) ∨ call.stage = .retrieving j := by
    rw [Held, Underway, fetching_iff hfetch, or_comm]
  exact ⟨fun h => h.congr hiff, fun h => h.congr fun j => (hiff j).symm⟩

/-- Without a fetch only lookups have retrievals. -/
theorem supplied_of_no_fetch {p : PlannedCache} (hnone : s.fetch = none) :
    p.Supplied (Held s) ↔ p.Supplied fun j =>
      LookedUp s.lookups (.retrieving j) := by
  have hiff (j : Nat) : Held s j ↔ LookedUp s.lookups (.retrieving j) := by
    simp [Held, Underway, not_fetching hnone]
  exact ⟨fun h => h.congr hiff, fun h => h.congr fun j => (hiff j).symm⟩

/-- The retrievals of all but the lookup of one worker. -/
def HeldBeside (s : DirectoryScene) (i j : Nat) : Prop :=
  Fetching s (.retrieving j) ∨
    LookedUp (s.lookups.filter (·.1 ≠ i)) (.retrieving j)

/-- The retrievals of the lookup of one worker, told apart from the others. -/
theorem held_iff (h : s.run.Watches s.lookups) (i j : Nat) :
    Held s j ↔ HeldBeside s i j ∨ (v.lookupOf s i x).stage = .retrieving j := by
  rw [Held, Underway, lookedUp_iff h i, HeldBeside,
    retrieving_lookupOf, or_assoc]

/-- A move keeps what is kept of the cache. -/
theorem Move.supplied (hm : v.Move s t) (h : v.Served s)
    (hs : s.world.scene.Supplied (Held s)) :
    t.world.scene.Supplied (Held t) := by
  have hwatches := h.attended.watches
  -- each case tells the retrieval of the call that moves apart from the others
  cases hm with
  | ask _ hnone =>
    refine (supplied_fetch rfl).2
      (((supplied_of_no_fetch hnone).1 hs).congr fun j => ?_)
    simp [Directory.listPermissionSets]
  | drive _ _ hworld =>
    refine (supplied_of_no_fetch rfl).2 ?_
    rw [hworld]
    cases hfetch : s.fetch with
    | none => exact (supplied_of_no_fetch hfetch).1 hs
    | some call =>
      exact Call.Stage.supplied_abandon ((supplied_fetch hfetch).1 hs)
  | fetch hfetch _ hready _ hgoes =>
    exact (supplied_fetch rfl).2
      (hgoes.resupplied hready ((supplied_fetch hfetch).1 hs))
  | answer hfetch _ _ hover =>
    exact (supplied_of_no_fetch rfl).2
      (hover.supplied ((supplied_fetch hfetch).1 hs))
  | work => exact hs
  | @lookup i x task world hw hready _ hgoes =>
    have hgone :=
      hgoes.resupplied hready (hs.congr fun j => held_iff hwatches i j)
    refine hgone.congr fun j => ?_
    rw [Held, Underway, lookedUp_cons, HeldBeside, or_assoc,
      or_comm (a := LookedUp _ _)]
    rfl
  | @report i x o hw hover =>
    exact hover.supplied (hs.congr fun j => held_iff hwatches i j)
  | @unwind i world _ hworld =>
    have hbeside := hs.congr fun j => held_iff (v := v) (x := "") hwatches i j
    show world.scene.Supplied (HeldBeside s i)
    rw [hworld]
    unfold lookupOf at hbeside
    cases htask : s.lookup? i with
    | none =>
      rw [htask] at hbeside
      exact hbeside.congr fun j => by
        simp [remote, Directory.remote, SetLookup.stage, Directory.describe]
    | some task =>
      rw [htask] at hbeside
      exact Call.Stage.supplied_abandon hbeside
  | time => exact hs

/-- Each step keeps what is kept of the cache. -/
theorem Provisioned.step (h : v.Provisioned s)
    (hstep : (RunScene.play v.remote).Step s t) : v.Provisioned t :=
  ⟨h.toServed.step hstep, fun hsome =>
    (h.move hstep).supplied h.toServed (h.supplied hsome)⟩

/-- On an idle cache no retrieval is under way. -/
theorem provisioned_opening (v : Serving) {world : DirectoryWorld}
    (hidle : v.credentials.isSome = true → world.scene.Idle) :
    v.Provisioned (v.opening world) := by
  refine ⟨v.served_opening world, fun hsome =>
    (hidle hsome).supplied fun j hheld => ?_⟩
  rcases hheld with ⟨call, hfetch, _⟩ | ⟨p, hp, _⟩
  · cases hfetch
  · cases hp

/-- Wherever the steps of the enumeration lead from an idle cache, only
retrievals that calls wait for are under way. -/
theorem provisioned_reaches {world : DirectoryWorld}
    (hidle : v.credentials.isSome = true → world.scene.Idle)
    (h : (RunScene.play v.remote).Reaches (v.opening world) s) :
    v.Provisioned s :=
  h.invariant (v.provisioned_opening hidle) fun _ _ hu hstep => hu.step hstep

end Serving

end CloudAccess
