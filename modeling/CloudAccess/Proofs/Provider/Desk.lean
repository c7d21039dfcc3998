import CloudAccess.Proofs.Cache.Counts
import CloudAccess.Proofs.Enumeration.Moves
import CloudAccess.Proofs.Provider.Serving
import CloudAccess.Provider.Session

/-!
# What a provider reports

A provider may have several listings under way at a time.  They share its cache,
each may be given up, crash or never end, and what they report goes into one
ledger.

* `Errand` is a listing under way, for itself or as the options of an argument,
  and `Desk` is a provider with its errands.  `Desk.Step` lets the errands go on
  in any order, and the cache be used by others in between.
* `Call.keeps_acts`, `keeps_looking` and `keeps_walking` say that calls, lookups
  and walks only act on the cache, so that a desk reports about other operations
  only when an errand is begun or closed.
* `Accounted` is the invariant: what was added to the ledger is what has become
  of the retrievals and of the errands.
* `reaches_apply` says that an operation of the provider is a way of its desk:
  one errand that is begun, goes on by itself and is closed.
-/

namespace CloudAccess

/-! ## Verdicts -/

/-- Whether an operation has returned a value or an error. -/
def OpEnd.verdict {α : Type} : OpEnd α → Option Bool
  | .result r => some r.isOk
  | .crashed | .stuck => none

/-- Whether the driver of a run has returned a value or an error. -/
def Run.Driver.verdict : Run.Driver → Option Bool
  | .returned result => some result.isOk
  | _ => none

/-- An enumeration of the permission sets has returned what its driver has. -/
@[simp] theorem ProviderSession.verdict_enumerationEnd (driver : Run.Driver) :
    (ProviderSession.enumerationEnd driver).verdict = driver.verdict := by
  cases driver with
  | returned result => cases result <;> rfl
  | _ => rfl

/-- What a run reports of itself is how its enumeration has returned, if it
has. -/
theorem Run.logs_account (r : Run) (l : Ledger) :
    l.Logs (r.account l) [⟨.enumeration, none⟩]
      [⟨.enumeration, r.driver.verdict⟩] := by
  unfold Run.account
  have hevents := l.logs_report r.events [⟨.enumeration, none⟩]
  cases hd : r.driver with
  | returned result => exact hevents.trans (Ledger.logs_finish _ _ result)
  | _ => exact hevents

/-! ## Calls act on the cache -/

/-- A way of a directory's world: the cache is acted upon. -/
def DirectoryWorld.Acts (w w' : DirectoryWorld) : Prop :=
  w.scene.cache.Reaches w'.scene.cache

namespace Call

variable {α : Type}

/-- Calls act on the cache. -/
theorem keeps_acts (credentials : Option Handle) :
    (process credentials : Process DirectoryWorld (Call α) (Outcome α)).Keeps
      DirectoryWorld.Acts where
  turn w s c := by
    show w.Acts (c.turn credentials w s).1
    unfold turn
    split
    · exact .refl
    · split
      · unfold launch
        cases credentials with
        | none => exact .refl
        | some h => exact PlannedCache.reaches_act w.scene (.start h)
      · split
        · exact PlannedCache.reaches_step w.scene s.moment.unit _
        · exact .refl
        · exact .refl
        · exact .refl
        · exact .refl
      · split <;> exact .refl
      · exact .refl
  abandon w s c := by
    show w.Acts (c.abandon w s)
    unfold abandon
    split
    · exact PlannedCache.reaches_act w.scene (.drop _)
    · exact .refl

end Call

namespace Directory

variable (d : Directory) (credentials : Option Handle)

/-- Lookups of permission sets act on the cache. -/
theorem keeps_looking : (d.looking credentials).Keeps DirectoryWorld.Acts where
  turn w s k := by
    cases k with
    | describing arn call | readingTags arn label k call =>
      exact (Call.keeps_acts credentials).turn w s call
  abandon w s k := by
    cases k with
    | describing arn call | readingTags arn label k call =>
      exact (Call.keeps_acts credentials).abandon w s call

/-- Walks through the accounts act on the cache. -/
theorem keeps_walking : (d.walking credentials).Keeps DirectoryWorld.Acts where
  turn w s k := by
    have hturn := (Call.keeps_acts credentials).turn w s k.call
    show w.Acts (d.walkTurn credentials w s k).1
    unfold walkTurn
    change w.Acts (k.call.turn credentials w s).1 at hturn
    split <;> rename_i heq <;> rw [heq] at hturn
    · exact hturn
    · exact hturn
    · exact hturn
    · exact hturn
    · split <;> exact hturn
  abandon w s k := (Call.keeps_acts credentials).abandon w s k.call

end Directory

/-- The world of a task by itself changes by what it does in its turns. -/
theorem Solo.world_step {ω κ α : Type} {p : Process ω κ α} {s t : Solo ω κ α}
    {R : ω → ω → Prop} (hp : p.Keeps R) (hrefl : ∀ world, R world world)
    (hstep : (Solo.play p).Step s t) : R s.world t.world := by
  cases hstep with
  | time => exact hrefl _
  | task =>
    show R s.world (s.step p).world
    unfold Solo.step
    split
    · exact hrefl _
    · rename_i task _
      have hturn := hp.turn s.world s.situation task
      split <;> rename_i heq <;> rw [heq] at hturn <;> exact hturn

/-! ## Errands -/

/-- A walk through the accounts by itself. -/
abbrev AccountsSolo :=
  Solo DirectoryWorld AccountsUnderWay
    (Option (Except AccessError (List ArgOption)))

/-- What an errand is at: a listing of the permission sets or of the
accounts. -/
inductive Errand.Work
  | sets (scene : DirectoryScene)
  | accounts (solo : AccountsSolo)

/-- A listing that was asked for, by itself or as the options of an argument.
Once it is closed, `verdict` says whether it has returned a value or an
error. -/
structure Errand where
  asOptions : Bool
  work : Errand.Work
  closed : Bool := false
  verdict : Option Bool := none

namespace ProviderSession

/-- How a walk through the accounts has ended. -/
def walkEnd :
    AccountsUnderWay ⊕ Option (Except AccessError (List ArgOption)) →
      OpEnd (List ArgOption)
  | .inr (some r) => .result r
  | .inr none => .crashed
  | .inl _ => .stuck

/-- An operation on options is entered, unless the listing was asked for by
itself. -/
def enterOptions (s : ProviderSession) (asOptions : Bool) (stage : String) :
    ProviderSession :=
  if asOptions then s.report (·.enter .options stage) else s

/-- An operation on options is concluded, unless the listing was asked for by
itself. -/
def concludeOptions {α : Type} (s : ProviderSession) (asOptions : Bool)
    (ending : OpEnd α) : ProviderSession :=
  if asOptions then s.conclude ending else s

end ProviderSession

namespace Errand

/-- A step of an errand of a provider, and what becomes of the world: its tasks
go on, or a walk is given up. -/
inductive Work.Step (s : ProviderSession) : Work → DirectoryWorld → Work → Prop
  | sets {scene scene' : DirectoryScene}
      (hstep : (RunScene.play (s.directory.remote s.credentials)).Step
        { scene with world := s.world } scene') :
      Step s (.sets scene) scene'.world (.sets scene')
  | accounts {solo solo' : AccountsSolo}
      (hstep : (Solo.play (s.directory.walking s.credentials)).Step
        { solo with world := s.world } solo') :
      Step s (.accounts solo) solo'.world (.accounts solo')
  | abandons {solo : AccountsSolo} {k : AccountsUnderWay}
      (hunder : solo.task = .inl k) :
      Step s (.accounts solo)
        ((s.directory.walking s.credentials).abandon s.world solo.situation k)
        (.accounts { solo with task := .inr none })

/-- Whether the listing of an errand has come to a value or an error. -/
def Work.verdict : Work → Option Bool
  | .sets scene => scene.run.driver.verdict
  | .accounts solo => (ProviderSession.walkEnd solo.task).verdict

/-- The errand is reported on, and concluded if its listing has come to an
end. -/
def close (e : Errand) (s : ProviderSession) : ProviderSession :=
  match e.work with
  | .sets scene =>
    (s.report scene.run.account).concludeOptions e.asOptions
      (ProviderSession.enumerationEnd scene.run.driver)
  | .accounts solo =>
    s.concludeOptions e.asOptions (ProviderSession.walkEnd solo.task)

/-- The operations that an errand is. -/
def operations (e : Errand) : List Operation :=
  (if e.asOptions then [⟨.options, e.verdict⟩] else []) ++
    match e.work with
    | .sets _ => [⟨.enumeration, e.verdict⟩]
    | .accounts _ => []

end Errand

/-- A provider and its errands. -/
structure Desk where
  session : ProviderSession
  errands : List Errand := []

namespace Desk

/-- What goes on at a desk: the cache is used by others, and what else the
provider has may change; a listing is begun; an errand goes on; or an errand is
closed. -/
inductive Step (d : Desk) : Desk → Prop
  | uses {s : ProviderSession} (hcache : d.session.cache.Reaches s.cache) :
      Step d { d with session := s }
  | lists (asOptions standsAlone : Bool) (cancelAt dropAt : Option Nat)
      {s : ProviderSession}
      (hs : s = (d.session.enterOptions asOptions "permission_sets").report
        Run.announce) :
      Step d ⟨s, d.errands ++
        [{ asOptions := asOptions
           work := .sets (.start s.enumerator s.world standsAlone
             cancelAt dropAt) }]⟩
  | walks (asOptions : Bool) {s : ProviderSession}
      (hs : s = d.session.enterOptions asOptions "accounts") :
      Step d ⟨s, d.errands ++
        [{ asOptions := asOptions
           work := .accounts
             { world := s.world, task := .inl s.directory.startWalk } }]⟩
  | goes {before after : List Errand} {e : Errand} {world : DirectoryWorld}
      {work : Errand.Work} (hat : d.errands = before ++ e :: after)
      (hstep : e.work.Step d.session world work) :
      Step d ⟨{ d.session with world := world },
        before ++ { e with work := work } :: after⟩
  | closes {before after : List Errand} {e : Errand}
      (hat : d.errands = before ++ e :: after) (hopen : e.closed = false) :
      Step d ⟨e.close d.session,
        before ++ { e with closed := true, verdict := e.work.verdict } :: after⟩

/-- A state of a desk is reached from another by steps in any order. -/
abbrev Reaches : Desk → Desk → Prop := CloudAccess.Reaches Step

/-- The operations of a desk. -/
def operations (d : Desk) : List Operation :=
  d.session.cache.operations ++ d.errands.flatMap Errand.operations

end Desk

/-! ## What a step reports -/

namespace ProviderSession

variable {s : ProviderSession}

/-- What is reported leaves the retrievals as they are. -/
@[simp] theorem operations_report (s : ProviderSession) (f : Ledger → Ledger) :
    (s.report f).cache.operations = s.cache.operations := rfl

@[simp] theorem operations_enterOptions (s : ProviderSession) (asOptions : Bool)
    (stage : String) :
    (s.enterOptions asOptions stage).cache.operations = s.cache.operations := by
  unfold enterOptions
  split <;> rfl

@[simp] theorem operations_conclude {α : Type} (s : ProviderSession)
    (ending : OpEnd α) :
    (s.conclude ending).cache.operations = s.cache.operations := by
  cases ending <;> rfl

@[simp] theorem operations_concludeOptions {α : Type} (s : ProviderSession)
    (asOptions : Bool) (ending : OpEnd α) :
    (s.concludeOptions asOptions ending).cache.operations =
      s.cache.operations := by
  unfold concludeOptions
  split
  · exact operations_conclude s ending
  · rfl

theorem logs_enterOptions (s : ProviderSession) (asOptions : Bool)
    (stage : String) :
    s.cache.ledger.Logs (s.enterOptions asOptions stage).cache.ledger []
      (if asOptions then [⟨.options, none⟩] else []) := by
  cases asOptions with
  | false => exact .refl _ _
  | true => exact s.cache.ledger.logs_enter .options stage

theorem logs_conclude {α : Type} (s : ProviderSession) (ending : OpEnd α) :
    s.cache.ledger.Logs (s.conclude ending).cache.ledger [⟨.options, none⟩]
      [⟨.options, ending.verdict⟩] := by
  cases ending with
  | result r => exact s.cache.ledger.logs_finish .options r
  | crashed | stuck => exact .refl _ _

theorem logs_concludeOptions {α : Type} (s : ProviderSession) (asOptions : Bool)
    (ending : OpEnd α) :
    s.cache.ledger.Logs (s.concludeOptions asOptions ending).cache.ledger
      (if asOptions then [⟨.options, none⟩] else [])
      (if asOptions then [⟨.options, ending.verdict⟩] else []) := by
  cases asOptions with
  | false => exact .refl _ _
  | true => exact s.logs_conclude ending

end ProviderSession

namespace Errand

variable {e : Errand} {s : ProviderSession}

/-- A step of an errand acts on the cache. -/
theorem Work.Step.acts {work work' : Work} {world : DirectoryWorld}
    (h : Work.Step s work world work') : s.world.Acts world := by
  cases h with
  | sets hstep =>
    exact RunScene.world_step (Call.keeps_acts _) (s.directory.keeps_looking _)
      (fun _ => .refl) hstep
  | accounts hstep =>
    exact Solo.world_step (s.directory.keeps_walking _) (fun _ => .refl) hstep
  | abandons => exact (s.directory.keeps_walking _).abandon _ _ _

/-- A step of an errand that is not closed makes it no other operations. -/
theorem Work.Step.operations_eq {work : Work} {world : DirectoryWorld}
    (h : Work.Step s e.work world work) :
    { e with work := work }.operations = e.operations := by
  unfold operations
  cases hw : e.work <;> rw [hw] at h <;> cases h <;> rfl

@[simp] theorem operations_close (e : Errand) (s : ProviderSession) :
    (e.close s).cache.operations = s.cache.operations := by
  unfold close
  split <;> simp

/-- Closing an errand reports how it has returned, if it has. -/
theorem logs_close (s : ProviderSession) (hopen : e.verdict = none) :
    s.cache.ledger.Logs (e.close s).cache.ledger e.operations
      { e with closed := true, verdict := e.work.verdict }.operations := by
  unfold close operations Work.verdict
  rw [hopen]
  cases e.work with
  | sets scene =>
    have hevents := ((scene.run.logs_account s.cache.ledger).beside
      (if e.asOptions then [⟨.options, none⟩] else []) [])
    have hend := ((s.report scene.run.account).logs_concludeOptions e.asOptions
      (ProviderSession.enumerationEnd scene.run.driver)).beside []
        [⟨.enumeration, scene.run.driver.verdict⟩]
    simp only [List.append_nil, List.nil_append,
      ProviderSession.verdict_enumerationEnd] at hevents hend
    exact hevents.trans hend
  | accounts solo =>
    simpa using s.logs_concludeOptions e.asOptions
      (ProviderSession.walkEnd solo.task)

end Errand

namespace Desk

variable {c : Cache} {d d' : Desk}

/-- What was added to the ledger of a desk since the cache was as given is what
has become of the retrievals and of the errands; and an errand has no verdict
before it is closed. -/
structure Accounted (c : Cache) (d : Desk) : Prop where
  logs : c.ledger.Logs d.session.cache.ledger c.operations d.operations
  pending : ∀ e ∈ d.errands, e.closed = false → e.verdict = none

/-- What holds of all errands but one, and of what becomes of that one, holds of
all. -/
theorem forall_replaced {P : Errand → Prop} {errands before after : List Errand}
    {e e' : Errand} (hat : errands = before ++ e :: after)
    (hall : ∀ x ∈ errands, P x) (he : P e → P e') :
    ∀ x ∈ before ++ e' :: after, P x := by
  subst hat
  simp only [List.forall_mem_append, List.forall_mem_cons] at hall ⊢
  exact ⟨hall.1, he hall.2.1, hall.2.2⟩

theorem accounted_start (s : ProviderSession) : Accounted s.cache ⟨s, []⟩ where
  logs := by simpa [operations] using Ledger.Logs.refl _ _
  pending e he := by cases he

/-- A new errand is entered as its operations. -/
theorem Accounted.begins (h : d.Accounted c) {s : ProviderSession} {e : Errand}
    (hverdict : e.verdict = none)
    (hsame : s.cache.operations = d.session.cache.operations)
    (hlogs : d.session.cache.ledger.Logs s.cache.ledger [] e.operations) :
    Accounted c ⟨s, d.errands ++ [e]⟩ where
  logs := by
    have hnew := hlogs.beside d.operations []
    simp only [List.append_nil] at hnew
    refine h.logs.trans ?_
    simpa [operations, hsame] using hnew
  pending e' he' hopen := by
    rcases List.mem_append.1 he' with hin | hin
    · exact h.pending e' hin hopen
    · rw [List.mem_singleton.1 hin]
      exact hverdict

theorem Accounted.step (h : d.Accounted c) (hstep : d.Step d') :
    d'.Accounted c := by
  cases hstep with
  | uses hcache =>
    refine ⟨h.logs.trans ?_, h.pending⟩
    simpa [operations] using hcache.logs.beside []
      (d.errands.flatMap Errand.operations)
  | lists asOptions standsAlone cancelAt dropAt hs =>
    subst hs
    refine h.begins rfl (by simp) ?_
    have hoptions := d.session.logs_enterOptions asOptions "permission_sets"
    have hrun := (Ledger.logs_enter
      (d.session.enterOptions asOptions "permission_sets").cache.ledger
      .enumeration
        "enumerate").beside (if asOptions then [⟨.options, none⟩] else []) []
    simp only [List.append_nil] at hrun
    exact hoptions.trans hrun
  | walks asOptions hs =>
    subst hs
    refine h.begins rfl (by simp) ?_
    simpa [Errand.operations] using d.session.logs_enterOptions
      asOptions "accounts"
  | @goes before after e world work hat hstep =>
    have hsame := hstep.operations_eq
    refine ⟨h.logs.trans ?_, forall_replaced hat h.pending id⟩
    have hcache : d.session.cache.Reaches { d.session with
        world := world }.cache := hstep.acts
    have hlogs := hcache.logs.beside [] (d.errands.flatMap Errand.operations)
    simpa [operations, hat, hsame] using hlogs
  | @closes before after e hat hopen =>
    have hpending := h.pending e (by rw [hat]; simp) hopen
    refine ⟨h.logs.trans ?_, forall_replaced hat h.pending fun _ => nofun⟩
    have hclose := (Errand.logs_close d.session hpending).beside
      (d.session.cache.operations ++ before.flatMap Errand.operations)
      (after.flatMap Errand.operations)
    simpa [operations, hat] using hclose

/-- What a desk has reported is what has become of its retrievals and errands
wherever steps lead. -/
theorem accounted_reaches {s : ProviderSession} (h : Desk.Reaches ⟨s, []⟩ d) :
    d.Accounted s.cache :=
  h.invariant (accounted_start s) fun _ _ hu hstep => hu.step hstep

end Desk

/-! ## An operation by itself -/

namespace ProviderOp

/-- The operations that an operation of the provider is, by what its caller gets
to see. -/
def operations : ProviderOp → ProviderReply → List Operation
  | .options _, .permissionSets e =>
    [⟨.options, e.verdict⟩, ⟨.enumeration, e.verdict⟩]
  | .options _, .accounts e => [⟨.options, e.verdict⟩]
  | .permissionSets, .permissionSets e => [⟨.enumeration, e.verdict⟩]
  | _, _ => []

end ProviderOp

namespace Desk

variable {d : Desk}

/-- A listing of the permission sets is an errand that goes on by itself and is
closed. -/
theorem reaches_sets (s : ProviderSession) (errands : List Errand)
    (asOptions : Bool) : let listed :=
      (s.enterOptions asOptions "permission_sets").listPermissionSets
    ∃ e : Errand, Desk.Reaches ⟨s, errands⟩
        ⟨listed.1.concludeOptions asOptions listed.2.1, errands ++ [e]⟩ ∧
      e.operations =
        (if asOptions then [⟨.options, listed.2.1.verdict⟩] else []) ++
          [⟨.enumeration, listed.2.1.verdict⟩] := by
  intro listed
  let opened := (s.enterOptions asOptions "permission_sets").report Run.announce
  let first : DirectoryScene :=
    .start opened.enumerator opened.world true none none
  let play := RunScene.play (opened.directory.remote opened.credentials)
  let last := (play.run opened.steps [] first).state
  let place : DirectoryScene → Desk := fun scene =>
    ⟨{ opened with world := scene.world },
      errands ++ [{ asOptions := asOptions, work := .sets scene }]⟩
  have hopens : Step ⟨s, errands⟩ (place first) :=
    .lists asOptions true none none rfl
  have hgoes : Desk.Reaches (place first) (place last) := by
    refine (Play.reaches_run play opened.steps [] first).map (f := place)
      fun u v hstep => ?_
    have hwork : Errand.Work.Step (place u).session (.sets u) v.world
        (.sets v) := .sets hstep
    exact .single (Step.goes (d := place u) rfl hwork)
  have hcloses : Step (place last)
      ⟨listed.1.concludeOptions asOptions listed.2.1, errands ++
        [{ asOptions := asOptions, work := .sets last, closed := true
           verdict := last.run.driver.verdict }]⟩ :=
    Step.closes (d := place last) rfl rfl
  refine ⟨_, .step ((CloudAccess.Reaches.single hopens).trans hgoes) hcloses,
    ?_⟩
  have hverdict : listed.2.1.verdict = last.run.driver.verdict :=
    ProviderSession.verdict_enumerationEnd last.run.driver
  rw [hverdict]
  rfl

/-- A listing of the accounts is an errand that goes on by itself and is
closed. -/
theorem reaches_accounts (s : ProviderSession) (errands : List Errand)
    (asOptions : Bool) :
    let listed := (s.enterOptions asOptions "accounts").listAccounts
    ∃ e : Errand, Desk.Reaches ⟨s, errands⟩
        ⟨listed.1.concludeOptions asOptions listed.2.1, errands ++ [e]⟩ ∧
      e.operations = if asOptions then [⟨.options, listed.2.1.verdict⟩]
      else [] := by
  intro listed
  let opened := s.enterOptions asOptions "accounts"
  let first : AccountsSolo :=
    { world := opened.world, task := .inl opened.directory.startWalk }
  let play := Solo.play (opened.directory.walking opened.credentials)
  let last := (play.run opened.steps [] first).state
  let place : AccountsSolo → Desk := fun solo =>
    ⟨{ opened with world := solo.world },
      errands ++ [{ asOptions := asOptions, work := .accounts solo }]⟩
  have hopens : Step ⟨s, errands⟩ (place first) := .walks asOptions rfl
  have hgoes : Desk.Reaches (place first) (place last) := by
    refine (Play.reaches_run play opened.steps [] first).map (f := place)
      fun u v hstep => ?_
    have hwork : Errand.Work.Step (place u).session (.accounts u) v.world
        (.accounts v) :=
      .accounts hstep
    exact .single (Step.goes (d := place u) rfl hwork)
  have hend : listed.2.1 = ProviderSession.walkEnd last.task := rfl
  have hcloses : Step (place last)
      ⟨listed.1.concludeOptions asOptions listed.2.1, errands ++
        [{ asOptions := asOptions, work := .accounts last, closed := true
           verdict := (ProviderSession.walkEnd last.task).verdict }]⟩ := by
    rw [hend]
    exact Step.closes (d := place last) rfl rfl
  refine ⟨_, .step ((CloudAccess.Reaches.single hopens).trans hgoes) hcloses,
    ?_⟩
  rw [hend]
  exact List.append_nil _

/-- An operation of the provider is a way of its desk. -/
theorem reaches_apply (s : ProviderSession) (errands : List Errand)
    (op : ProviderOp) :
    ∃ more : List Errand, Desk.Reaches ⟨s, errands⟩ ⟨(s.apply op).1,
      errands ++ more⟩ ∧
      more.flatMap Errand.operations = op.operations (s.apply op).2.1 := by
  have hforgets : Desk.Reaches ⟨s, errands⟩ ⟨s.forgetCalls, errands⟩ :=
    .single (Step.uses (d := ⟨s, errands⟩) .refl)
  have huses {t : ProviderSession}
      (hcache : s.forgetCalls.cache.Reaches t.cache) :
      Desk.Reaches ⟨s, errands⟩ ⟨t, errands ++ []⟩ := by
    rw [List.append_nil]
    exact .step hforgets (Step.uses (d := ⟨s.forgetCalls, errands⟩) hcache)
  cases op with
  | options arg =>
    show ∃ more, Desk.Reaches _ ⟨(s.forgetCalls.listOptions arg).1, _⟩ ∧
      _ = (ProviderOp.options arg).operations
      (s.forgetCalls.listOptions arg).2.1
    unfold ProviderSession.listOptions
    split
    · obtain ⟨e, hreach, hops⟩ := reaches_sets s.forgetCalls errands true
      exact ⟨[e], hforgets.trans hreach, (List.append_nil _).trans hops⟩
    · split
      · obtain ⟨e, hreach, hops⟩ := reaches_accounts s.forgetCalls errands true
        exact ⟨[e], hforgets.trans hreach, (List.append_nil _).trans hops⟩
      · exact ⟨[], huses .refl, rfl⟩
  | permissionSets =>
    obtain ⟨e, hreach, hops⟩ := reaches_sets s.forgetCalls errands false
    exact ⟨[e], hforgets.trans hreach, (List.append_nil _).trans hops⟩
  | accounts =>
    obtain ⟨e, hreach, hops⟩ := reaches_accounts s.forgetCalls errands false
    exact ⟨[e], hforgets.trans hreach, (List.append_nil _).trans hops⟩
  | enumerator concurrency pageLimit =>
    simp only [ProviderSession.apply]
    split
    · exact ⟨[], huses .refl, rfl⟩
    · exact ⟨[], huses .refl, rfl⟩
  | schema | config => exact ⟨[], huses .refl, rfl⟩
  | invalidate =>
    exact ⟨[], huses (PlannedCache.reaches_act _ .invalidate), rfl⟩
  | retrieve => exact ⟨[], huses (Batch.reaches_run _ _ _), rfl⟩

end Desk

end CloudAccess
