import CloudAccess.Proofs.Provider.Chains

/-!
# What a turn of a call comes to

The calls of the directory and the lookups that chain them, one turn at a time.

* `Call.Makes` says that a call under way is one of the directory, and
  `Call.effect_turn` what a turn of it comes to: it goes on, and `Goes` says how
  its stage and the cache change then, or it ends.
* `Ends` says how a call, or what is made of calls, ends: as planned, or without
  a value for lack of credentials.
* `OnTask` says that a lookup under way reads on where it should, and
  `SetLookup.effect_turn` what a turn of it comes to: its call goes on, it makes
  the next call, or it ends.
-/

namespace CloudAccess

/-! ## Stages -/

namespace Call.Stage

/-- Whether a call at this stage can go on. -/
def ready (p : PlannedCache) (m : Moment) : Stage → Bool
  | begun => true
  | retrieving i => (p.fate? i).isSome || p.ready m.unit i
  | pausing due => due ≤ m.unit
  | yielding round => round < m.round

/-- The unit at which a call at this stage can go on. -/
def due (p : PlannedCache) (m : Moment) : Stage → Option Nat
  | begun => none
  | retrieving i => p.due i
  | pausing due => some due
  | yielding _ => some m.unit

/-- What becomes of the cache when a call at this stage is abandoned. -/
def abandon (p : PlannedCache) : Stage → PlannedCache
  | retrieving i => p.drop i
  | _ => p

/-- How a call goes from one stage to the next, or stays, and what becomes of
the cache.  A call that needs credentials starts a retrieval and lets it go on
until that has ended. -/
inductive Goes (credentials : Option Handle) (p : PlannedCache) (m : Moment) :
    Stage → PlannedCache → Stage → Prop
  | pauses {due : Nat} : Goes credentials p m begun p (pausing due)
  | retrieves {h : Handle} (hsome : credentials = some h) :
      Goes credentials p m begun (p.act (.start h)) (retrieving p.nextRetrieval)
  | waits {i : Nat} (hfate : p.fate? i = none) :
      Goes credentials p m (retrieving i) (p.step m.unit i) (retrieving i)
  | supplied {i due : Nat} (hfate : (p.fate? i).isSome = true) :
      Goes credentials p m (retrieving i) p (pausing due)
  | yields {due : Nat} : Goes credentials p m (pausing due) p (yielding m.round)

/-- No retrieval of a call at this stage is under way. -/
def Unsupplied (p : PlannedCache) (stage : Stage) : Prop :=
  ∀ i, stage = retrieving i → (p.fate? i).isSome = true

/-- Only a call that needs credentials retrieves any. -/
theorem Goes.needs {credentials : Option Handle} {p p' : PlannedCache}
    {m : Moment} {stage stage' : Stage}
    (h : Goes credentials p m stage p' stage')
    (hneeds : ∀ i, stage = retrieving i → credentials.isSome = true) :
    ∀ i, stage' = retrieving i → credentials.isSome = true := by
  intro i hi
  cases h with
  | retrieves hsome => rw [hsome]; rfl
  | waits => exact hneeds _ rfl
  | pauses | supplied | yields => cases hi

end Call.Stage

/-! ## Calls -/

/-- How a call ends that is planned to end so: as planned, or, when calls need
credentials, without a value. -/
def Ends {α : Type} (credentials : Option Handle) (planned o : Outcome α) :
    Prop :=
  o = planned ∨ credentials.isSome = true ∧ o.isValue = false

/-- A value is as planned. -/
theorem Ends.value {α : Type} {credentials : Option Handle}
    {planned : Outcome α} {a : α} (h : Ends credentials planned (.value a)) :
    planned = .value a := by
  rcases h with h | ⟨_, hno⟩
  · exact h.symm
  · cases hno

/-- A call that needs no credentials ends as planned. -/
theorem Ends.eq_planned {α : Type} {credentials : Option Handle}
    {planned o : Outcome α} (h : Ends credentials planned o)
    (hnone : credentials = none) : o = planned := by
  rcases h with h | ⟨hsome, _⟩
  · exact h
  · rw [hnone] at hsome
    cases hsome

namespace Call

variable {α : Type} {credentials : Option Handle} {w w' : DirectoryWorld}
  {s : Situation} {c c' named : Call α} {o : Outcome α}

@[simp] theorem ready_eq (w : DirectoryWorld) (s : Situation) (c : Call α) :
    c.ready w s = c.stage.ready w.scene s.moment := by
  unfold ready Stage.ready
  cases c.stage <;> rfl

@[simp] theorem due_eq (w : DirectoryWorld) (s : Situation) (c : Call α) :
    c.due w s = c.stage.due w.scene s.moment := by
  unfold due Stage.due
  cases c.stage <;> rfl

@[simp] theorem scene_abandon (w : DirectoryWorld) (s : Situation)
    (c : Call α) : (c.abandon w s).scene = c.stage.abandon w.scene := by
  unfold abandon Stage.abandon
  cases c.stage <;> rfl

/-- How a call is planned to end. -/
def outcome (c : Call α) : Outcome α :=
  match c.plan with
  | .ok p => p.outcome
  | .error e => .failed e

/-- A call under way is the named one.  It retrieves credentials only if calls
need any and it has a plan. -/
structure Makes (credentials : Option Handle) (named c : Call α) : Prop where
  name_eq : c.name = named.name
  plan_eq : c.plan = named.plan
  needs : ∀ i, c.stage = .retrieving i → credentials.isSome = true
  planned : ∀ e, c.plan = .error e → ∀ i, c.stage ≠ .retrieving i

/-- A call that has begun is under way. -/
theorem makes_begun (h : named.stage = .begun) :
    Makes credentials named named := by
  refine ⟨rfl, rfl, fun i hi => ?_, fun e _ i hi => ?_⟩ <;>
    rw [h] at hi <;> cases hi

/-- What a turn of a call comes to. -/
inductive Effect (credentials : Option Handle) (w : DirectoryWorld) (m : Moment)
    (named c : Call α) : DirectoryWorld × Turn (Call α) (Outcome α) → Prop
  | goOn {w' : DirectoryWorld} {c' : Call α}
      (hmakes : Makes credentials named c')
      (hgoes : Stage.Goes credentials w.scene m c.stage w'.scene c'.stage) :
      Effect credentials w m named c (w', .goOn c')
  | done {o : Outcome α} (hover : c.stage.Unsupplied w.scene)
      (ho : Ends credentials named.outcome o) :
      Effect credentials w m named c (w, .done o)

/-- A call that has a plan goes to another stage. -/
theorem Makes.goOn (h : Makes credentials named c) {m : Moment} {p : Planned α}
    (hok : c.plan = .ok p) (hname : c'.name = c.name) (hplan : c'.plan = .ok p)
    {stage : Stage} (hstage : c.stage = stage)
    (hgoes : Stage.Goes credentials w.scene m stage w'.scene c'.stage) :
    Effect credentials w m named c (w', .goOn c') := by
  subst hstage
  refine .goOn ⟨hname.trans h.name_eq, ?_, hgoes.needs h.needs,
    fun e he => ?_⟩ hgoes
  · rw [hplan, ← hok, h.plan_eq]
  · rw [hplan] at he
    cases he

/-- A call ends as planned. -/
theorem Makes.done (h : Makes credentials named c) {m : Moment}
    (ho : c.outcome = o) (hnot : ∀ i, c.stage ≠ .retrieving i) :
    Effect credentials w m named c (w, .done o) := by
  refine .done (fun i hi => absurd hi (hnot i)) (.inl ?_)
  rw [← ho, outcome, outcome, h.plan_eq]

/-- A call that has retrieved its credentials waits, and one that could not
ends. -/
theorem effect_retrieving {name : DirectoryCall} {p : Planned α} {i : Nat}
    (h : Makes credentials named ⟨name, .ok p, .retrieving i⟩)
    (w : DirectoryWorld) (s : Situation) :
    Effect credentials w s.moment named ⟨name, .ok p, .retrieving i⟩
      (Call.turn credentials w s ⟨name, .ok p, .retrieving i⟩) := by
  have hfailed {o : Outcome α} (hfate : (w.scene.fate? i).isSome = true)
      (ho : o.isValue = false) :
      Effect credentials w s.moment named ⟨name, .ok p, .retrieving i⟩
        (w, .done o) := by
    refine .done (fun j hj => ?_) (.inr ⟨h.needs i rfl, ho⟩)
    injection hj with hj
    exact hj ▸ hfate
  simp only [turn]
  cases hfate : w.scene.fate? i with
  | none => exact h.goOn rfl rfl rfl rfl (.waits hfate)
  | some fate =>
    cases fate with
    | returned result =>
      cases result with
      | ok set => exact h.goOn rfl rfl rfl rfl (.supplied (by rw [hfate]; rfl))
      | error e => exact hfailed (by rw [hfate]; rfl) rfl
    | crashed | dropped => exact hfailed (by rw [hfate]; rfl) rfl

/-- A call goes on, or ends as planned, or for lack of credentials. -/
theorem effect_turn (h : Makes credentials named c) (w : DirectoryWorld)
    (s : Situation) :
    Effect credentials w s.moment named c (c.turn credentials w s) := by
  obtain ⟨name, plan, stage⟩ := c
  cases plan with
  | error e => exact h.done rfl (h.planned e rfl)
  | ok p =>
    cases stage with
    | begun =>
      cases credentials with
      | none => exact h.goOn rfl rfl rfl rfl .pauses
      | some handle => exact h.goOn rfl rfl rfl rfl (.retrieves rfl)
    | retrieving i => exact effect_retrieving h w s
    | pausing due =>
      simp only [turn]
      split
      · exact h.goOn rfl rfl rfl rfl .yields
      · exact h.done rfl (by simp)
    | yielding round => exact h.done rfl (by simp)

end Call

/-! ## Lookups -/

namespace Directory

variable (d : Directory)

/-- How the lookup of a permission set with such tags ends when it is not
stopped. -/
def verdict (arn : String) (tags : List (Outcome TagPage)) :
    Outcome EnrichedItem :=
  CloudAccess.verdict arn (d.description arn).outcome tags

end Directory

namespace SetLookup

/-- The stage of the call under way. -/
def stage : SetLookup → Call.Stage
  | describing _ call => call.stage
  | readingTags _ _ _ call => call.stage

@[simp] theorem ready_eq (d : Directory) (credentials : Option Handle)
    (w : DirectoryWorld) (s : Situation) (task : SetLookup) :
    (d.looking credentials).ready w s task =
      task.stage.ready w.scene s.moment := by
  cases task <;> exact Call.ready_eq w s _

@[simp] theorem due_eq (d : Directory) (credentials : Option Handle)
    (w : DirectoryWorld) (s : Situation) (task : SetLookup) :
    (d.looking credentials).due w s task = task.stage.due w.scene s.moment := by
  cases task <;> exact Call.due_eq w s _

@[simp] theorem scene_abandon (d : Directory) (credentials : Option Handle)
    (w : DirectoryWorld) (s : Situation) (task : SetLookup) :
    ((d.looking credentials).abandon w s task).scene =
      task.stage.abandon w.scene := by
  cases task <;> exact Call.scene_abandon w s _

/-- The number of calls that may still have to be made after the one under
way. -/
noncomputable def ahead (d : Directory) : SetLookup → Nat
  | describing arn _ => Chain.count (d.tags arn).answer (·.nextToken) 0 none
  | readingTags arn _ k call =>
    match call.name with
    | .tags _ token => Chain.count (d.tags arn).answer (·.nextToken) k token - 1
    | _ => 0

variable {d : Directory} {credentials : Option Handle} {x : String}
  {tags : List (Outcome TagPage)} {task : SetLookup} {w : DirectoryWorld}
  {s : Situation}

/-- A lookup under way describes its permission set, or has got so far with its
tags that the rest of them decides. -/
inductive OnTask (d : Directory) (credentials : Option Handle) (x : String)
    (tags : List (Outcome TagPage)) : SetLookup → Prop
  | describing {call : Call PermissionSet}
      (hcall : Call.Makes credentials (d.describe x) call) :
      OnTask d credentials x tags (.describing x call)
  | readingTags {label : String} {k : Nat} {token : Option String}
      {rest : List (Outcome TagPage)} {call : Call TagPage}
      (hcall : Call.Makes credentials (d.listTags x k token) call)
      (hrest : Chain (d.tags x).answer (·.nextToken) k token rest)
      (hsame : tagVerdict x label rest = d.verdict x tags) :
      OnTask d credentials x tags (.readingTags x label k call)

/-- A lookup begins with the description. -/
theorem onTask_begun :
    OnTask d credentials x tags (.describing x (d.describe x)) :=
  .describing (Call.makes_begun rfl)

/-- A lookup on its task retrieves credentials only if calls need any. -/
theorem OnTask.needs (h : OnTask d credentials x tags task) {i : Nat}
    (hstage : task.stage = .retrieving i) : credentials.isSome = true := by
  cases h with
  | describing hcall | readingTags hcall => exact hcall.needs i hstage

/-- How the lookup of a permission set ends: as its calls decide, or without a
permission set once the enumeration is cancelled. -/
def EndsIn (d : Directory) (credentials : Option Handle) (x : String)
    (tags : List (Outcome TagPage)) (cancelled : Bool)
    (o : Outcome EnrichedItem) : Prop :=
  Ends credentials (d.verdict x tags) o ∨
    cancelled = true ∧ o = .value (.rejected x)

/-- How a lookup goes on, and what becomes of the cache: its call goes on, or it
makes the next one. -/
inductive Goes (d : Directory) (credentials : Option Handle) (p : PlannedCache)
    (m : Moment) (task : SetLookup) (p' : PlannedCache) (task' : SetLookup) :
    Prop
  | call (hahead : task'.ahead d = task.ahead d)
      (hgoes : Call.Stage.Goes credentials p m task.stage p' task'.stage) :
      Goes d credentials p m task p' task'
  | next (hover : task.stage.Unsupplied p) (hscene : p' = p)
      (hahead : task'.ahead d < task.ahead d) (hbegun : task'.stage = .begun) :
      Goes d credentials p m task p' task'

/-- What a turn of a lookup comes to. -/
inductive Effect (d : Directory) (credentials : Option Handle)
    (w : DirectoryWorld) (s : Situation) (x : String)
    (tags : List (Outcome TagPage)) (task : SetLookup) :
    DirectoryWorld × Turn SetLookup (Outcome EnrichedItem) → Prop
  | goOn {w' : DirectoryWorld} {task' : SetLookup}
      (hon : OnTask d credentials x tags task')
      (hgoes : Goes d credentials w.scene s.moment task w'.scene task') :
      Effect d credentials w s x tags task (w', .goOn task')
  | done {o : Outcome EnrichedItem} (hover : task.stage.Unsupplied w.scene)
      (ho : EndsIn d credentials x tags s.cancelled o) :
      Effect d credentials w s x tags task (w, .done o)

/-- A turn of a call within a lookup: the call goes on, or its answer leads
on. -/
theorem effect_embed {α : Type} {stay : Call α → SetLookup}
    {next : α → Turn SetLookup (Outcome EnrichedItem)} {named call : Call α}
    {turned : DirectoryWorld × Turn (Call α) (Outcome α)}
    (he : Call.Effect credentials w s.moment named call turned)
    (hstage : ∀ c, (stay c).stage = c.stage)
    (hstay : ∀ c, Call.Makes credentials named c →
      OnTask d credentials x tags (stay c) ∧ (stay c).ahead d =
      (stay call).ahead d)
    (hfailed : named.outcome.isValue = false →
      d.verdict x tags = named.outcome.without fun _ => .crashed)
    (hnext : ∀ a, named.outcome = .value a → call.stage.Unsupplied w.scene →
      Effect d credentials w s x tags (stay call) (w, next a)) :
    Effect d credentials w s x tags (stay call)
      (turned.1, Directory.embed stay next turned.2) := by
  have hended {o : Outcome EnrichedItem} (hover : call.stage.Unsupplied w.scene)
      (ho : EndsIn d credentials x tags s.cancelled o) :
      Effect d credentials w s x tags (stay call) (w, .done o) :=
    .done (by rw [hstage]; exact hover) ho
  -- a value leads on; what is none ends the lookup as it ended the call
  cases he with
  | @goOn w' c' hmakes hgoes =>
    obtain ⟨hon, hahead⟩ := hstay c' hmakes
    exact .goOn hon (.call hahead (by rw [hstage, hstage]; exact hgoes))
  | @done o hover ho =>
    cases o with
    | value a => exact hnext a ho.value hover
    | failed | crashed =>
      refine hended hover (.inl ?_)
      rcases ho with ho | ⟨hcredentials, -⟩
      · exact .inl (by rw [hfailed (by rw [← ho]; rfl), ← ho]; rfl)
      · exact .inr ⟨hcredentials, rfl⟩

/-- The description of a permission set is under way. -/
theorem effect_describing {call : Call PermissionSet} (htags : d.Tags x tags)
    (hcall : Call.Makes credentials (d.describe x) call) (w : DirectoryWorld)
    (s : Situation) :
    Effect d credentials w s x tags (.describing x call)
      (d.lookupTurn credentials w s (.describing x call)) := by
  have houtcome : (d.describe x).outcome = (d.description x).outcome := rfl
  refine effect_embed (Call.effect_turn hcall w s) (fun _ => rfl)
    (fun c hc => ⟨.describing hc, rfl⟩) (fun hno => ?_) (fun p hp hover => ?_)
  · exact Outcome.without_congr hno
  · unfold Inquiry.afterDescription Inquiry.askTags
    split
    · rename_i hcancelled
      exact .done hover (.inr ⟨hcancelled, rfl⟩)
    · have hsame : tagVerdict x p.label tags = d.verdict x tags := by
        rw [Directory.verdict, CloudAccess.verdict, ← houtcome, hp]
        rfl
      refine .goOn (.readingTags (Call.makes_begun rfl) htags hsame)
        (.next hover rfl ?_ rfl)
      have hpos := htags.length_pos
      simp only [ahead, Directory.listTags, Chain.count_eq htags]
      omega

/-- A page of the tags of a permission set is under way. -/
theorem effect_readingTags {label : String} {k : Nat} {token : Option String}
    {rest : List (Outcome TagPage)} {call : Call TagPage}
    (hcall : Call.Makes credentials (d.listTags x k token) call)
    (hrest : Chain (d.tags x).answer (·.nextToken) k token rest)
    (hsame : tagVerdict x label rest = d.verdict x tags) (w : DirectoryWorld)
    (s : Situation) :
    Effect d credentials w s x tags (.readingTags x label k call)
      (d.lookupTurn credentials w s (.readingTags x label k call)) := by
  have houtcome : (d.listTags x k token).outcome = (d.tags x).answer k token :=
    rfl
  obtain ⟨later, rfl⟩ := hrest.exists_cons
  have hahead {k' : Nat} {token' : Option String} {c : Call TagPage}
      (hc : Call.Makes credentials (d.listTags x k' token') c) :
      (readingTags x label k' c).ahead d =
        Chain.count (d.tags x).answer (·.nextToken) k' token' - 1 := by
    simp only [ahead, hc.name_eq, Directory.listTags]
  refine effect_embed (Call.effect_turn hcall w s) (fun _ => rfl)
    (fun c hc => ⟨.readingTags hc hrest hsame, by rw [hahead hc, hahead hcall]⟩)
    (fun hno => ?_) (fun page hpage hover => ?_)
  · exact hsame.symm.trans (tagVerdict_cons_of_not_isValue hno)
  rw [houtcome] at hpage
  rw [hpage] at hsame
  unfold Inquiry.afterTags
  -- this page decides, or the rest of the chain does
  split
  · rename_i hmarks
    have hmarks : page.marksManaged = true := hmarks
    refine .done hover (.inl (.inl ?_))
    rw [← hsame, tagVerdict, if_pos hmarks]
  · rename_i hmarks
    have hmarks : ¬page.marksManaged = true := hmarks
    rw [tagVerdict, if_neg hmarks] at hsame
    split
    · rename_i token' hnext
      unfold Inquiry.askTags
      split
      · rename_i hcancelled
        exact .done hover (.inr ⟨hcancelled, rfl⟩)
      · have hlater := hrest.tail hpage (by rw [hnext]; rfl)
        rw [hnext] at hlater
        refine .goOn (.readingTags (Call.makes_begun rfl) hlater hsame)
          (.next hover rfl ?_ rfl)
        have hpos := hlater.length_pos
        rw [hahead (Call.makes_begun rfl), hahead hcall, Chain.count_eq hrest,
          Chain.count_eq hlater, List.length_cons]
        omega
    · rename_i hnext
      rw [hrest.tail_eq_nil hpage hnext, tagVerdict] at hsame
      exact .done hover (.inl (.inl hsame))

/-- A lookup goes on with its call, makes the next one, or ends. -/
theorem effect_turn (h : OnTask d credentials x tags task)
    (htags : d.Tags x tags) (w : DirectoryWorld) (s : Situation) :
    Effect d credentials w s x tags task
      (d.lookupTurn credentials w s task) := by
  cases h with
  | describing hcall => exact effect_describing htags hcall w s
  | readingTags hcall hrest hsame =>
    exact effect_readingTags hcall hrest hsame w s

end SetLookup

end CloudAccess
