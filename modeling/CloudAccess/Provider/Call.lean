import CloudAccess.Cache.Assumer
import CloudAccess.Enumeration.Page
import CloudAccess.Plan
import CloudAccess.Process
import CloudAccess.Provider.Directory

/-!
# Planned calls of the directory

A directory whose answers are planned: what each call brings, how long it
takes and how it fails.  Before a call is answered it may have to get
credentials from the cache of the provider.

* `Directory` holds the plans, and `PlannedDirectory` those of a directory
  whose pages depend on their tokens only.
* `Call.process` carries out calls on a `DirectoryWorld`, which holds the cache
  and a diary of the calls made.
-/

namespace CloudAccess

/-- The plans for pages that follow one another.  A page is planned by its token
and by the number of pages asked for before it, so that the same token need not
bring the same page again. -/
abbrev PagePlans (α : Type) :=
  Nat → Option String → Except RemoteError (Planned α)

/-- The plans of a directory.  `usesCredentials` says whether calls need
credentials. -/
structure Directory where
  permissionSets : PagePlans Page
  description : String → Planned PermissionSet
  tags : String → PagePlans TagPage
  accounts : PagePlans AccountPage
  usesCredentials : Bool

/-- The plans of a directory as tables from tokens to pages. -/
structure PlannedDirectory where
  permissionSets : PlannedPages Page := []
  descriptions : List (String × Planned PermissionSet) := []
  tags : List (String × PlannedPages TagPage) := []
  accounts : PlannedPages AccountPage := []
  usesCredentials : Bool := false

namespace PlannedDirectory

/-- The description planned for a permission set; one without a plan is not
found. -/
def description (d : PlannedDirectory) (arn : String) : Planned PermissionSet :=
  (d.descriptions.lookup arn).getD
    { content := ⟨none, none⟩, error := some ("ResourceNotFound: " ++ arn) }

/-- The pages of tags planned for a permission set; without a plan there is
one page without tags. -/
def tagPages (d : PlannedDirectory) (arn : String) : PlannedPages TagPage :=
  match (d.tags.lookup arn).getD [] with
  | [] => [(none, { content := ⟨[], none⟩ })]
  | pages => pages

/-- The directory that answers from the tables. -/
def directory (d : PlannedDirectory) : Directory where
  permissionSets _ := d.permissionSets.find
  description := d.description
  tags arn _ := (d.tagPages arn).find
  accounts _ := d.accounts.find
  usesCredentials := d.usesCredentials

instance : Coe PlannedDirectory Directory := ⟨directory⟩

end PlannedDirectory

/-- What calls work on: the cache of the provider, and the calls made so far
with their units, the latest first. -/
structure DirectoryWorld where
  scene : PlannedCache
  calls : List (Nat × DirectoryCall) := []

/-- How far a call has come. -/
inductive Call.Stage
  | begun
  | retrieving (i : Nat)
  | pausing (due : Nat)
  | yielding (round : Nat)

/-- A call under way: what it is, its plan or the failure to find one, and how
far it has come. -/
structure Call (α : Type) where
  name : DirectoryCall
  plan : Except RemoteError (Planned α)
  stage : Call.Stage := .begun

namespace Call

variable {α : Type}

/-- Whether a call can go on. -/
def ready (w : DirectoryWorld) (s : Situation) (c : Call α) : Bool :=
  match c.stage with
  | .begun => true
  | .retrieving i => (w.scene.fate? i).isSome || w.scene.ready s.moment.unit i
  | .pausing due => due ≤ s.moment.unit
  | .yielding round => round < s.moment.round

/-- The unit at which a call can go on.  One that lets everything else go on
first does so within its unit. -/
def due (w : DirectoryWorld) (s : Situation) (c : Call α) : Option Nat :=
  match c.stage with
  | .begun => none
  | .retrieving i => w.scene.due i
  | .pausing due => some due
  | .yielding _ => some s.moment.unit

/-- A call waits as long as planned. -/
def pause (c : Call α) (s : Situation) (p : Planned α) : Call α :=
  { c with stage := .pausing (s.moment.unit + p.delay) }

/-- A call that has a plan is written down and begins: with a retrieval
through the given handle if it needs credentials. -/
def launch (credentials : Option Handle) (w : DirectoryWorld) (s : Situation)
    (c : Call α) (p : Planned α) : DirectoryWorld × Call α :=
  let w := { w with calls := (s.moment.unit, c.name) :: w.calls }
  match credentials with
  | none => (w, c.pause s p)
  | some h =>
    ({ w with scene := w.scene.act (.start h) },
      { c with stage := .retrieving w.scene.nextRetrieval })

/-- A call takes a turn. -/
def turn (credentials : Option Handle) (w : DirectoryWorld) (s : Situation)
    (c : Call α) :
    DirectoryWorld × Turn (Call α) (Outcome α) :=
  match c.plan with
  | .error e => (w, .done (.failed e))
  | .ok p =>
    match c.stage with
    | .begun =>
      let (w, c) := c.launch credentials w s p
      (w, .goOn c)
    | .retrieving i =>
      match w.scene.fate? i with
      | none => ({ w with scene := w.scene.step s.moment.unit i }, .goOn c)
      | some (.returned (.ok _)) => (w, .goOn (c.pause s p))
      | some (.returned (.error e)) => (w, .done (.failed (.ofAccessError e)))
      | some .crashed | some .dropped => (w, .done .crashed)
    | .pausing _ =>
      if p.yields then (w, .goOn { c with stage := .yielding s.moment.round })
      else (w, .done p.outcome)
    | .yielding _ => (w, .done p.outcome)

/-- A call that is abandoned gives up its retrieval. -/
def abandon (w : DirectoryWorld) (_ : Situation) (c : Call α) :
    DirectoryWorld :=
  match c.stage with
  | .retrieving i => { w with scene := w.scene.drop i }
  | _ => w

/-- Calls of the directory, which get credentials through a handle or need
none. -/
def process (credentials : Option Handle) :
    Process DirectoryWorld (Call α) (Outcome α) where
  ready := ready
  due := due
  turn := turn credentials
  abandon := abandon

end Call

namespace Directory

/-- The call for a page of permission sets, after `k` others. -/
def listPermissionSets (d : Directory) (k : Nat) (token : Option String) :
    Call Page :=
  { name := .permissionSets token, plan := d.permissionSets k token }

/-- The call for a description. -/
def describe (d : Directory) (arn : String) : Call PermissionSet :=
  { name := .describe arn, plan := .ok (d.description arn) }

/-- The call for a page of tags, after `k` others. -/
def listTags (d : Directory) (arn : String) (k : Nat) (token : Option String) :
    Call TagPage :=
  { name := .tags arn token, plan := d.tags arn k token }

/-- The call for a page of accounts, after `k` others. -/
def listAccounts (d : Directory) (k : Nat) (token : Option String) :
    Call AccountPage :=
  { name := .accounts token, plan := d.accounts k token }

end Directory

end CloudAccess
