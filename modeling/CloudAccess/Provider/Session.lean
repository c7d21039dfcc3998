import CloudAccess.Cache.Batch
import CloudAccess.Codec.Provider
import CloudAccess.Provider.Lookup

/-!
# Sessions with the provider

The provider assumes its role once when it is set up, and then lists the
options of its two arguments.

* `ProviderSession.init` sets the provider up.
* `ProviderSession.apply` carries out one operation and says what the caller
  gets to see of it.
-/

namespace CloudAccess

namespace Provider

/-- The name of the session under which the provider assumes its role. -/
def sessionName : String := "accesshandler-aws-sso"

/-- The argument that selects a permission set. -/
def permissionSetArg : String := "permissionSetArn"

/-- The argument that selects an account. -/
def accountArg : String := "accountId"

/-- The schema of one argument. -/
def argSchema (title description : String) : Json :=
  .object [("title", .string title), ("description", .string description),
    ("type", .string "string")]

/-- The schema of the arguments. -/
def schema : Json := .object
  [("$schema", .string "https://json-schema.org/draft/2020-12/schema"),
    ("title", .string "SSO access arguments"),
    ("type", .string "object"),
    ("properties", .object
      [(permissionSetArg,
          argSchema "Permission Set" "ARN of the permission set to grant."),
        (accountArg,
          argSchema "Account"
            "Organization account the permission set is provisioned to.")]),
    ("required", .array [.string permissionSetArg, .string accountArg]),
    ("additionalProperties", .bool false)]

/-- The request with which the provider assumes its role. -/
def request (c : ProviderConfig) (generated : SessionName) :
    Except AccessError Request :=
  RequestDraft.build
    { roleArn := c.roleArn.text, sessionName := some sessionName } generated

/-- The handle through which the provider and its calls look at the cache. -/
def handle : Handle := { clock := 1 }

end Provider

/-- How an operation of the provider ends: with a result, with a crash, or it
never ends. -/
inductive OpEnd (α : Type)
  | result (r : Except AccessError α)
  | crashed
  | stuck

/-- An operation of the provider. -/
inductive ProviderOp
  | options (arg : String)
  | permissionSets
  | accounts
  | schema
  | config
  | enumerator (concurrency pageLimit : Option Nat)
  | invalidate
  | retrieve

/-- What a caller gets to see of an operation. -/
inductive ProviderReply
  | done
  | refused (e : AccessError)
  | permissionSets (e : OpEnd ResultSet)
  | accounts (e : OpEnd (List ArgOption))
  | schema (j : Json)
  | config (c : ProviderConfig)
  | retrieval (fate : Option Retrieval.Fate)

/-- A provider that was set up, with its directory and the steps granted to an
operation. -/
structure ProviderSession where
  config : ProviderConfig
  directory : Directory
  world : DirectoryWorld
  enumerator : Enumerator := .standard
  steps : Nat

namespace ProviderSession

/-- The cache of the provider. -/
def cache (s : ProviderSession) : Cache := s.world.scene.cache

/-- Changes what was reported so far. -/
def report (s : ProviderSession) (f : Ledger → Ledger) : ProviderSession :=
  { s with world.scene.cache.ledger := f s.cache.ledger }

/-- The handle through which calls get their credentials, if they need
any. -/
def credentials (s : ProviderSession) : Option Handle :=
  if s.directory.usesCredentials then some Provider.handle else none

/-- Retrieves credentials through the handle of the provider. -/
def retrieve (scene : PlannedCache) : Batch :=
  (Batch.start scene [Provider.handle] none).run

/-- How the retrieval of a batch of one has ended. -/
def retrieved (b : Batch) : Option Retrieval.Fate := b.fates.head?.join

/-- The cache of a provider before it is set up: the first clock belongs to
the planned assumptions, the second one to the provider. -/
def emptyScene (request : Request) (plan : List PlannedAssumption)
    (now : Instant) : PlannedCache :=
  { cache := .unused request [.epoch, now], plan := plan }

/-- Sets a provider up: it assumes its role and is there once it has
credentials.  Without them there is only the cache and how the retrieval
ended. -/
def init (config : ProviderConfig) (directory : Directory)
    (scene : PlannedCache) (steps : Nat) :
    Except (PlannedCache × Option Retrieval.Fate) ProviderSession :=
  let batch := retrieve scene
  match retrieved batch with
  | some (.returned (.ok _)) =>
    let s : ProviderSession :=
      { config := config
        directory := directory
        world := { scene := batch.scene }
        steps := steps }
    .ok (s.report (·.report
      [.providerConfigured config.instanceArn.text
        config.identityStoreId.text]))
  | fate => .error (batch.scene, fate)

/-- Counts how an operation on options ended, if it has. -/
def conclude {α : Type} (s : ProviderSession) : OpEnd α → ProviderSession
  | .result r => s.report (·.finish .options r)
  | .crashed | .stuck => s

/-- How an enumeration of the permission sets ended. -/
def enumerationEnd : Run.Driver → OpEnd ResultSet
  | .returned r => .result (r.mapError .enumeration)
  | .crashed | .dropped => .crashed
  | _ => .stuck

/-- Lists the permission sets that are managed. -/
def listPermissionSets (s : ProviderSession) :
    ProviderSession × OpEnd ResultSet × Moment :=
  let s := s.report Run.announce
  let scene :=
    ((RunScene.play (s.directory.remote s.credentials)).run s.steps []
    (.start s.enumerator s.world true none none)).state
  let s := { s with world := scene.world }
  (s.report scene.run.account, enumerationEnd scene.run.driver, scene.moment)

/-- Lists the accounts. -/
def listAccounts (s : ProviderSession) :
    ProviderSession × OpEnd (List ArgOption) × Moment :=
  let solo := Solo.run (s.directory.walking s.credentials) s.steps s.world
    s.directory.startWalk
  let ending : OpEnd (List ArgOption) :=
    match solo.task with
    | .inr (some r) => .result r
    | .inr none => .crashed
    | .inl _ => .stuck
  ({ s with world := solo.world }, ending, solo.moment)

/-- Lists the options of an argument. -/
def listOptions (s : ProviderSession) (arg : String) :
    ProviderSession × ProviderReply × Moment :=
  if arg = Provider.permissionSetArg then
    let (s, ending, moment) :=
      (s.report (·.enter .options "permission_sets")).listPermissionSets
    (s.conclude ending, .permissionSets ending, moment)
  else if arg = Provider.accountArg then
    let (s, ending, moment) :=
      (s.report (·.enter .options "accounts")).listAccounts
    (s.conclude ending, .accounts ending, moment)
  else (s, .refused (.invalidArgument arg), {})

/-- Forgets the calls made so far. -/
def forgetCalls (s : ProviderSession) : ProviderSession :=
  { s with world.calls := [] }

/-- Carries out an operation and tells when it ended. -/
def apply (s : ProviderSession) :
    ProviderOp → ProviderSession × ProviderReply × Moment
  | .options arg => s.forgetCalls.listOptions arg
  | .permissionSets =>
    let (s, ending, moment) := s.forgetCalls.listPermissionSets
    (s, .permissionSets ending, moment)
  | .accounts =>
    let (s, ending, moment) := s.forgetCalls.listAccounts
    (s, .accounts ending, moment)
  | .schema => (s.forgetCalls, .schema Provider.schema, {})
  | .config => (s.forgetCalls, .config s.config, {})
  | .enumerator concurrency pageLimit =>
    match Enumerator.ofBounds? concurrency pageLimit with
    | .ok e => ({ s.forgetCalls with enumerator := e }, .done, {})
    | .error e => (s.forgetCalls, .refused e, {})
  | .invalidate =>
    let s := s.forgetCalls
    ({ s with world.scene := s.world.scene.act .invalidate }, .done, {})
  | .retrieve =>
    let s := s.forgetCalls
    let batch := retrieve s.world.scene
    ({ s with world.scene := batch.scene }, .retrieval (retrieved batch),
      batch.moment)

/-- The calls of the last operation with their units, the earliest first. -/
def calls (s : ProviderSession) : List (Nat × String) :=
  s.world.calls.reverse.map fun (unit, call) =>
    (unit, call.text s.config.instanceArn)

end ProviderSession

end CloudAccess
