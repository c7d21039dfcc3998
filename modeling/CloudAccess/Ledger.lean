/-!
# The ledger of operations

What the library reports about its work: how often each kind of operation was
begun and how it ended, the spans opened for them, and the events of
enumerations and of the provider.

`Ledger.count` is the counter of a kind and an outcome.
-/

namespace CloudAccess

/-- The kinds of operations. -/
inductive OpKind
  | credentialRetrieve
  | enumeration
  | options
  deriving DecidableEq, Repr

/-- All kinds. -/
def OpKind.all : List OpKind := [credentialRetrieve, enumeration, options]

/-- The name of a kind. -/
def OpKind.name : OpKind → String
  | credentialRetrieve => "credential_retrieve"
  | enumeration => "enumeration"
  | options => "options"

/-- A kind as diagnostic messages show it. -/
def OpKind.debugText : OpKind → String
  | credentialRetrieve => "CredentialRetrieve"
  | enumeration => "Enumeration"
  | options => "Options"

/-- What is counted of an operation: that it was begun, and how it ended. -/
inductive OpOutcome
  | attempt
  | success
  | failure
  deriving DecidableEq, Repr

/-- All outcomes. -/
def OpOutcome.all : List OpOutcome := [attempt, success, failure]

/-- The name of an outcome. -/
def OpOutcome.name : OpOutcome → String
  | attempt => "attempt"
  | success => "success"
  | failure => "failure"

/-- An outcome as diagnostic messages show it. -/
def OpOutcome.debugText : OpOutcome → String
  | attempt => "Attempt"
  | success => "Success"
  | failure => "Failure"

/-- The outcome that a result is counted under. -/
def OpOutcome.of {ε α : Type} : Except ε α → OpOutcome
  | .ok _ => success
  | .error _ => failure

/-- The states of an enumeration in its events. -/
inductive RunState
  | idle
  | paging
  | draining
  | succeeded
  | failed
  deriving DecidableEq, Repr

/-- All states. -/
def RunState.all : List RunState := [idle, paging, draining, succeeded, failed]

/-- The name of a state. -/
def RunState.name : RunState → String
  | idle => "idle"
  | paging => "paging"
  | draining => "draining"
  | succeeded => "succeeded"
  | failed => "failed"

/-- A state as diagnostic messages show it. -/
def RunState.debugText : RunState → String
  | idle => "Idle"
  | paging => "Paging"
  | draining => "Draining"
  | succeeded => "Succeeded"
  | failed => "Failed"

/-- The state in which an enumeration with the given result ends. -/
def RunState.of {ε α : Type} : Except ε α → RunState
  | .ok _ => succeeded
  | .error _ => failed

/-- What is reported while the library works. -/
inductive Event
  | providerConfigured (instanceArn identityStoreId : String)
  | runStarted (concurrency : Nat)
  | pageFetched (page items : Nat)
  | enrichmentFailed
  | enricherPanicked
  | runDraining (outstanding : Nat)
  | runFinished (result : RunState) (pages submitted : Nat)
  deriving DecidableEq, Repr

/-- The message of an event. -/
def Event.message : Event → String
  | providerConfigured _ _ => "Configured SSO provider."
  | runStarted _ => "Enumeration run started."
  | pageFetched _ _ => "Fetched page."
  | enrichmentFailed => "Enrichment failed; cancelling run."
  | enricherPanicked => "Enricher panicked; cancelling run."
  | runDraining _ => "Enumeration run cancelled; draining workers."
  | runFinished _ _ _ => "Enumeration run finished."

/-- A span opened for an operation. -/
structure OpSpan where
  kind : OpKind
  stage : String
  deriving DecidableEq, Repr

/-- The name under which spans are opened. -/
def OpSpan.spanName : String := "access_broker.op"

/-- What was reported so far. -/
structure Ledger where
  spans : List OpSpan := []
  outcomes : List (OpKind × OpOutcome) := []
  events : List Event := []
  deriving DecidableEq, Repr

namespace Ledger

/-- Opens the span of an operation and counts that it was begun. -/
def enter (l : Ledger) (kind : OpKind) (stage : String) : Ledger :=
  { l with
    spans := l.spans ++ [⟨kind, stage⟩]
    outcomes := l.outcomes ++ [(kind, .attempt)] }

/-- Counts how an operation ended. -/
def finish {ε α : Type} (l : Ledger) (kind : OpKind) (result : Except ε α) :
    Ledger :=
  { l with outcomes := l.outcomes ++ [(kind, .of result)] }

/-- Reports events. -/
def report (l : Ledger) (events : List Event) : Ledger :=
  { l with events := l.events ++ events }

/-- How often a kind of operation had an outcome. -/
def count (l : Ledger) (kind : OpKind) (outcome : OpOutcome) : Nat :=
  l.outcomes.count (kind, outcome)

/-- The name of the counter of a kind and an outcome. -/
def counterName (kind : OpKind) (outcome : OpOutcome) : String :=
  "access_broker_op_total\x7bop=" ++ kind.name ++ ",outcome=" ++
    outcome.name ++ "\x7d"

/-- The counters that are not zero. -/
def counters (l : Ledger) : List (String × Nat) :=
  (OpKind.all.flatMap fun kind => OpOutcome.all.map fun outcome =>
    (counterName kind outcome, l.count kind outcome)).filter (·.2 ≠ 0)

end Ledger

end CloudAccess
