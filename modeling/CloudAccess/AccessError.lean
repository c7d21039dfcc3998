import CloudAccess.Codec.Error
import CloudAccess.Credential.Builder

/-!
# Errors

Why an operation of the library fails: its configuration is wrong, a role
could not be assumed, an enumeration failed, or an argument is unknown.

`AccessError.message` is the message for an error, and `AccessError.sources`
the messages of the errors behind it, the nearest first.
-/

namespace CloudAccess

/-- The failure of a remote call: its message and those of the errors behind
it. -/
structure RemoteError where
  message : String
  causes : List String := []
  deriving DecidableEq, Repr

/-- The messages of a remote failure and of the errors behind it. -/
def RemoteError.chain (e : RemoteError) : List String := e.message :: e.causes

/-- What is wrong with the configuration. -/
inductive ConfigError
  | invalidIdentifier (e : IdentifierError)
  | durationOutOfRange (seconds min max : Int)
  | zeroConcurrency
  | unreadable (e : DecodeError)
  deriving DecidableEq, Repr

/-- Why there are no credentials. -/
inductive CredentialError
  | assumeRole (roleArn : String) (source : RemoteError)
  | expiredOnReceipt (expiresAt : Instant)
  | build (e : BuildError)
  deriving DecidableEq, Repr

/-- Why an enumeration failed. -/
inductive EnumerationError
  | pageFetch (page : Nat) (source : RemoteError)
  | enrichment (reference : String) (source : RemoteError)
  | pageLimitExceeded (limit : Nat)
  | workerPanicked
  | workerPool
  | cancelled
  deriving DecidableEq, Repr

/-- Why an operation failed. -/
inductive AccessError
  | config (e : ConfigError)
  | credential (e : CredentialError)
  | enumeration (e : EnumerationError)
  | invalidArgument (arg : String)
  deriving DecidableEq, Repr

/-- The message for a configuration error. -/
def ConfigError.message : ConfigError → String
  | invalidIdentifier e => e.message
  | durationOutOfRange seconds min max =>
    "Session duration of " ++ Text.decimalInt seconds ++
      "s is outside the supported " ++ Text.decimalInt min ++ "s..=" ++
      Text.decimalInt max ++ "s range."
  | zeroConcurrency => "Concurrency limit must be at least 1."
  | unreadable _ => "Provider configuration is invalid."

/-- The messages of the errors behind a configuration error. -/
def ConfigError.sources : ConfigError → List String
  | unreadable e => [e.message]
  | _ => []

/-- The message for a credential error. -/
def CredentialError.message : CredentialError → String
  | assumeRole roleArn _ => "Unable to assume role `" ++ roleArn ++ "`."
  | expiredOnReceipt expiresAt =>
    "Received credentials already expired at " ++ expiresAt.text ++ "."
  | build _ => "Unable to build credential set."

/-- The messages of the errors behind a credential error. -/
def CredentialError.sources : CredentialError → List String
  | assumeRole _ source => source.chain
  | expiredOnReceipt _ => []
  | build e => [e.message]

/-- The message for an enumeration error. -/
def EnumerationError.message : EnumerationError → String
  | pageFetch page _ => "Failed to fetch page " ++ Nat.repr page ++ "."
  | enrichment reference _ => "Failed to enrich item `" ++ reference ++ "`."
  | pageLimitExceeded limit =>
    "Pagination exceeded the limit of " ++ Nat.repr limit ++ " pages."
  | workerPanicked => "Enrichment worker panicked."
  | workerPool => "Enrichment worker pool is closed."
  | cancelled => "Enumeration was cancelled."

/-- The messages of the errors behind an enumeration error. -/
def EnumerationError.sources : EnumerationError → List String
  | pageFetch _ source => source.chain
  | enrichment _ source => source.chain
  | _ => []

/-- The message for an error. -/
def AccessError.message : AccessError → String
  | config e => e.message
  | credential e => e.message
  | enumeration e => e.message
  | invalidArgument arg =>
    "Argument `" ++ arg ++ "` is not supported by this provider."

/-- The messages of the errors behind an error, the nearest first. -/
def AccessError.sources : AccessError → List String
  | config e => e.sources
  | credential e => e.sources
  | enumeration e => e.sources
  | invalidArgument _ => []

/-- An error as the failure of a call that met it. -/
def RemoteError.ofAccessError (e : AccessError) : RemoteError :=
  ⟨e.message, e.sources⟩

end CloudAccess
