import CloudAccess.Credential.Set

/-!
# Building credential sets

A builder gathers the parts of a credential set in any order.  Both keys have
to be given and must not be empty; the access key is asked for first.
-/

namespace CloudAccess

/-- The key that a builder lacks. -/
inductive BuildError
  | missingAccessKeyId
  | missingSecretAccessKey
  deriving DecidableEq, Repr

namespace BuildError

/-- The name of the error. -/
def name : BuildError → String
  | missingAccessKeyId => "MissingAccessKeyId"
  | missingSecretAccessKey => "MissingSecretAccessKey"

/-- The message for the error. -/
def message : BuildError → String
  | missingAccessKeyId => "Access key id is required."
  | missingSecretAccessKey => "Secret access key is required."

end BuildError

/-- The parts of a credential set that were given so far. -/
structure CredentialBuilder where
  accessKeyId : Option String := none
  secretAccessKey : Option Secret := none
  sessionToken : Option Secret := none
  expiresAt : Option Instant := none
  deriving DecidableEq

namespace CredentialBuilder

/-- The credential set of the given parts, if both keys are there and not
empty. -/
def build (b : CredentialBuilder) : Except BuildError CredentialSet :=
  match b.accessKeyId.filter (!·.isEmpty) with
  | none => .error .missingAccessKeyId
  | some key =>
    match b.secretAccessKey.filter (!·.isEmpty) with
    | none => .error .missingSecretAccessKey
    | some secret => .ok ⟨key, secret, b.sessionToken, b.expiresAt⟩

end CredentialBuilder

end CloudAccess
