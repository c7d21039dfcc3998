/-!
# Secrets

A text that must not be shown.  Its two texts for messages do not depend on
it; only `Secret.expose` gives it away.
-/

namespace CloudAccess

/-- A secret key or a session token. -/
structure Secret where
  /-- The secret itself, for the one who uses the credentials. -/
  expose : String
  deriving DecidableEq

namespace Secret

/-- What is shown in the place of a secret. -/
def redacted : String := "<redacted>"

/-- A secret as messages show it. -/
def displayText (_ : Secret) : String := redacted

/-- A secret as diagnostic messages show it. -/
def debugText (_ : Secret) : String :=
  "CredentialSecret(\"" ++ redacted ++ "\")"

/-- Whether the secret is the empty text. -/
def isEmpty (s : Secret) : Bool := s.expose.isEmpty

end Secret

end CloudAccess
