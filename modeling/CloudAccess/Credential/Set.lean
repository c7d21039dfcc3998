import CloudAccess.Credential.Secret
import CloudAccess.Text.Quoted
import CloudAccess.Time.Instant

/-!
# Credential sets

The keys that a role assumption returns, with the instant at which they
expire, if they do.

* `CredentialSet.statusAt` is the state of a set at an instant.
* `CredentialSet.freshAt?` says whether a set may be handed out at an
  instant, given how long before its end it counts as stale.  There is no
  answer when that moment lies outside the calendar.
* `CredentialSet.debugText` shows a set without its secrets.
-/

namespace CloudAccess

/-- The state of a credential set at an instant. -/
inductive CredentialStatus
  | permanent
  | active
  | expired
  deriving DecidableEq, Repr

/-- The name of a state. -/
def CredentialStatus.name : CredentialStatus → String
  | permanent => "Permanent"
  | active => "Active"
  | expired => "Expired"

/-- The keys that a role assumption returns. -/
structure CredentialSet where
  accessKeyId : String
  secretAccessKey : Secret
  sessionToken : Option Secret
  expiresAt : Option Instant
  deriving DecidableEq

namespace CredentialSet

/-- Whether the keys expire at all. -/
def canExpire (c : CredentialSet) : Bool := c.expiresAt.isSome

/-- The state of a set at an instant: it is expired from its expiry on. -/
def statusAt (c : CredentialSet) (now : Instant) : CredentialStatus :=
  match c.expiresAt with
  | none => .permanent
  | some expiry => if expiry ≤ now then .expired else .active

/-- Whether a set is expired at an instant. -/
def isExpiredAt (c : CredentialSet) (now : Instant) : Bool :=
  c.statusAt now = .expired

/-- Whether a set stays valid for longer than `window` after `now`.  There is
no answer when the instant `window` before its expiry lies outside the
calendar. -/
def freshAt? (c : CredentialSet) (now : Instant) (window : Span) :
    Option Bool :=
  match c.expiresAt with
  | none => some true
  | some expiry =>
    match expiry.sub? window with
    | none => none
    | some staleFrom => some (decide (now < staleFrom))

/-- A set as diagnostic messages show it, without its secrets. -/
def debugText (c : CredentialSet) : String :=
  let token :=
    if c.sessionToken.isSome then "Some(\"" ++ Secret.redacted ++ "\")"
    else "None"
  let expiry :=
    match c.expiresAt with
    | none => "None"
    | some expiry => "Some(" ++ expiry.text ++ ")"
  "CredentialSet \x7b access_key_id: " ++ Text.quoteString c.accessKeyId ++
    ", secret_access_key: \"" ++ Secret.redacted ++
    "\", session_token: " ++ token ++ ", expires_at: " ++ expiry ++ " \x7d"

/-- A set is expired exactly when it has an expiry that has been reached. -/
theorem isExpiredAt_iff {c : CredentialSet} {now : Instant} :
    c.isExpiredAt now = true ↔ ∃ expiry, c.expiresAt = some expiry ∧
      expiry ≤ now := by
  unfold isExpiredAt statusAt
  cases c.expiresAt with
  | none => simp
  | some expiry => by_cases h : expiry ≤ now <;> simp [h]

/-- A fresh set has no expiry, or one that lies more than the window ahead. -/
theorem freshAt?_eq_true_iff {c : CredentialSet} {now : Instant}
    {window : Span} :
    c.freshAt? now window = some true ↔
      c.expiresAt = none ∨
        ∃ expiry staleFrom, c.expiresAt = some expiry ∧
          expiry.sub? window = some staleFrom ∧ now < staleFrom := by
  unfold freshAt?
  cases c.expiresAt with
  | none => simp
  | some expiry => cases h : expiry.sub? window <;> simp [h]

end CredentialSet

end CloudAccess
