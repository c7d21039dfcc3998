import CloudAccess.AccessError

/-!
# Outcomes

How something ends that is done elsewhere: it brings a value, it fails with an
error, or it crashes.
-/

namespace CloudAccess

/-- How a remote task ends. -/
inductive Outcome (α : Type)
  | value (a : α)
  | failed (e : RemoteError)
  | crashed
  deriving DecidableEq

end CloudAccess
