import CloudAccess.AccessError
import CloudAccess.SessionName

/-!
# Requests for a role

What is sent with every assumption of a role: the role, the name of the
session and how long it is to last.  `RequestDraft.build` checks the parts in
this order.
-/

namespace CloudAccess

namespace Request

/-- The shortest session that can be asked for. -/
def minDuration : Span := .ofSeconds 900

/-- The longest session that can be asked for. -/
def maxDuration : Span := .ofSeconds 43200

/-- The session that is asked for when nothing else is said. -/
def defaultDuration : Span := .ofSeconds 900

/-- A session may last from the shortest to the longest time. -/
def DurationAllowed (d : Span) : Prop := minDuration ≤ d ∧ d ≤ maxDuration

instance (d : Span) : Decidable (DurationAllowed d) := by
  unfold DurationAllowed; infer_instance

end Request

/-- A checked request for a role. -/
structure Request where
  roleArn : RoleArn
  sessionName : SessionName
  duration : Span
  duration_allowed : Request.DurationAllowed duration
  deriving DecidableEq

namespace Request

/-- A request as diagnostic messages show it. -/
def debugText (r : Request) : String :=
  "RoleAssumptionRequest \x7b role_arn: " ++ r.roleArn.debugText ++
    ", session_name: " ++ r.sessionName.debugText ++ ", duration: " ++
    r.duration.debugText ++ " \x7d"

/-- Half a session is not negative. -/
theorem zero_le_half (r : Request) : Span.zero ≤ r.duration.half := by
  have h := r.duration_allowed.1
  simp only [Span.le_iff, minDuration, Span.ofSeconds, Span.nanosPerSecond] at h
  exact Int.tdiv_nonneg (by omega) (by decide)

end Request

/-- The parts of a request before they are checked. -/
structure RequestDraft where
  roleArn : String
  sessionName : Option String := none
  duration : Span := Request.defaultDuration
  deriving DecidableEq, Repr

namespace RequestDraft

/-- The request of the given parts; a draft without a session name takes
`generated`. -/
def build (d : RequestDraft) (generated : SessionName) :
    Except AccessError Request :=
  match Identifier.new? .roleArn d.roleArn with
  | .error e => .error (.config (.invalidIdentifier e))
  | .ok roleArn =>
    match d.sessionName.elim (.ok generated) (Identifier.new? .sessionName) with
    | .error e => .error (.config (.invalidIdentifier e))
    | .ok sessionName =>
      if h : Request.DurationAllowed d.duration then
        .ok ⟨roleArn, sessionName, d.duration, h⟩
      else .error (.config (.durationOutOfRange d.duration.wholeSeconds
        Request.minDuration.wholeSeconds Request.maxDuration.wholeSeconds))

end RequestDraft

end CloudAccess
