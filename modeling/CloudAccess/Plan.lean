import CloudAccess.Outcome

/-!
# Plans

What a remote task is planned to bring, how long it takes and how it fails,
and the planned pages of a listing with their cursors.
-/

namespace CloudAccess

/-- A planned task: it takes `delay` units, may let everything else go on
first, and then crashes, fails or brings the content. -/
structure Planned (α : Type) where
  content : α
  delay : Nat := 0
  yields : Bool := false
  crashes : Bool := false
  error : Option String := none
  deriving DecidableEq

/-- How a planned task ends. -/
def Planned.outcome {α : Type} (p : Planned α) : Outcome α :=
  if p.crashes then .crashed
  else
    match p.error with
    | some e => .failed ⟨e, []⟩
    | none => .value p.content

/-- Planned pages with their cursors. -/
abbrev PlannedPages (α : Type) := List (Option String × Planned α)

/-- The first planned page at a cursor. -/
def PlannedPages.find {α : Type} (pages : PlannedPages α)
    (cursor : Option String) : Except RemoteError (Planned α) :=
  match pages.lookup cursor with
  | some p => .ok p
  | none => .error ⟨"unknown cursor: " ++ cursor.getD "<none>", []⟩

end CloudAccess
