import CloudAccess.AccessError
import CloudAccess.Enumeration.Page
import CloudAccess.Provider.Directory

/-!
# Inquiries

What the provider asks the directory, one call after another, and what it
makes of the answers.

* `Inquiry` is the lookup of a permission set: it is described first, and then
  its tags are read page by page until one of them marks it as managed.
* `AccountWalk` goes through the pages of the accounts.
-/

namespace CloudAccess

/-- What is asked next about a permission set: its description, or a page of
its tags, with the label that it will have. -/
inductive Inquiry
  | description
  | tags (label : String) (token : Option String)
  deriving DecidableEq, Repr

/-- What an answer about a permission set leads to. -/
inductive Inquiry.Next
  | ask (q : Inquiry)
  | settled (i : EnrichedItem)
  deriving DecidableEq

namespace Inquiry

/-- A page of tags is asked for, unless the enumeration is cancelled. -/
def askTags (arn label : String) (token : Option String) (cancelled : Bool) :
    Next :=
  if cancelled then .settled (.rejected arn) else .ask (.tags label token)

/-- The permission set was described. -/
def afterDescription (arn : String) (p : PermissionSet) (cancelled : Bool) :
    Next :=
  askTags arn p.label none cancelled

/-- A page of tags was read. -/
def afterTags (arn label : String) (page : TagPage) (cancelled : Bool) : Next :=
  if page.tags.any Tag.marksManaged then .settled (.accepted arn label arn)
  else
    match page.nextToken with
    | some token => askTags arn label (some token) cancelled
    | none => .settled (.rejected arn)

end Inquiry

/-- A walk through the pages of the accounts: the number of pages asked for,
and the options found so far. -/
structure AccountWalk where
  pages : Nat := 1
  options : List ArgOption := []
  deriving DecidableEq, Repr

/-- What a page of accounts leads to: the next token and the walk so far, or
the options of all accounts. -/
inductive AccountWalk.Next
  | ask (token : String) (walk : AccountWalk)
  | complete (options : List ArgOption)
  deriving DecidableEq

namespace AccountWalk

/-- A page of accounts was read. -/
def afterPage (w : AccountWalk) (page : AccountPage) : Next :=
  let options := w.options ++ page.accounts.map Account.option
  match page.nextToken with
  | some token => .ask token ⟨w.pages + 1, options⟩
  | none => .complete options

/-- The error when the page asked for last cannot be read. -/
def error (w : AccountWalk) (e : RemoteError) : AccessError :=
  .enumeration (.pageFetch w.pages e)

end AccountWalk

end CloudAccess
