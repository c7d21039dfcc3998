import CloudAccess.ArgOption
import CloudAccess.Identifier

/-!
# The directory behind the provider

Permission sets with their tags, and the accounts of the organization, a page
at a time.
-/

namespace CloudAccess

/-- The description of a permission set. -/
structure PermissionSet where
  name : Option String
  description : Option String
  deriving DecidableEq, Repr

/-- The label of a permission set: its name, and its description after a
colon where it has one. -/
def PermissionSet.label (p : PermissionSet) : String :=
  let name := p.name.getD ""
  match p.description with
  | some description => name ++ ": " ++ description
  | none => name

/-- A tag of a permission set. -/
structure Tag where
  key : String
  value : Option String
  deriving DecidableEq, Repr

/-- The tag key that marks a permission set as managed. -/
def Tag.managedKey : String := "commonfate.io/managed-by-granted"

/-- Whether the tag marks a permission set as managed. -/
def Tag.marksManaged (t : Tag) : Bool := t.key == managedKey

/-- One page of tags. -/
structure TagPage where
  tags : List Tag
  nextToken : Option String
  deriving DecidableEq, Repr

/-- An account of the organization. -/
structure Account where
  id : String
  name : Option String
  deriving DecidableEq, Repr

/-- The option that an account gives: its name stands for its number. -/
def Account.option (a : Account) : ArgOption := ⟨a.name.getD "", a.id⟩

/-- One page of accounts. -/
structure AccountPage where
  accounts : List Account
  nextToken : Option String
  deriving DecidableEq, Repr

/-- A call of the directory. -/
inductive DirectoryCall
  | permissionSets (token : Option String)
  | describe (arn : String)
  | tags (arn : String) (token : Option String)
  | accounts (token : Option String)
  deriving DecidableEq, Repr

/-- A call as it is written down, with the instance that it goes to. -/
def DirectoryCall.text (instanceArn : InstanceArn) : DirectoryCall → String
  | permissionSets token =>
    "list " ++ instanceArn.text ++ " " ++ token.getD "<none>"
  | describe arn => "describe " ++ instanceArn.text ++ " " ++ arn
  | tags arn token =>
    "tags " ++ instanceArn.text ++ " " ++ arn ++ " " ++ token.getD "<none>"
  | accounts token => "accounts " ++ token.getD "<none>"

end CloudAccess
