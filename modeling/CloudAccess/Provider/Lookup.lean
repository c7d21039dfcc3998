import CloudAccess.Enumeration.Scene
import CloudAccess.Provider.Call
import CloudAccess.Provider.Inquiry

/-!
# Lookups in the directory

The calls that the provider makes, chained by what their answers lead to:
`Directory.remote` answers an enumeration of the permission sets, and
`Directory.walking` goes through the accounts.
-/

namespace CloudAccess

/-- The lookup of a permission set under way: it is being described, or a page
of its tags is being read after `k` others. -/
inductive SetLookup
  | describing (arn : String) (call : Call PermissionSet)
  | readingTags (arn label : String) (k : Nat) (call : Call TagPage)

/-- The walk through the accounts under way, with the call for its next
page. -/
structure AccountsUnderWay where
  walk : AccountWalk
  call : Call AccountPage

namespace Directory

/-- What the lookup of a permission set does next, after `k` pages of its
tags. -/
def follow (d : Directory) (arn : String) (k : Nat) :
    Inquiry.Next → Turn SetLookup (Outcome EnrichedItem)
  | .settled i => .done (.value i)
  | .ask .description => .goOn (.describing arn (d.describe arn))
  | .ask (.tags label token) =>
    .goOn (.readingTags arn label k (d.listTags arn k token))

/-- A turn of a call within the lookup of a permission set. -/
def embed {α : Type} (stay : Call α → SetLookup)
    (next : α → Turn SetLookup (Outcome EnrichedItem)) :
    Turn (Call α) (Outcome α) → Turn SetLookup (Outcome EnrichedItem)
  | .goOn call => .goOn (stay call)
  | .cancels target call => .cancels target (stay call)
  | .done (.value a) => next a
  | .done (.failed e) => .done (.failed e)
  | .done .crashed => .done .crashed

/-- The lookup of a permission set takes a turn. -/
def lookupTurn (d : Directory) (credentials : Option Handle)
    (w : DirectoryWorld) (s : Situation) :
    SetLookup → DirectoryWorld × Turn SetLookup (Outcome EnrichedItem)
  | .describing arn call =>
    let (w, turn) := call.turn credentials w s
    (w, embed (.describing arn)
      (fun p => d.follow arn 0 (Inquiry.afterDescription arn p s.cancelled))
      turn)
  | .readingTags arn label k call =>
    let (w, turn) := call.turn credentials w s
    (w, embed (.readingTags arn label k)
      (fun p => d.follow arn (k + 1)
        (Inquiry.afterTags arn label p s.cancelled)) turn)

/-- Lookups of permission sets. -/
def looking (d : Directory) (credentials : Option Handle) :
    Process DirectoryWorld SetLookup (Outcome EnrichedItem) where
  ready w s
    | .describing _ call => call.ready w s
    | .readingTags _ _ _ call => call.ready w s
  due w s
    | .describing _ call => call.due w s
    | .readingTags _ _ _ call => call.due w s
  turn := d.lookupTurn credentials
  abandon w s
    | .describing _ call => call.abandon w s
    | .readingTags _ _ _ call => call.abandon w s

/-- The directory answers an enumeration of the permission sets. -/
def remote (d : Directory) (credentials : Option Handle) :
    Remote DirectoryWorld (Call Page) SetLookup where
  fetch := d.listPermissionSets
  lookup arn := .describing arn (d.describe arn)
  fetching := Call.process credentials
  looking := d.looking credentials

/-- The first step of a walk through the accounts. -/
def startWalk (d : Directory) : AccountsUnderWay := ⟨{}, d.listAccounts 0 none⟩

/-- The walk through the accounts takes a turn. -/
def walkTurn (d : Directory) (credentials : Option Handle) (w : DirectoryWorld)
    (s : Situation) (k : AccountsUnderWay) :
    DirectoryWorld ×
      Turn AccountsUnderWay (Option (Except AccessError (List ArgOption))) :=
  match k.call.turn credentials w s with
  | (w, .goOn call) | (w, .cancels _ call) => (w, .goOn { k with call := call })
  | (w, .done .crashed) => (w, .done none)
  | (w, .done (.failed e)) => (w, .done (some (.error (k.walk.error e))))
  | (w, .done (.value page)) =>
    match k.walk.afterPage page with
    | .ask token walk =>
      (w, .goOn ⟨walk, d.listAccounts k.walk.pages (some token)⟩)
    | .complete options => (w, .done (some (.ok options)))

/-- Walks through the accounts.  They end in the options or an error, or crash
without a result. -/
def walking (d : Directory) (credentials : Option Handle) :
    Process DirectoryWorld AccountsUnderWay
      (Option (Except AccessError (List ArgOption))) where
  ready w s k := k.call.ready w s
  due w s k := k.call.due w s
  turn := d.walkTurn credentials
  abandon w s k := k.call.abandon w s

end Directory

end CloudAccess
