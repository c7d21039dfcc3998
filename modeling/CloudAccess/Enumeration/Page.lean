import CloudAccess.ArgOption

/-!
# Pages

What a listing returns a part at a time: the references of the items on one
page, and the cursor of the next page if there is one.  An item that was
looked up carries an option when it belongs in the result.
-/

namespace CloudAccess

/-- One page of a listing. -/
structure Page where
  items : List String
  nextCursor : Option String
  deriving DecidableEq, Repr

namespace Page

/-- The page without items that ends a listing. -/
def empty : Page := ⟨[], none⟩

/-- Whether the listing ends with this page. -/
def isLast (p : Page) : Bool := p.nextCursor.isNone

end Page

/-- An item that was looked up; its option is there when the item belongs in
the result. -/
structure EnrichedItem where
  reference : String
  option : Option ArgOption
  deriving DecidableEq, Repr

namespace EnrichedItem

/-- An item that belongs in the result. -/
def accepted (reference label value : String) : EnrichedItem :=
  ⟨reference, some ⟨label, value⟩⟩

/-- An item that does not belong in the result. -/
def rejected (reference : String) : EnrichedItem := ⟨reference, none⟩

/-- Whether the item belongs in the result. -/
def included (i : EnrichedItem) : Bool := i.option.isSome

end EnrichedItem

end CloudAccess
