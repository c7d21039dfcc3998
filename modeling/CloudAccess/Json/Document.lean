import CloudAccess.Text.Binary64

/-!
# Documents

What a text holds as JSON, read from left to right up to the place where it
stops being JSON.  A place that cannot be read stays in the document as a
leaf, and so does the reason: what lies before it can still be used, and a
reader of the document meets the first problem of the text first.

Passing over a value asks less than reading it: a string is passed over even
when its escapes name no text, and a number even when it is too great.  Such
a leaf tells both answers.
-/

namespace CloudAccess.Json

/-- Why a text stops being JSON: it breaks the grammar, or it ends too
early. -/
inductive Fault
  | malformed
  | truncated
  deriving DecidableEq, Repr

/-- A number that a text holds. -/
inductive Numeral
  | integer (n : Int)
  | floating (negative : Bool) (x : Text.Binary64)
  deriving DecidableEq, Repr

/-- The kind of a value, with its content where it is a single one. -/
inductive Shape
  | null
  | boolean (b : Bool)
  | number (n : Numeral)
  | string (s : String)
  | sequence
  | map
  deriving DecidableEq, Repr

/-- The key of a member: a name, a string that cannot be read, or something
that is no string. -/
inductive Key
  | name (s : String)
  | unreadable (reading : Fault) (passing : Option Fault)
  | foreign
  deriving DecidableEq, Repr

/-- How a value that cannot be read starts: not at all, with a quote, or in
another way. -/
inductive Opening
  | absent
  | quote
  | other
  deriving DecidableEq, Repr

/-- What a text holds.  `ending` tells why an array or an object does not
close, if it does not; `unreadable` tells how a value starts that cannot be
read, why it cannot, and whether it cannot be passed over either. -/
inductive Document
  | null
  | boolean (b : Bool)
  | number (n : Numeral)
  | string (s : String)
  | array (items : List Document) (ending : Option Fault)
  | object (members : List (Key × Document)) (ending : Option Fault)
  | unreadable (start : Opening) (reading : Fault) (passing : Option Fault)
  deriving Inhabited

/-- The fault that passing over a key meets. -/
def Key.passing : Key → Option Fault
  | .name _ => none
  | .unreadable _ fault => fault
  | .foreign => some .malformed

namespace Document

/-- A value that starts in the given way and at which the text stops being
JSON. -/
def broken (start : Opening) (f : Fault) : Document :=
  .unreadable start f (some f)

/-- The kind of a value, or the fault that reading it meets. -/
def shape : Document → Except Fault Shape
  | .null => .ok .null
  | .boolean b => .ok (.boolean b)
  | .number n => .ok (.number n)
  | .string s => .ok (.string s)
  | .array _ _ => .ok .sequence
  | .object _ _ => .ok .map
  | .unreadable _ f _ => .error f

mutual

/-- The first fault that passing over a value meets. -/
def passing : Document → Option Fault
  | .array items ending => passingItems items ending
  | .object members ending => passingMembers members ending
  | .unreadable _ _ fault => fault
  | _ => none

/-- The first fault that passing over the items of an array meets. -/
def passingItems : List Document → Option Fault → Option Fault
  | [], ending => ending
  | item :: items, ending =>
    match passing item with
    | some f => some f
    | none => passingItems items ending

/-- The first fault that passing over the members of an object meets. -/
def passingMembers : List (Key × Document) → Option Fault → Option Fault
  | [], ending => ending
  | (key, value) :: members, ending =>
    match key.passing with
    | some f => some f
    | none =>
      match passing value with
      | some f => some f
      | none => passingMembers members ending

end

end Document

end CloudAccess.Json
