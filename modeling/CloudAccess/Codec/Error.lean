import CloudAccess.Identifier
import CloudAccess.Json.Document
import CloudAccess.Time.Instant

/-!
# Decoding errors

Why a text does not decode as a value of a type: it is no JSON, or it is JSON
of another shape.  `DecodeError.message` is the message for the error.
-/

namespace CloudAccess

/-- Why a text does not decode. -/
inductive DecodeError
  | malformed
  | truncated
  | missingField (name : String)
  | duplicateField (name : String)
  | invalidType (got : Json.Shape) (expected : String)
  | invalidInteger (n : Int) (expected : String)
  | invalidLength (length : Nat) (expected : String)
  | unknownVariant (name : String) (known : List String)
  | outOfRange (part : Instant.Part)
  | missingPart (part : Instant.Part)
  | identifier (e : IdentifierError)
  deriving DecidableEq, Repr

namespace DecodeError

/-- The error for a place where the text stops being JSON. -/
def ofFault : Json.Fault → DecodeError
  | .malformed => malformed
  | .truncated => truncated

/-- Messages show a number with its point in place when its first digit stands
for a hundred thousandth at least and for less than ten to the sixteenth. -/
def numberLayout : Text.DecimalLayout where
  leastInPlace := -5
  greatestInPlace := 15

/-- A number as messages show it. -/
def numeralText : Json.Numeral → String
  | .integer n => "integer `" ++ Text.decimalInt n ++ "`"
  | .floating negative x =>
    "floating point `" ++ (if negative then "-" else "") ++ x.text
      numberLayout ++ "`"

/-- The kind of a value as messages show it. -/
def shapeText : Json.Shape → String
  | .null => "null"
  | .boolean b => "boolean `" ++ (if b then "true" else "false") ++ "`"
  | .number n => numeralText n
  | .string s => "string " ++ Text.quoteString s
  | .sequence => "sequence"
  | .map => "map"

/-- The name of a part that is out of its range. -/
def rangeName : Instant.Part → String
  | .year => "year"
  | .ordinal => "ordinal"
  | .hour => "hour"
  | .minute => "minute"
  | .second => "second"
  | .nanosecond => "nanosecond"
  | .offsetHour => "offset hour"
  | .offsetMinute => "offset minute"
  | .offsetSecond => "offset second"

/-- The name of a part that is missing. -/
def missingName : Instant.Part → String
  | .year => "year"
  | .ordinal => "day of year"
  | .hour => "hour"
  | .minute => "minute"
  | .second => "second"
  | .nanosecond => "nanosecond"
  | .offsetHour => "offset hours"
  | .offsetMinute => "offset minutes"
  | .offsetSecond => "offset seconds"

/-- The names of the known variants as messages list them. -/
def variantsText : List String → String
  | [] => "there are no variants"
  | [a] => "expected `" ++ a ++ "`"
  | [a, b] => "expected `" ++ a ++ "` or `" ++ b ++ "`"
  | names =>
    "expected one of " ++ ", ".intercalate (names.map fun n => "`" ++ n ++ "`")

/-- The message for an error in a JSON text of the wrong shape. -/
def reason : DecodeError → String
  | malformed => "syntax"
  | truncated => "eof"
  | missingField name => "missing field `" ++ name ++ "`"
  | duplicateField name => "duplicate field `" ++ name ++ "`"
  | invalidType got expected =>
    "invalid type: " ++ shapeText got ++ ", expected " ++ expected
  | invalidInteger n expected =>
    "invalid value: " ++ numeralText (.integer n) ++ ", expected " ++ expected
  | invalidLength length expected =>
    "invalid length " ++ Nat.repr length ++ ", expected " ++ expected
  | unknownVariant name known =>
    "unknown variant `" ++ name ++ "`, " ++ variantsText known
  | outOfRange part =>
    "invalid " ++ rangeName part ++ ", expected an in-range value"
  | missingPart part => "expected " ++ missingName part
  | identifier e => e.message

/-- The message for an error.  Texts that are no JSON have a message of one
word. -/
def message : DecodeError → String
  | malformed => malformed.reason
  | truncated => truncated.reason
  | e => "data: " ++ e.reason

end DecodeError

end CloudAccess
