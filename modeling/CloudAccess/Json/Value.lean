import CloudAccess.Text.Digits

/-!
# JSON values and their text

The values that the library writes, and their compact text: members in the
order given, no blanks, and the fewest escapes that the format allows.
`Json.write` puts the text in front of what follows it, so that the reader
can be run on the written text of a part.
-/

namespace CloudAccess

/-- A JSON value with whole numbers only. -/
inductive Json
  | null
  | bool (b : Bool)
  | number (n : Int)
  | string (s : String)
  | array (items : List Json)
  | object (members : List (String × Json))
  deriving Inhabited

namespace Json

/-! ## Strings -/

/-- The text of one character inside a string: the quote, the backslash and
the control characters are escaped. -/
def escape (c : Char) : List Char :=
  if c = '"' then ['\\', '"']
  else if c = '\\' then ['\\', '\\']
  else if c = '\n' then ['\\', 'n']
  else if c = '\r' then ['\\', 'r']
  else if c = '\t' then ['\\', 't']
  else if c = '\x08' then ['\\', 'b']
  else if c = '\x0c' then ['\\', 'f']
  else if c.toNat < 0x20 then '\\' :: 'u' :: Text.hexFixed 4 c.toNat
  else [c]

/-- The characters of a string, escaped, then the closing quote, then
`rest`. -/
def writeChars : List Char → List Char → List Char
  | [], rest => '"' :: rest
  | c :: cs, rest => escape c ++ writeChars cs rest

/-- A string between quotes, then `rest`. -/
def writeString (s : String) (rest : List Char) : List Char :=
  '"' :: writeChars s.toList rest

/-! ## Values -/

mutual

/-- The text of a value, then `rest`. -/
def write : Json → List Char → List Char
  | .null, rest => "null".toList ++ rest
  | .bool true, rest => "true".toList ++ rest
  | .bool false, rest => "false".toList ++ rest
  | .number n, rest => (Text.decimalInt n).toList ++ rest
  | .string s, rest => writeString s rest
  | .array [], rest => '[' :: ']' :: rest
  | .array (item :: items), rest => '[' :: write item (writeItems items rest)
  | .object [], rest => '\x7b' :: '\x7d' :: rest
  | .object ((key, value) :: members), rest =>
    '\x7b' :: writeString key (':' :: write value (writeMembers members rest))

/-- The further items of an array, its end, then `rest`. -/
def writeItems : List Json → List Char → List Char
  | [], rest => ']' :: rest
  | item :: items, rest => ',' :: write item (writeItems items rest)

/-- The further members of an object, its end, then `rest`. -/
def writeMembers : List (String × Json) → List Char → List Char
  | [], rest => '\x7d' :: rest
  | (key, value) :: members, rest =>
    ',' :: writeString key (':' :: write value (writeMembers members rest))

end

/-- The compact text of a value. -/
def text (j : Json) : String := String.ofList (write j [])

/-- A string, or `null` for none. -/
def ofOption (encode : α → Json) : Option α → Json
  | none => .null
  | some a => encode a

end Json

end CloudAccess
