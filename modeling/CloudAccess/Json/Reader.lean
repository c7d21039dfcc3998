import CloudAccess.Json.Document

/-!
# Reading JSON text

A reader over the characters of a text.  Each reader returns the document and
what is left of the text after it, or nothing where the text stops being JSON.

* `scanString` reads a string up to its closing quote in pieces; `assemble`
  joins the pieces, where a pair of surrogate escapes is one character.
* `readNumber` reads the digits of a number; `Numeral.ofDigits?` is its
  value.
* `readValue`, `readItems` and `readMembers` read values.  Their first
  argument bounds the number of nested and following values; the length of
  the text is enough.
* `read` reads a whole text.
-/

namespace CloudAccess.Json

/-- The four characters that stand between the parts of a text. -/
def isSpace (c : Char) : Bool :=
  c = ' ' || c = '\n' || c = '\t' || c = '\r'

/-- The text after its leading spaces. -/
def skipSpaces (cs : List Char) : List Char := cs.dropWhile isSpace

/-! ## Strings -/

/-- A piece of a string: a character, or a code unit given by an escape. -/
inductive Piece
  | char (c : Char)
  | unit (n : Nat)
  deriving DecidableEq, Repr

/-- The value of a hexadecimal digit of either case. -/
def hexValue (c : Char) : Option Nat :=
  if '0' ≤ c ∧ c ≤ '9' then some (c.toNat - 48)
  else if 'a' ≤ c ∧ c ≤ 'f' then some (c.toNat - 87)
  else if 'A' ≤ c ∧ c ≤ 'F' then some (c.toNat - 55)
  else none

/-- The value of four hexadecimal digits. -/
def hexUnit (a b c d : Char) : Option Nat :=
  match hexValue a, hexValue b, hexValue c, hexValue d with
  | some a, some b, some c, some d => some (((a * 16 + b) * 16 + c) * 16 + d)
  | _, _, _, _ => none

/-- The character for the letter after a backslash, where it is a short
escape. -/
def shortEscape (c : Char) : Option Char :=
  if c = '"' then some '"'
  else if c = '\\' then some '\\'
  else if c = '/' then some '/'
  else if c = 'b' then some '\x08'
  else if c = 'f' then some '\x0c'
  else if c = 'n' then some '\n'
  else if c = 'r' then some '\r'
  else if c = 't' then some '\t'
  else none

/-- The length of a text in UTF-8. -/
def byteLength (cs : List Char) : Nat := cs.foldl (fun n c => n + c.utf8Size) 0

/-- The pieces of a string up to its closing quote, and what follows the
quote, or why there is none. -/
structure StringScan where
  pieces : List Piece
  after : Except Fault (List Char)

/-- Puts a piece in front of a scan. -/
def StringScan.push (p : Piece) (s : StringScan) : StringScan :=
  { s with pieces := p :: s.pieces }

/-- Reads the pieces of a string, given what follows its opening quote.  An
escape of a code unit takes four bytes; where the text has fewer, it ends too
early. -/
def scanString : List Char → StringScan
  | [] => ⟨[], .error .truncated⟩
  | '"' :: rest => ⟨[], .ok rest⟩
  | ['\\'] => ⟨[], .error .truncated⟩
  | '\\' :: 'u' :: a :: b :: c :: d :: rest =>
    match hexUnit a b c d with
    | some n => (scanString rest).push (.unit n)
    | none => ⟨[], .error .malformed⟩
  | '\\' :: 'u' :: rest =>
    ⟨[], .error (if byteLength rest < 4 then .truncated else .malformed)⟩
  | '\\' :: e :: rest =>
    match shortEscape e with
    | some c => (scanString rest).push (.char c)
    | none => ⟨[], .error .malformed⟩
  | c :: rest =>
    if c.toNat < 0x20 then ⟨[], .error .malformed⟩
    else (scanString rest).push (.char c)

/-- The first code unit of a pair. -/
def isHighSurrogate (n : Nat) : Bool := 0xD800 ≤ n && n ≤ 0xDBFF

/-- The second code unit of a pair. -/
def isLowSurrogate (n : Nat) : Bool := 0xDC00 ≤ n && n ≤ 0xDFFF

/-- The character that a pair of code units names. -/
def pairChar (high low : Nat) : Char :=
  Char.ofNat ((high - 0xD800) * 0x400 + (low - 0xDC00) + 0x10000)

/-- The text that the pieces of a string name.  There is none when half of a
pair stands alone. -/
def assemble : List Piece → Option (List Char)
  | [] => some []
  | .char c :: rest => (assemble rest).map (c :: ·)
  | .unit high :: .unit low :: rest =>
    if isHighSurrogate high then
      if isLowSurrogate low then (assemble rest).map (pairChar high low :: ·)
      else none
    else if isLowSurrogate high then none
    else (assemble (.unit low :: rest)).map (Char.ofNat high :: ·)
  | .unit n :: rest =>
    if isHighSurrogate n || isLowSurrogate n then none
    else (assemble rest).map (Char.ofNat n :: ·)

/-- The pieces without the first half of a pair at their end, which more text
could have completed. -/
def withoutPending (pieces : List Piece) : List Piece :=
  match pieces.getLast? with
  | some (.unit n) => if isHighSurrogate n then pieces.dropLast else pieces
  | _ => pieces

/-- A string, read and passed over. -/
inductive StringReading
  | text (s : String) (rest : List Char)
  | garbled (rest : List Char)
  | cut (reading passing : Fault)

/-- Reads a string, given what follows its opening quote.  Where the text
stops being JSON inside the string, half a pair that stands alone before that
place is the first problem. -/
def readString (cs : List Char) : StringReading :=
  let scan := scanString cs
  match scan.after with
  | .ok rest =>
    match assemble scan.pieces with
    | some s => .text (String.ofList s) rest
    | none => .garbled rest
  | .error f =>
    match assemble (withoutPending scan.pieces) with
    | some _ => .cut f f
    | none => .cut .malformed f

/-! ## Numbers -/

/-- The value of a decimal digit. -/
def digitValue (c : Char) : Nat := c.toNat - 48

/-- The greatest significand that is kept. -/
def maxSignificand : Nat := 18446744073709551615

/-- The significand of the digits of a whole part, and how many digits were
dropped because they would have made it too great. -/
def wholeSignificand : List Char → Nat → Nat → Nat × Nat
  | [], n, dropped => (n, dropped)
  | c :: rest, n, dropped =>
    if dropped = 0 ∧ n * 10 + digitValue c ≤ maxSignificand then
      wholeSignificand rest (n * 10 + digitValue c) 0
    else wholeSignificand rest n (dropped + 1)

/-- The significand after the digits of a fraction, and how many digits were
taken before it would have become too great. -/
def fractionSignificand : List Char → Nat → Nat → Nat × Nat
  | [], n, taken => (n, taken)
  | c :: rest, n, taken =>
    if n * 10 + digitValue c ≤ maxSignificand then
      fractionSignificand rest (n * 10 + digitValue c) (taken + 1)
    else (n, taken)

/-- The natural number with the given digits. -/
def ofDigits (digits : List Char) : Nat :=
  digits.foldl (fun n c => n * 10 + digitValue c) 0

/-- The exponent part of a number: its sign and its digits. -/
structure Exponent where
  negative : Bool
  digits : List Char

/-- The digits of a number. -/
structure Digits where
  negative : Bool
  whole : List Char
  fraction : List Char
  exponent : Option Exponent

/-- The number with the given digits.  Without fraction and exponent it is an
integer, if it fits in 64 bits; a negative zero and all else is a floating
number, and there is none when it is too great. -/
def Numeral.ofDigits? (d : Digits) : Option Numeral :=
  let n := ofDigits d.whole
  let plain := d.fraction.isEmpty && d.exponent.isNone
  if plain && !d.negative && n ≤ maxSignificand then some (.integer n)
  else if plain && d.negative && 0 < n && n ≤ 9223372036854775808 then
    some (.integer (-n))
  else
    let (w, dropped) := wholeSignificand d.whole 0 0
    let (m, taken) := fractionSignificand d.fraction w 0
    let shift : Int :=
      match d.exponent with
      | none => 0
      | some e => if e.negative then -(ofDigits e.digits) else ofDigits e.digits
    (Text.Binary64.ofDecimal m (dropped - taken + shift)).map
      (.floating d.negative)

/-- A leaf with what is left of the text, where the text goes on. -/
abbrev Reading := Document × Option (List Char)

/-- A value has begun, and the text stops being JSON. -/
def brokenReading (f : Fault) : Reading := (.broken .other f, none)

/-- A number needs a digit here: the end of the text is the first problem for
a reader, while passing over the number finds it malformed. -/
def missingDigit : List Char → Reading
  | [] => (.unreadable .other .truncated (some .malformed), none)
  | _ => brokenReading .malformed

/-- The number with the given digits, followed by `rest`. -/
def finishNumber (d : Digits) (rest : List Char) : Reading :=
  match Numeral.ofDigits? d with
  | some n => (.number n, some rest)
  | none => (.unreadable .other .malformed none, some rest)

/-- Reads the exponent of a number, if there is one, and finishes it. -/
def readExponent (d : Digits) (cs : List Char) : Reading :=
  match cs with
  | c :: rest =>
    if c = 'e' || c = 'E' then
      let (negative, rest) :=
        match rest with
        | '+' :: rest => (false, rest)
        | '-' :: rest => (true, rest)
        | rest => (false, rest)
      let digits := rest.takeWhile Char.isDigit
      let rest := rest.dropWhile Char.isDigit
      if digits.isEmpty then missingDigit rest
      else finishNumber { d with exponent := some ⟨negative, digits⟩ } rest
    else finishNumber d cs
  | [] => finishNumber d []

/-- Reads the fraction of a number, if there is one, and what follows it. -/
def readFraction (d : Digits) (cs : List Char) : Reading :=
  match cs with
  | '.' :: rest =>
    let digits := rest.takeWhile Char.isDigit
    let rest := rest.dropWhile Char.isDigit
    if digits.isEmpty then missingDigit rest
    else readExponent { d with fraction := digits } rest
  | cs => readExponent d cs

/-- Reads a number after its sign.  A zero in front stands alone. -/
def readUnsigned (negative : Bool) (cs : List Char) : Reading :=
  let digits := cs.takeWhile Char.isDigit
  let rest := cs.dropWhile Char.isDigit
  match digits with
  | [] => missingDigit rest
  | '0' :: _ :: _ => brokenReading .malformed
  | _ => readFraction ⟨negative, digits, [], none⟩ rest

/-- Reads a number. -/
def readNumber (cs : List Char) : Reading :=
  match cs with
  | '-' :: rest => readUnsigned true rest
  | cs => readUnsigned false cs

/-! ## Values -/

/-- Reads the letters of a keyword after its first. -/
def readKeyword (d : Document) : List Char → List Char → Reading
  | [], cs => (d, some cs)
  | _ :: _, [] => brokenReading .truncated
  | k :: keyword, c :: cs =>
    if k = c then readKeyword d keyword cs else brokenReading .malformed

/-- Reads a string as a value. -/
def readStringValue (cs : List Char) : Reading :=
  match readString cs with
  | .text s rest => (.string s, some rest)
  | .garbled rest => (.unreadable .quote .malformed none, some rest)
  | .cut reading passing => (.unreadable .quote reading (some passing), none)

/-- Reads a value that starts with `c` and nests none. -/
def readScalar (c : Char) (cs : List Char) : Reading :=
  if c = '"' then readStringValue cs
  else if c = 'n' then readKeyword .null ['u', 'l', 'l'] cs
  else if c = 't' then readKeyword (.boolean true) ['r', 'u', 'e'] cs
  else if c = 'f' then readKeyword (.boolean false) ['a', 'l', 's', 'e'] cs
  else if c = '-' || c.isDigit then readNumber (c :: cs)
  else brokenReading .malformed

/-- The text stops being JSON where a member is due. -/
def brokenMember (f : Fault) : Key × Document :=
  (.unreadable f (some f), .broken .absent f)

mutual

/-- Reads a value. -/
def readValue : Nat → List Char → Reading
  | 0, _ => (.broken .absent .truncated, none)
  | fuel + 1, cs =>
    match skipSpaces cs with
    | [] => (.broken .absent .truncated, none)
    | c :: rest =>
      if c = '[' then
        match skipSpaces rest with
        | [] => (.array [] (some .truncated), none)
        | ']' :: rest => (.array [] none, some rest)
        | rest =>
          let (items, ending, rest) := readItems fuel rest
          (.array items ending, rest)
      else if c = '\x7b' then
        match skipSpaces rest with
        | [] => (.object [] (some .truncated), none)
        | '\x7d' :: rest => (.object [] none, some rest)
        | rest =>
          let (members, ending, rest) := readMembers fuel rest
          (.object members ending, rest)
      else readScalar c rest

/-- Reads the items of an array, one at least, up to its end. -/
def readItems : Nat → List Char →
    List Document × Option Fault × Option (List Char)
  | 0, _ => ([], some .truncated, none)
  | fuel + 1, cs =>
    match skipSpaces cs with
    | ']' :: _ => ([.broken .absent .malformed], none, none)
    | cs =>
      let (item, rest) := readValue fuel cs
      match rest with
      | none => ([item], none, none)
      | some rest =>
        match skipSpaces rest with
        | [] => ([item], some .truncated, none)
        | ']' :: rest => ([item], none, some rest)
        | ',' :: rest =>
          let (items, ending, rest) := readItems fuel rest
          (item :: items, ending, rest)
        | _ => ([item], some .malformed, none)

/-- Reads the members of an object, one at least, up to its end. -/
def readMembers : Nat → List Char →
    List (Key × Document) × Option Fault × Option (List Char)
  | 0, _ => ([brokenMember .truncated], none, none)
  | fuel + 1, cs =>
    match skipSpaces cs with
    | [] => ([brokenMember .truncated], none, none)
    | '"' :: rest =>
      match readString rest with
      | .cut reading passing =>
        ([(.unreadable reading (some passing), .broken .absent passing)], none,
          none)
      | .text s rest => readMember fuel (.name s) rest
      | .garbled rest => readMember fuel (.unreadable .malformed none) rest
    | _ => ([(.foreign, .broken .absent .malformed)], none, none)

/-- Reads the value of a member and the members after it. -/
def readMember : Nat → Key → List Char →
    List (Key × Document) × Option Fault × Option (List Char)
  | 0, key, _ => ([(key, .broken .absent .truncated)], none, none)
  | fuel + 1, key, cs =>
    match skipSpaces cs with
    | [] => ([(key, .broken .absent .truncated)], none, none)
    | ':' :: rest =>
      let (value, rest) := readValue fuel rest
      match rest with
      | none => ([(key, value)], none, none)
      | some rest =>
        match skipSpaces rest with
        | [] => ([(key, value)], some .truncated, none)
        | '\x7d' :: rest => ([(key, value)], none, some rest)
        | ',' :: rest =>
          let (members, ending, rest) := readMembers fuel rest
          ((key, value) :: members, ending, rest)
        | _ => ([(key, value)], some .malformed, none)
    | _ => ([(key, .broken .absent .malformed)], none, none)

end

/-- What a whole text holds, and whether more than spaces follows the
value. -/
structure Content where
  document : Document
  trailing : Bool

/-- Reads a whole text. -/
def read (text : String) : Content :=
  let cs := text.toList
  let (document, rest) := readValue (2 * cs.length + 1) cs
  match rest with
  | none => ⟨document, false⟩
  | some rest => ⟨document, !(skipSpaces rest).isEmpty⟩

end CloudAccess.Json
