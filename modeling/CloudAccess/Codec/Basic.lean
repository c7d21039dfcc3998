import CloudAccess.Codec.Error
import CloudAccess.Json.Reader

/-!
# Codecs

A codec writes the values of a type as JSON and reads them back.  Reading
goes over the document from left to right, so that the first problem of the
text decides.

* `Document.readString`, `readOption`, `readList`, `readInteger` and
  `readVariant` read values without fields.
* `Record` reads a value with named fields, from an object or from an array
  of its fields in order.
* `Codec.encode` and `Codec.decode` are the two directions on texts.
-/

namespace CloudAccess

open Json (Document Fault Key)

/-- Stops at a place where the text stops being JSON, if there is one. -/
def DecodeError.unlessFault : Option Fault → Except DecodeError Unit
  | some f => .error (.ofFault f)
  | none => .ok ()

namespace Json.Document

/-- The error for a value of another type than expected. -/
def wrongType (expected : String) (d : Document) : DecodeError :=
  match d.shape with
  | .error f => .ofFault f
  | .ok got => .invalidType got expected

/-- Reads a string. -/
def readString : Document → Except DecodeError String
  | .string s => .ok s
  | d => .error (d.wrongType "a string")

/-- Reads `null` as nothing and all else as a value. -/
def readOption {α : Type} (read : Document → Except DecodeError α) :
    Document → Except DecodeError (Option α)
  | .null => .ok none
  | d => (read d).map some

/-- Reads the items of an array in order. -/
def readEach {α : Type} (read : Document → Except DecodeError α) :
    List Document → Option Fault → Except DecodeError (List α)
  | [], ending => do
    DecodeError.unlessFault ending
    return []
  | d :: items, ending => do
    let a ← read d
    let rest ← readEach read items ending
    return a :: rest

/-- Reads an array. -/
def readList {α : Type} (read : Document → Except DecodeError α) :
    Document → Except DecodeError (List α)
  | .array items ending => readEach read items ending
  | d => .error (d.wrongType "a sequence")

/-- A range of whole numbers and its name. -/
structure IntegerRange where
  name : String
  low : Int
  high : Int

/-- Reads a whole number of a range. -/
def readInteger (range : IntegerRange) : Document → Except DecodeError Int
  | .number (.integer n) =>
    if range.low ≤ n ∧ n ≤ range.high then .ok n
    else .error (.invalidInteger n range.name)
  | d => .error (d.wrongType range.name)

/-- Reads `null` and nothing else. -/
def readUnit : Document → Except DecodeError Unit
  | .null => .ok ()
  | d => .error (d.wrongType "unit")

/-- The variant with the given name. -/
def findVariant {α : Type} (variants : List (String × α)) (name : String) :
    Except DecodeError α :=
  match variants.find? (·.1 = name) with
  | some (_, a) => .ok a
  | none => .error (.unknownVariant name (variants.map (·.1)))

/-- The name that a key gives. -/
def keyName : Key → Except DecodeError String
  | .name s => .ok s
  | .unreadable f _ => .error (.ofFault f)
  | .foreign => .error .malformed

/-- Reads a variant without content: its name, or an object that maps its
name to `null` and holds no more.  A value that starts as neither is
malformed, whatever follows. -/
def readVariant {α : Type} (variants : List (String × α)) :
    Document → Except DecodeError α
  | .string s => findVariant variants s
  | .unreadable .other _ _ => .error .malformed
  | .unreadable _ f _ => .error (.ofFault f)
  | .object ((key, value) :: members) ending => do
    let name ← keyName key
    let a ← findVariant variants name
    readUnit value
    if members.isEmpty then
      DecodeError.unlessFault ending
      return a
    else throw .malformed
  | .object [] (some f) => .error (.ofFault f)
  | _ => .error .malformed

end Json.Document

/-! ## Records -/

/-- How a value with named fields is read: the names of its type and fields,
the names that an array may leave out at its end, the state before the first
field, what a field does to the state, and the value at the end. -/
structure Record (σ α : Type) where
  name : String
  fields : List String
  omittable : List String := []
  start : σ
  put : String → Document → σ → Except DecodeError σ
  finish : σ → Except DecodeError α

namespace Record

variable {σ α β : Type}

/-- Fills the place of a field, which must be empty. -/
def fill (name : String) (place : Option β) (value : Except DecodeError β) :
    Except DecodeError (Option β) :=
  if place.isSome then .error (.duplicateField name) else value.map some

/-- The content of the place of a field, which must be filled. -/
def require (name : String) : Option β → Except DecodeError β
  | some b => .ok b
  | none => .error (.missingField name)

/-- The description of the type in messages. -/
def expected (r : Record σ α) : String := "struct " ++ r.name

/-- Reads members in the order of the text.  Unknown ones are passed over. -/
def putMembers (r : Record σ α) :
    List (Key × Document) → Option Fault → σ → Except DecodeError σ
  | [], ending, s => do
    DecodeError.unlessFault ending
    return s
  | (.name key, value) :: members, ending, s => do
    if r.fields.contains key then
      let s ← r.put key value s
      putMembers r members ending s
    else
      DecodeError.unlessFault value.passing
      putMembers r members ending s
  | (.unreadable f _, _) :: _, _, _ => .error (.ofFault f)
  | (.foreign, _) :: _, _, _ => .error .malformed

/-- Reads the items of an array as the fields of the given names; `count` is
the number of items before them. -/
def putItems (r : Record σ α) :
    List String → Nat → List Document → Option Fault → σ → Except DecodeError σ
  | [], _, [], ending, s => do
    DecodeError.unlessFault ending
    return s
  | [], _, _ :: _, _, _ => .error .malformed
  | field :: fields, count, [], ending, s => do
    DecodeError.unlessFault ending
    if r.omittable.contains field then putItems r fields count [] ending s
    else throw (.invalidLength count (r.expected ++ " with " ++
      Nat.repr r.fields.length ++ " elements"))
  | field :: fields, count, item :: items, ending, s => do
    let s ← r.put field item s
    putItems r fields (count + 1) items ending s

/-- Reads a value with named fields. -/
def ofDocument (r : Record σ α) : Document → Except DecodeError α
  | .object members ending => r.putMembers members ending r.start >>= r.finish
  | .array items ending =>
    r.putItems r.fields 0 items ending r.start >>= r.finish
  | d => .error (d.wrongType r.expected)

end Record

/-! ## Codecs -/

/-- The two directions between a type and JSON. -/
structure Codec (α : Type) where
  toJson : α → Json
  ofDocument : Document → Except DecodeError α

namespace Codec

variable {α : Type}

/-- The text of a value. -/
def encode (c : Codec α) (a : α) : String := (c.toJson a).text

/-- The value that a text holds and nothing but spaces follows. -/
def decode (c : Codec α) (text : String) : Except DecodeError α :=
  let content := Json.read text
  match c.ofDocument content.document with
  | .error e => .error e
  | .ok a => if content.trailing then .error .malformed else .ok a

/-- A codec for a type whose values are single strings. -/
def ofString (toString : α → String)
    (ofString : String → Except DecodeError α) :
    Codec α where
  toJson a := .string (toString a)
  ofDocument d := d.readString >>= ofString

/-- A codec for a type of variants without content. -/
def ofVariants (name : α → String) (variants : List α) : Codec α where
  toJson a := .string (name a)
  ofDocument := Json.Document.readVariant (variants.map fun a => (name a, a))

end Codec

/-- Identifiers are written as their text and checked when they are read. -/
def Identifier.codec (kind : IdentifierKind) : Codec (Identifier kind) :=
  .ofString (·.text) fun s =>
    match Identifier.ofString? kind s with
    | .error e => .error (.identifier e)
    | .ok i => .ok i

end CloudAccess
