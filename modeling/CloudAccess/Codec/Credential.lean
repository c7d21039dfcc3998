import CloudAccess.Codec.Basic
import CloudAccess.Credential.Builder

/-!
# Codecs of credentials

Secrets, the states of a credential set, the errors of its builder, instants
and credential sets as JSON.
-/

namespace CloudAccess

open Json (Document Fault)

/-- A secret is written as it is: whoever writes it down wants to keep it. -/
def Secret.codec : Codec Secret := .ofString (·.expose) fun s => .ok ⟨s⟩

/-- States are written by their names. -/
def CredentialStatus.codec : Codec CredentialStatus :=
  .ofVariants CredentialStatus.name [.permanent, .active, .expired]

/-- The errors of the builder are written by their names. -/
def BuildError.codec : Codec BuildError :=
  .ofVariants BuildError.name [.missingAccessKeyId, .missingSecretAccessKey]

/-! ## Instants -/

namespace Instant

/-- The numbers that each part of an instant is read from. -/
def Part.range : Part → Document.IntegerRange
  | .year => ⟨"i32", -2147483648, 2147483647⟩
  | .ordinal => ⟨"u16", 0, 65535⟩
  | .hour | .minute | .second => ⟨"u8", 0, 255⟩
  | .nanosecond => ⟨"u32", 0, 4294967295⟩
  | .offsetHour | .offsetMinute | .offsetSecond => ⟨"i8", -128, 127⟩

/-- The parts of an instant in the order in which they are written. -/
def Part.all : List Part :=
  [.year, .ordinal, .hour, .minute, .second, .nanosecond, .offsetHour,
    .offsetMinute, .offsetSecond]

/-- Reads the numbers of the given parts; what is left of the items comes
with them. -/
def readParts : List Part → List Document → Option Fault →
    Except DecodeError (List Int × List Document)
  | [], items, _ => .ok ([], items)
  | part :: _, [], ending => do
    DecodeError.unlessFault ending
    throw (.missingPart part)
  | part :: parts, item :: items, ending => do
    let n ← item.readInteger part.range
    let (rest, left) ← readParts parts items ending
    return (n :: rest, left)

/-- The instant with the given nine numbers. -/
def ofNumbers : List Int → Except DecodeError Instant
  | [year, ordinal, hour, minute, second, nanosecond, offsetHour, offsetMinute,
      offsetSecond] =>
    match ofFields ⟨year, ordinal, hour, minute, second, nanosecond, offsetHour,
      offsetMinute, offsetSecond⟩ with
    | .error part => .error (.outOfRange part)
    | .ok i => .ok i
  | _ => .error .malformed

/-- The nine numbers of an instant. -/
def Fields.numbers (f : Fields) : List Int :=
  [f.year, f.ordinal, f.hour, f.minute, f.second, f.nanosecond, f.offsetHour,
    f.offsetMinute, f.offsetSecond]

/-- An instant is written as its nine numbers. -/
def codec : Codec Instant where
  toJson i := .array (i.fields.numbers.map .number)
  ofDocument
    | .array items ending => do
      let (ns, left) ← readParts Part.all items ending
      let i ← ofNumbers ns
      if left.isEmpty then
        DecodeError.unlessFault ending
        return i
      else throw .malformed
    | d => .error (d.wrongType "an `OffsetDateTime`")

end Instant

/-! ## Credential sets -/

namespace CredentialSet

/-- The fields of a credential set that were read so far. -/
structure Places where
  accessKeyId : Option String := none
  secretAccessKey : Option Secret := none
  sessionToken : Option (Option Secret) := none
  expiresAt : Option (Option Instant) := none

/-- Reads one field of a credential set. -/
def putField (name : String) (d : Document) (p : Places) :
    Except DecodeError Places :=
  match name with
  | "access_key_id" => do
    let value ← Record.fill name p.accessKeyId d.readString
    return { p with accessKeyId := value }
  | "secret_access_key" => do
    let value ← Record.fill name p.secretAccessKey (Secret.codec.ofDocument d)
    return { p with secretAccessKey := value }
  | "session_token" => do
    let value ←
      Record.fill name p.sessionToken (d.readOption Secret.codec.ofDocument)
    return { p with sessionToken := value }
  | _ => do
    let value ← Record.fill name p.expiresAt
      (d.readOption Instant.codec.ofDocument)
    return { p with expiresAt := value }

/-- How a credential set is read.  Token and expiry may be missing. -/
def record : Record Places CredentialSet where
  name := "CredentialSet"
  fields := ["access_key_id", "secret_access_key", "session_token",
    "expires_at"]
  start := {}
  put := putField
  finish p := do
    let key ← Record.require "access_key_id" p.accessKeyId
    let secret ← Record.require "secret_access_key" p.secretAccessKey
    return ⟨key, secret, p.sessionToken.getD none, p.expiresAt.getD none⟩

/-- Credential sets are written with all their fields, secrets included. -/
def codec : Codec CredentialSet where
  toJson c := .object
    [("access_key_id", .string c.accessKeyId),
      ("secret_access_key", Secret.codec.toJson c.secretAccessKey),
      ("session_token", Json.ofOption Secret.codec.toJson c.sessionToken),
      ("expires_at", Json.ofOption Instant.codec.toJson c.expiresAt)]
  ofDocument := record.ofDocument

end CredentialSet

end CloudAccess
