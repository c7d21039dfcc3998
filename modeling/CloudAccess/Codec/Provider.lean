import CloudAccess.AccessError
import CloudAccess.Codec.Basic
import CloudAccess.Provider.Config
import CloudAccess.Provider.Directory

/-!
# Codecs of the provider

Permission sets, tags, accounts and the configuration document as JSON.
-/

namespace CloudAccess

open Json (Document)

/-! ## Permission sets -/

namespace PermissionSet

/-- The fields of a permission set that were read so far. -/
structure Places where
  name : Option (Option String) := none
  description : Option (Option String) := none

/-- Reads one field of a permission set. -/
def putField (name : String) (d : Document) (p : Places) :
    Except DecodeError Places :=
  match name with
  | "name" => do
    let value ← Record.fill name p.name (d.readOption Document.readString)
    return { p with name := value }
  | _ => do
    let value ← Record.fill name p.description
      (d.readOption Document.readString)
    return { p with description := value }

/-- How a permission set is read.  Both fields may be missing. -/
def record : Record Places PermissionSet where
  name := "PermissionSet"
  fields := ["name", "description"]
  start := {}
  put := putField
  finish p := .ok ⟨p.name.getD none, p.description.getD none⟩

/-- Permission sets are written with both fields. -/
def codec : Codec PermissionSet where
  toJson p := .object
    [("name", Json.ofOption .string p.name),
      ("description", Json.ofOption .string p.description)]
  ofDocument := record.ofDocument

end PermissionSet

/-! ## Tags -/

namespace Tag

/-- The fields of a tag that were read so far. -/
structure Places where
  key : Option String := none
  value : Option (Option String) := none

/-- Reads one field of a tag. -/
def putField (name : String) (d : Document) (p : Places) :
    Except DecodeError Places :=
  match name with
  | "key" => do
    let key ← Record.fill name p.key d.readString
    return { p with key := key }
  | _ => do
    let value ← Record.fill name p.value (d.readOption Document.readString)
    return { p with value := value }

/-- How a tag is read.  Its value may be missing. -/
def record : Record Places Tag where
  name := "Tag"
  fields := ["key", "value"]
  start := {}
  put := putField
  finish p := do
    let key ← Record.require "key" p.key
    return ⟨key, p.value.getD none⟩

/-- Tags are written with both fields. -/
def codec : Codec Tag where
  toJson t := .object
    [("key", .string t.key), ("value", Json.ofOption .string t.value)]
  ofDocument := record.ofDocument

end Tag

/-! ## Accounts -/

namespace Account

/-- The fields of an account that were read so far. -/
structure Places where
  id : Option String := none
  name : Option (Option String) := none

/-- Reads one field of an account. -/
def putField (name : String) (d : Document) (p : Places) :
    Except DecodeError Places :=
  match name with
  | "id" => do
    let id ← Record.fill name p.id d.readString
    return { p with id := id }
  | _ => do
    let value ← Record.fill name p.name (d.readOption Document.readString)
    return { p with name := value }

/-- How an account is read.  Its name may be missing. -/
def record : Record Places Account where
  name := "Account"
  fields := ["id", "name"]
  start := {}
  put := putField
  finish p := do
    let id ← Record.require "id" p.id
    return ⟨id, p.name.getD none⟩

/-- Accounts are written with both fields. -/
def codec : Codec Account where
  toJson a := .object
    [("id", .string a.id), ("name", Json.ofOption .string a.name)]
  ofDocument := record.ofDocument

end Account

/-! ## The configuration document -/

namespace ProviderConfig

/-- The fields of a configuration that were read so far. -/
structure Places where
  roleArn : Option RoleArn := none
  instanceArn : Option InstanceArn := none
  identityStoreId : Option IdentityStoreId := none
  region : Option (Option String) := none

/-- Reads one field of a configuration. -/
def putField (name : String) (d : Document) (p : Places) :
    Except DecodeError Places :=
  match name with
  | "ssoRoleArn" => do
    let value ←
      Record.fill name p.roleArn ((Identifier.codec .roleArn).ofDocument d)
    return { p with roleArn := value }
  | "instanceArn" => do
    let value ←
      Record.fill name p.instanceArn
      ((Identifier.codec .instanceArn).ofDocument d)
    return { p with instanceArn := value }
  | "identityStoreId" => do
    let value ← Record.fill name p.identityStoreId
      ((Identifier.codec .identityStore).ofDocument d)
    return { p with identityStoreId := value }
  | _ => do
    let value ← Record.fill name p.region (d.readOption Document.readString)
    return { p with region := value }

/-- How a configuration is read.  The region may be missing, and an array of
fields may end before it. -/
def record : Record Places ProviderConfig where
  name := "SsoConfig"
  fields := ["ssoRoleArn", "instanceArn", "identityStoreId", "region"]
  omittable := ["region"]
  start := {}
  put := putField
  finish p := do
    let roleArn ← Record.require "ssoRoleArn" p.roleArn
    let instanceArn ← Record.require "instanceArn" p.instanceArn
    let identityStoreId ← Record.require "identityStoreId" p.identityStoreId
    return ⟨roleArn, instanceArn, identityStoreId, p.region.getD none⟩

/-- A configuration is written without its region when it has none. -/
def codec : Codec ProviderConfig where
  toJson c := .object <|
    [("ssoRoleArn", .string c.roleArn.text),
      ("instanceArn", .string c.instanceArn.text),
      ("identityStoreId", .string c.identityStoreId.text)] ++
    (c.region.map fun region => ("region", Json.string region)).toList
  ofDocument := record.ofDocument

/-- The configuration that a document holds. -/
def ofText (text : String) : Except AccessError ProviderConfig :=
  (codec.decode text).mapError fun e => .config (.unreadable e)

end ProviderConfig

end CloudAccess
