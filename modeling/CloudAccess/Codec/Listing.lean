import CloudAccess.ArgOption
import CloudAccess.Codec.Basic

/-!
# Codecs of options

Options and result sets as JSON.
-/

namespace CloudAccess

open Json (Document)

namespace ArgOption

/-- The fields of an option that were read so far. -/
structure Places where
  label : Option String := none
  value : Option String := none

/-- Reads one field of an option. -/
def putField (name : String) (d : Document) (p : Places) :
    Except DecodeError Places :=
  match name with
  | "label" => do
    let label ← Record.fill name p.label d.readString
    return { p with label := label }
  | _ => do
    let value ← Record.fill name p.value d.readString
    return { p with value := value }

/-- How an option is read. -/
def record : Record Places ArgOption where
  name := "ArgOption"
  fields := ["label", "value"]
  start := {}
  put := putField
  finish p := do
    let label ← Record.require "label" p.label
    let value ← Record.require "value" p.value
    return ⟨label, value⟩

/-- Options are written as label and value. -/
def codec : Codec ArgOption where
  toJson o := .object [("label", .string o.label), ("value", .string o.value)]
  ofDocument := record.ofDocument

end ArgOption

/-- A result set is written as the array of its options. -/
def ResultSet.codec : Codec ResultSet where
  toJson s := .array (s.options.map ArgOption.codec.toJson)
  ofDocument d := do
    let options ← d.readList ArgOption.codec.ofDocument
    return ⟨options⟩

end CloudAccess
