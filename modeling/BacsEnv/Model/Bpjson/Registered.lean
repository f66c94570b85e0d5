import BacsEnv.Model.Bpacs.Registry
import BacsEnv.Model.Bpjson.Serializer

/-!
# `json_serializer` on objects of a registered class

`write_object` and `read_object` as they are called: they go through the fields that
`bpacs::iterate_object` passes them, and `field.value()` is a member of the object itself. The
walker of a registered class is not the one of `std::optional`, so only
`json_fields_optional` lets its fields be missing in the default mode.
-/

set_option autoImplicit false

namespace BacsEnv.Bpjson

open Bpacs

variable {Holder : Type}

/-- What `write_object` does for one field. -/
def writeMember (object : Holder) (json : Json) (field : FieldMeta JType Holder) : Result Json :=
  inField .write field.name
    (json.updateSubkey field.name (writeFrom field.type (field.member.get object)))

/-- `json_serializer::write_object` into the value `json`. -/
def writeRegistered (registry : Registry JType Holder) (object : Holder) (json : Json) :
    Result Json :=
  registry.iterateFields.foldlM (writeMember object) json

/-- What `read_object` does for one field. -/
def readMember (mode : MissingFields) (fieldsOptional : Bool) (json : Json) (object : Holder)
    (field : FieldMeta JType Holder) : Result Holder := do
  let value ← readField mode false fieldsOptional field.type field.name json
    (field.member.get object) fun subkey => readTo mode field.type subkey (field.member.get object)
  pure (field.member.set value object)

/-- `json_serializer::read_object` into the object. -/
def readRegistered (mode : MissingFields) (fieldsOptional : Bool)
    (registry : Registry JType Holder) (json : Json) (object : Holder) : Result Holder :=
  registry.iterateFields.foldlM (readMember mode fieldsOptional json) object

end BacsEnv.Bpjson
