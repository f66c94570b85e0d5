import BacsEnv.Model.Bpacs.Registry
import BacsEnv.Model.Plakpacs.Serializer

/-!
# `plakpacs::serializer` on objects of a registered class

`write_object` and `read_object` as they are called: they go through the fields that
`bpacs::iterate_object` passes them, and `field.value()` is a member of the object itself. A
member whose type is a registered class is described by the `struct` of its fields.
-/

set_option autoImplicit false

namespace BacsEnv.Plakpacs

open Bpacs

variable {Holder : Type}

/-- `serializer::write_object` -/
def writeRegistered (uninit : ℕ → UInt8) (registry : Registry Schema Holder) (object : Holder)
    (ws : WriteStream) : WriteStream :=
  registry.iterateFields.foldl
    (fun ws field => write uninit field.type (field.member.get object) ws) ws

/-- What `read_object` does for one field. -/
def readMember (G : Guard) (object : Holder) (field : FieldMeta Schema Holder) :
    ReadM Holder := do
  let value ← inField field.holder field.name (read G field.type (field.member.get object))
  pure (field.member.set value object)

/-- `serializer::read_object` into the object. -/
def readRegistered (G : Guard) (registry : Registry Schema Holder) (object : Holder) :
    ReadM Holder :=
  registry.iterateFields.foldlM (readMember G) object

/-- The bytes of `serializer::write(object)` on a new stream. -/
def writtenRegistered (uninit : ℕ → UInt8) (registry : Registry Schema Holder)
    (object : Holder) : List UInt8 :=
  (writeRegistered uninit registry object {}).bytes

end BacsEnv.Plakpacs
