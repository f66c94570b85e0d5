import BacsEnv.Model.Bpacs.IterateObject
import BacsEnv.Model.Bpjson.Registered

/-!
# `json_serializer::read_to` in place

`read_to(json, to)` changes `to` step by step, and an exception on the way leaves it as it is by
then. Here the object is the state. The items of a container and the value of an optional are
made by `read<T>`, so they are gone after an exception; the fields of a struct are read in place,
and so are the elements of a map, which `to[key]` makes before they are read.
-/

set_option autoImplicit false

namespace BacsEnv.Bpjson

open Bpacs InPlace

/-- A computation on an object that may throw. -/
abbrev IntoM (τ : Type) : Type → Type := Into Exception Unit τ

/-- The `catch` clauses of `read_object`. -/
def inFieldInto {α : Type} (name : Text) (x : IntoM α Unit) : IntoM α Unit := fun s =>
  match x s with
  | .error e s' => .error (.field .read name e) s'
  | r => r

/-- The body of `read_object` for one field. -/
def readFieldInto (mode : MissingFields) (structForceOptional fieldsOptional : Bool) {α : Type}
    (t : JType α) (name : Text) (json : Json) (readSubkey : Json → IntoM α Unit) :
    IntoM α Unit :=
  inFieldInto name <|
    if (mode = .throwException ∧ ¬ structForceOptional ∧ ¬ fieldsOptional) ∨
        (json.find name).isSome then do
      let subkey ← beside (lift (json.atKey name))
      readSubkey subkey
    else if mode = .defaultInitialize then update fun _ => valueInit t
    else pure ()

mutual

/-- `json_serializer::read_to` -/
def readToInto (mode : MissingFields) {α : Type} : JType α → Json → IntoM α Unit
  | .scalar codec, json =>
      match codec.get json with
      | none => throw (.json (.typeMustBe codec.kind json.kind))
      | some v => update fun _ => v
  | .string, json => do
      let value ← beside (lift json.getString)
      update fun _ => value
  | .json, json => update fun _ => json
  | .sequence t, json =>
      forM json.iterate fun item => do
        let value ← beside (lift (readTo .throwException t item (fresh t)))
        update fun container => pushBack container value
  | .array t n, json =>
      through (fun target => ({ container := target } : FixedAppender _ n))
        (fun a _ => a.container) <|
          forM json.iterate fun item => do
            let value ← beside (lift (readTo .throwException t item (fresh t)))
            update fun a => a.append value
  | .optional t, json =>
      if json.isNull then update fun _ => none
      else do
        let value ← beside (lift (readTo .throwException t json (fresh t)))
        update fun _ => some value
  | .map t, json =>
      forM json.items fun pair => do
        let _ ← beside (lift (json.atKey pair.1))
        -- `to[key]` stays in the map when its read throws.
        through (fun m => m[pair.1]?.getD (valueInit t)) (fun value m => m.insert pair.1 value)
          (readToInto .throwException t pair.2)
  | .struct fieldsOptional fs, json =>
      readObjectInto mode (forceOptional (.struct fieldsOptional fs)) fieldsOptional fs json

/-- `json_serializer::read_object` -/
def readObjectInto (mode : MissingFields) (structForceOptional fieldsOptional : Bool)
    {α : Type} : JFields α → Json → IntoM α Unit
  | .last name _ t, json =>
      readFieldInto mode structForceOptional fieldsOptional t name json (readToInto mode t)
  | .cons name _ t fs, json =>
      inTurn
        (readFieldInto mode structForceOptional fieldsOptional t name json (readToInto mode t))
        (readObjectInto mode structForceOptional fieldsOptional fs json)

end

variable {Holder : Type}

/-- What `read_object` does to `field.value()`. -/
def readMemberInto (mode : MissingFields) (fieldsOptional : Bool) (json : Json)
    (field : FieldMeta JType Holder) : IntoM field.α Unit :=
  readFieldInto mode false fieldsOptional field.type field.name json (readToInto mode field.type)

/-- `json_serializer::read_object` into an object of a registered class. -/
def readRegisteredInto (mode : MissingFields) (fieldsOptional : Bool)
    (registry : Registry JType Holder) (json : Json) : IntoM Holder Unit :=
  iterateObject registry (readMemberInto mode fieldsOptional json)

end BacsEnv.Bpjson
