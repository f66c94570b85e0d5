import BacsEnv.Model.Bpjson.Types

/-!
# `json_serializer` and the walkers

`readTo` reads into an object and returns what it holds then, `writeFrom` writes into a
JSON value. A walker has no settings: what it reads, it reads with the default ones.
-/

set_option autoImplicit false

namespace BacsEnv.Bpjson

/-- `missing_fields` -/
inductive MissingFields
  | ignore
  | defaultInitialize
  | throwException
deriving DecidableEq, Repr

/-- The `catch` clauses of `read_object` and `write_object`. -/
def inField {α : Type} (direction : Direction) (name : Text) : Result α → Result α
  | .ok v => .ok v
  | .error e => .error (.field direction name e)

/-! ## Writing -/

mutual

/-- `json_serializer::write_from` into the value `json`. -/
def writeFrom {α : Type} : JType α → α → Json → Result Json
  | .scalar codec, v, _ => .ok (codec.put v)
  | .string, v, _ => .ok (.string v)
  | .json, v, _ => .ok v
  | .sequence t, v, json =>
      v.foldlM (fun json item => do
        let element ← writeFrom t item .null
        json.pushBack element) json
  | .array t _, v, json =>
      v.toList.foldlM (fun json item => do
        let element ← writeFrom t item .null
        json.pushBack element) json
  | .optional _, none, _ => .ok .null
  | .optional t, some v, json => writeFrom t v json
  | .map t, v, json =>
      v.toList.foldlM (fun json pair => json.updateSubkey pair.1 (writeFrom t pair.2)) json
  | .struct _ fs, v, json => writeObject fs v json

/-- `json_serializer::write_object`: the fields in the order of their indices. -/
def writeObject {α : Type} : JFields α → α → Json → Result Json
  | .last name _ t, v, json =>
      inField .write name (json.updateSubkey name (writeFrom t v))
  | .cons name _ t fs, (v, vs), json => do
      let json₁ ← inField .write name (json.updateSubkey name (writeFrom t v))
      writeObject fs vs json₁

end

/-- `json_serializer::write` -/
def write {α : Type} (t : JType α) (v : α) : Result Json := writeFrom t v .null

/-! ## Reading -/

/-- The body of `read_object` for one field of a struct with the given traits, with the
read of the field's own value as `readSubkey`. -/
def readField (mode : MissingFields) (structForceOptional fieldsOptional : Bool) {α : Type}
    (t : JType α) (name : Text) (json : Json) (target : α) (readSubkey : Json → Result α) :
    Result α :=
  inField .read name <|
    if (mode = .throwException ∧ ¬ structForceOptional ∧ ¬ fieldsOptional) ∨
        (json.find name).isSome then do
      let subkey ← json.atKey name
      readSubkey subkey
    else if mode = .defaultInitialize then pure (valueInit t)
    else pure target

mutual

/-- `json_serializer::read_to` into the object `target`. -/
def readTo (mode : MissingFields) {α : Type} : JType α → Json → α → Result α
  | .scalar codec, json, _ =>
      match codec.get json with
      | none => .error (.json (.typeMustBe codec.kind json.kind))
      | some v => .ok v
  | .string, json, _ => json.getString
  | .json, json, _ => .ok json
  | .sequence t, json, target =>
      json.iterate.foldlM (fun container item => do
        let value ← readTo .throwException t item (fresh t)
        pure (pushBack container value)) target
  | .array t n, json, target => do
      let a ← json.iterate.foldlM (fun (a : FixedAppender _ n) item => do
        let value ← readTo .throwException t item (fresh t)
        pure (a.append value)) { container := target }
      pure a.container
  | .optional t, json, _ =>
      if json.isNull then pure none
      else do
        let value ← readTo .throwException t json (fresh t)
        pure (some value)
  | .map t, json, target =>
      json.items.foldlM (fun (m : StringMap _) pair => do
        let _ ← json.atKey pair.1
        -- `to[key]` makes the element when it is not there.
        let value ← readTo .throwException t pair.2 (m[pair.1]?.getD (valueInit t))
        pure (m.insert pair.1 value)) target
  | .struct fieldsOptional fs, json, target =>
      readObject mode (forceOptional (.struct fieldsOptional fs)) fieldsOptional fs json target

/-- `json_serializer::read_object`, which looks up both traits for the struct, not for the
type of the field. -/
def readObject (mode : MissingFields) (structForceOptional fieldsOptional : Bool) {α : Type} :
    JFields α → Json → α → Result α
  | .last name _ t, json, target =>
      readField mode structForceOptional fieldsOptional t name json target
        fun subkey => readTo mode t subkey target
  | .cons name _ t fs, json, (target, targets) => do
      let v ← readField mode structForceOptional fieldsOptional t name json target
        fun subkey => readTo mode t subkey target
      let vs ← readObject mode structForceOptional fieldsOptional fs json targets
      pure (v, vs)

end

/-- `json_serializer::read` -/
def read (mode : MissingFields) {α : Type} (t : JType α) (json : Json) : Result α :=
  readTo mode t json (fresh t)

end BacsEnv.Bpjson
