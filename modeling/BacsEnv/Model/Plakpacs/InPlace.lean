import BacsEnv.Model.Bpacs.IterateObject
import BacsEnv.Model.Plakpacs.Registered

/-!
# `plakpacs::serializer::read` in place

`serializer::read(stream, value)` changes `value` step by step, and an exception on the way
leaves it as it is by then. Here the object is part of the state. The elements of a container
and the value of an optional are read into variables of their own, which are gone after an
exception; the members of a struct and the value of a constrained type are read in place.
-/

set_option autoImplicit false

namespace BacsEnv.Plakpacs

open Bpacs InPlace ReadStream

/-- A computation that reads from a stream into an object. -/
abbrev IntoM (τ : Type) : Type → Type := Into ReadError ReadStream τ

/-- The loop of `binary_walker<std::string>::read`. -/
def readStringLoopInto (G : Guard) : ℕ → IntoM Text Unit
  | 0 => throw .diverges
  | fuel + 1 => do
      let c ← beside (readChar G)
      if c = 0 then pure ()
      else do
        update fun value => value ++ [c]
        readStringLoopInto G fuel

/-- `binary_walker<std::string>::read`, with fuel for one turn of the loop more than
bytes remain. -/
def readStringInto (G : Guard) : IntoM Text Unit := fun s =>
  readStringLoopInto G (s.2.bytes.length - s.2.position + 1) s

/-- The check of a constrained object. -/
def checkInto {α : Type} (cs : List (α → Bool)) : IntoM α Unit := fun s =>
  if cs.all (fun check => check s.1) then .ok () s
  else .error (.exception constraintNotSatisfied) s

/-- The `catch` clause of `read_object` around the read of one field. -/
def inFieldInto {α : Type} (holder name : Text) (x : IntoM α Unit) : IntoM α Unit := fun s =>
  match x s with
  | .error (.exception what) s' =>
      .error (.exception (text "plakpacs::serializer.read_object: field '" ++ holder ++
        text "." ++ name ++ text "' caught exception - " ++ what)) s'
  | r => r

mutual

/-- `serializer::read` into an object. -/
def readInto (G : Guard) {α : Type} : Schema α → IntoM α Unit
  | .scalar w _ => do
      let value ← beside (ReadStream.read G w)
      update fun _ => value
  | .bool => do
      let value ← beside (readBool G)
      update fun _ => value
  | .empty => update fun _ => ()
  | .string => readStringInto G
  | .array s n =>
      through (fun target => ({ container := target } : FixedAppender _ n))
        (fun a _ => a.container) (repeatInto (read G s (fresh s)) FixedAppender.append n)
  | .spContainer s => do
      let size ← beside (readCount G)
      repeatInto (read G s (fresh s)) pushBack size
  | .spString => do
      let size ← beside (readCount G)
      repeatInto (readChar G) pushBack size
      let _ ← beside (readChar G)
      pure ()
  | .optional s => do
      let rs ← beside get
      if canRead G rs then do
        let has ← beside (readBool G)
        if has != 0 then do
          let value ← beside (read G s (fresh s))
          update fun _ => some value
        else pure ()
      else pure ()
  | .constrained s cs => do
      readInto G s
      checkInto cs
  | .struct holder fs => readObjectInto G holder fs

/-- `serializer::read_object` into an object: the fields in the order of their indices. -/
def readObjectInto (G : Guard) (holder : Text) {α : Type} : Fields α → IntoM α Unit
  | .last name _ s => inFieldInto holder name (readInto G s)
  | .cons name _ s fs =>
      inTurn (inFieldInto holder name (readInto G s)) (readObjectInto G holder fs)

end

variable {Holder : Type}

/-- What `read_object` does to `field.value()`. -/
def readMemberInto (G : Guard) (field : FieldMeta Schema Holder) : IntoM field.α Unit :=
  inFieldInto field.holder field.name (readInto G field.type)

/-- `serializer::read_object` into an object of a registered class. -/
def readRegisteredInto (G : Guard) (registry : Registry Schema Holder) : IntoM Holder Unit :=
  iterateObject registry (readMemberInto G)

end BacsEnv.Plakpacs
