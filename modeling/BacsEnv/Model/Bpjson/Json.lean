import BacsEnv.Model.Text
import Mathlib.Data.Int.Notation

/-!
# `nlohmann::json` as `bpjson` uses it

The values, and the operations that `nlohmann_traits.hpp` maps the traits of `bpjson`
to, with their documented behaviour: `null` iterates as empty, `push_back` and
`operator[]` turn `null` into an array and an object, a primitive iterates once as
itself, and access to a kind that does not have it throws.

An object is given by its members in any order; what is read from it goes through
`members`, the `std::map` that `nlohmann` keeps. The bytes of a floating-point number are
not looked into.
-/

set_option autoImplicit false

namespace BacsEnv.Bpjson

/-- `std::map<std::string, T>`, ordered by the bytes of the keys. -/
abbrev StringMap (α : Type) : Type := Std.ExtTreeMap Text α compare

/-- A value of `nlohmann::json`. -/
inductive Json
  | null
  | boolean (b : Bool)
  | integer (n : ℤ)
  | unsigned (n : ℕ)
  | float (bits : UInt64)
  | string (s : Text)
  | array (items : List Json)
  | object (fields : List (Text × Json))

/-- The kinds of values that the texts of exceptions name (`type_name()`). -/
inductive JsonKind
  | null
  | boolean
  | number
  | string
  | array
  | object
deriving DecidableEq, Repr

/-- An operation that not every kind of value has: `at`, `operator[]` and `push_back`. -/
inductive JsonOperation
  | atKey (key : Text)
  | subscript (key : Text)
  | pushBack
deriving DecidableEq, Repr

/-- The exceptions of `nlohmann::json` that are met here, with what they are about. -/
inductive JsonError
  /-- `type_error` 302: what is converted must be of the kind `expected`, but is `actual`. -/
  | typeMustBe (expected actual : JsonKind)
  /-- `type_error` 304, 305 and 308: the operation cannot be used with the kind. -/
  | cannotUse (operation : JsonOperation) (actual : JsonKind)
  /-- `out_of_range` 403: there is no such key. -/
  | keyNotFound (key : Text)
deriving DecidableEq, Repr

/-- The direction that `read_object` and `write_object` name in their exceptions. -/
inductive Direction
  | read
  | write
deriving DecidableEq, Repr

/-- An exception: one of the JSON library, or one that was caught at a field. -/
inductive Exception
  | json (e : JsonError)
  | field (direction : Direction) (name : Text) (inner : Exception)
deriving DecidableEq, Repr

/-- `what()`, with the texts of the JSON library's own exceptions given. -/
def Exception.what (whatJson : JsonError → Text) : Exception → Text
  | .json e => whatJson e
  | .field .read name inner =>
      text "bpjson::json_serializer.read_object: field '" ++ name ++
        text "' caught exception - " ++ inner.what whatJson
  | .field .write name inner =>
      text "bpjson::json_serializer.write_object: field '" ++ name ++
        text "' caught exception - " ++ inner.what whatJson

/-- A computation that may throw. -/
abbrev Result (α : Type) : Type := Except Exception α

namespace Json

/-- The map that an object keeps its members in. -/
def members (fields : List (Text × Json)) : StringMap Json := Std.ExtTreeMap.ofList fields compare

/-- The object with the members of a map. -/
def ofMembers (m : StringMap Json) : Json := .object m.toList

/-- `type_name()` -/
def kind : Json → JsonKind
  | .null => .null
  | .boolean _ => .boolean
  | .integer _ => .number
  | .unsigned _ => .number
  | .float _ => .number
  | .string _ => .string
  | .array _ => .array
  | .object _ => .object

/-- `is_null()` -/
def isNull : Json → Bool
  | .null => true
  | _ => false

/-- `find(key)`, `none` for `end()`. -/
def find (key : Text) : Json → Option Json
  | .object fields => (members fields)[key]?
  | _ => none

/-- `at(key)` -/
def atKey (key : Text) : Json → Result Json
  | .object fields =>
      match (members fields)[key]? with
      | none => .error (.json (.keyNotFound key))
      | some value => .ok value
  | j => .error (.json (.cannotUse (.atKey key) j.kind))

/-- The values that `for (auto& item : json)` visits. -/
def iterate : Json → List Json
  | .null => []
  | .array items => items
  | .object fields => (members fields).toList.map Prod.snd
  | j => [j]

/-- The keys and values that `items()` visits. -/
def items : Json → List (Text × Json)
  | .null => []
  | .array items => items.zipIdx.map fun item => (text (toString item.2), item.1)
  | .object fields => (members fields).toList
  | j => [([], j)]

/-- `push_back(element)` -/
def pushBack (json element : Json) : Result Json :=
  match json with
  | .null => .ok (.array [element])
  | .array items => .ok (.array (items ++ [element]))
  | j => .error (.json (.cannotUse .pushBack j.kind))

/-- What `f` does to the value that `operator[](key)` refers to; a missing member is made
as `null`. -/
def updateSubkey (key : Text) (f : Json → Result Json) : Json → Result Json
  | .null => do
      let value ← f .null
      pure (ofMembers ((∅ : StringMap Json).insert key value))
  | .object fields => do
      let value ← f ((members fields)[key]?.getD .null)
      pure (ofMembers ((members fields).insert key value))
  | j => .error (.json (.cannotUse (.subscript key) j.kind))

/-- `get<std::string>()` -/
def getString : Json → Result Text
  | .string s => .ok s
  | j => .error (.json (.typeMustBe .string j.kind))

end Json

end BacsEnv.Bpjson
