import BacsEnv.Model.Bpjson.Json
import BacsEnv.Model.ContainerAppender

/-!
# The types `bpjson` can read and write

A `JType α` is a C++ type that has a `json_walker` or is reflected, and `α` is the type
of its values. The fields of a reflected struct come with their default member
initialisers, and the struct with its `json_fields_optional` trait.
-/

set_option autoImplicit false

namespace BacsEnv.Bpjson

/-- A type that `get<T>()` and the assignment of a `T` convert: the kind of value that `get`
insists on, what the two do, the value of `T{}`, and what an object without an initialiser
holds. -/
structure ScalarCodec (α : Type) where
  kind : JsonKind
  get : Json → Option α
  put : α → Json
  zero : α
  indeterminate : α
  get_put : ∀ a, get (put a) = some a
  put_not_null : ∀ a, (put a).isNull = false

/-- `bool` -/
def boolCodec : ScalarCodec Bool where
  kind := .boolean
  get
    | .boolean b => some b
    | _ => none
  put := .boolean
  zero := false
  indeterminate := false
  get_put _ := rfl
  put_not_null _ := rfl

mutual

/-- A type with the Lean type of its values. -/
inductive JType : Type → Type 1
  | scalar {α : Type} (codec : ScalarCodec α) : JType α
  /-- `std::string` -/
  | string : JType Text
  /-- The JSON type itself. -/
  | json : JType Json
  /-- `std::vector<T>`, `std::list<T>` -/
  | sequence {α : Type} (t : JType α) : JType (List α)
  /-- `std::array<T, n>` -/
  | array {α : Type} (t : JType α) (n : ℕ) : JType (List.Vector α n)
  /-- `std::optional<T>` -/
  | optional {α : Type} (t : JType α) : JType (Option α)
  /-- `std::map<std::string, T>` -/
  | map {α : Type} (t : JType α) : JType (StringMap α)
  /-- A reflected struct: `json_fields_optional` and its fields. -/
  | struct {α : Type} (fieldsOptional : Bool) (fs : JFields α) : JType α

/-- The registered fields of a struct: their names and default member initialisers. -/
inductive JFields : Type → Type 1
  | last {α : Type} (name : Text) (init : Option α) (t : JType α) : JFields α
  | cons {α β : Type} (name : Text) (init : Option α) (t : JType α) (fs : JFields β) :
      JFields (α × β)

end

/-- How an object comes to be: as `T value;` or as `T{}`. -/
inductive Creation
  | defaultInit
  | valueInit
deriving DecidableEq, Repr

mutual

/-- The object that `T value;` or `T{}` makes. -/
def initial (c : Creation) {α : Type} : JType α → α
  | .scalar codec =>
      match c with
      | .defaultInit => codec.indeterminate
      | .valueInit => codec.zero
  | .string => []
  | .json => .null
  | .sequence _ => []
  | .array t n => List.Vector.replicate n (initial c t)
  | .optional _ => none
  | .map _ => ∅
  | .struct _ fs => initialFields c fs

/-- The fields of such an object: an initialiser goes first. -/
def initialFields (c : Creation) {α : Type} : JFields α → α
  | .last _ init t => init.getD (initial c t)
  | .cons _ init t fs => (init.getD (initial c t), initialFields c fs)

end

/-- `T value;` -/
abbrev fresh {α : Type} (t : JType α) : α := initial .defaultInit t

/-- `T{}` -/
abbrev valueInit {α : Type} (t : JType α) : α := initial .valueInit t

/-- `json_walker<Json, T>::force_optional` -/
def forceOptional {α : Type} : JType α → Bool
  | .optional _ => true
  | _ => false

end BacsEnv.Bpjson
