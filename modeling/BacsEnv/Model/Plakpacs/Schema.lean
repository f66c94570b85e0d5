import BacsEnv.Model.Plakpacs.Stream

/-!
# The types `plakpacs` can read

A `Schema α` is a C++ type built from the types that have a readable
`binary_walker`, and `α` is the type of its values. A `bpacs`-reflected struct
is the list of its registered fields, which has at least one member: a type is
reflected when field `0` is registered. The fields come with their default member
initialisers, which `T value;` leaves in an object before anything is read into it.
-/

set_option autoImplicit false

namespace BacsEnv.Plakpacs

mutual

/-- A readable type with the Lean type of its values. -/
inductive Schema : Type → Type 1
  /-- A type of `w` bytes that is read and written as its object representation. -/
  | scalar (w : ℕ) (size : 0 < w ∧ w < sizeRange) : Schema (List.Vector UInt8 w)
  /-- `bool`, whose object representation is copied as well: the byte is `1` or `0` in a
  program without undefined behaviour. -/
  | bool : Schema UInt8
  /-- A class type without data members (`std::is_empty_v`). -/
  | empty : Schema Unit
  /-- `std::string` -/
  | string : Schema Text
  /-- `std::array<T, n>` -/
  | array {α : Type} (s : Schema α) (n : ℕ) : Schema (List.Vector α n)
  /-- `sp_container<C>` of a vector, list or wide string `C` with elements `s`. -/
  | spContainer {α : Type} (s : Schema α) : Schema (List α)
  /-- `sp_string`, that is `sp_container<std::string>`. -/
  | spString : Schema Text
  /-- `std::optional<T>` -/
  | optional {α : Type} (s : Schema α) : Schema (Option α)
  /-- `constrained<T, Cs...>`, each constraint as its `check`. -/
  | constrained {α : Type} (s : Schema α) (cs : List (α → Bool)) : Schema α
  /-- A reflected struct: its `holder` name and its fields. -/
  | struct {α : Type} (holder : Text) (fs : Fields α) : Schema α

/-- The registered fields of a struct in the order of their indices: their names and
default member initialisers. -/
inductive Fields : Type → Type 1
  | last {α : Type} (name : Text) (init : Option α) (s : Schema α) : Fields α
  | cons {α β : Type} (name : Text) (init : Option α) (s : Schema α) (fs : Fields β) :
      Fields (α × β)

end

mutual

/-- The object that `T value;` makes. A scalar without an initialiser is indeterminate,
which no read shows. -/
def fresh {α : Type} : Schema α → α
  | .scalar w _ => List.Vector.replicate w 0
  | .bool => 0
  | .empty => ()
  | .string => []
  | .array s n => List.Vector.replicate n (fresh s)
  | .spContainer _ => []
  | .spString => []
  | .optional _ => none
  | .constrained s _ => fresh s
  | .struct _ fs => freshFields fs

/-- The fields of such an object: an initialiser goes first. -/
def freshFields {α : Type} : Fields α → α
  | .last _ init s => init.getD (fresh s)
  | .cons _ init s fs => (init.getD (fresh s), freshFields fs)

end

/-! ## The constraints of the library -/

/-- `container_size_constraint<N, Comparison>::check` on a container of `size` elements. -/
def containerSizeConstraint (N : ℕ) (comparison : ℕ → ℕ → Bool) (size : ℕ) : Bool :=
  comparison size N

/-- `min_container_size<N>` -/
def minContainerSize (N : ℕ) : ℕ → Bool :=
  containerSizeConstraint N fun a b => decide (a ≥ b)

/-- `max_container_size<N>` -/
def maxContainerSize (N : ℕ) : ℕ → Bool :=
  containerSizeConstraint N fun a b => decide (a ≤ b)

/-- `exact_container_size<N>` -/
def exactContainerSize (N : ℕ) : ℕ → Bool :=
  containerSizeConstraint N fun a b => decide (a = b)

/-- `container_size_limit<Min, Max>` with its default comparisons. -/
def containerSizeLimit (Min Max size : ℕ) : Bool :=
  minContainerSize Min size && maxContainerSize Max size

end BacsEnv.Plakpacs
