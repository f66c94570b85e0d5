import BacsEnv.Model.Text
import Mathlib.Data.List.AList

/-!
# `gspp::Componentable`

A map from component types to type-erased shared pointers. `κ` are the component types
(`std::type_index` tells them apart) and `C T` the values of a `T`. A pointer that is cast
back is not checked: what the cast gives is a reference to a `T` only when a `T` was erased.

The order in which an `std::unordered_map` is gone through is not specified; here it is
that of the association list.
-/

set_option autoImplicit false

namespace BacsEnv.Gspp

/-- An object of the component type `T`. -/
structure Instance {κ : Type} (C : κ → Type) (T : κ) where
  address : ℕ
  value : C T

/-- `std::shared_ptr<T>` -/
abbrev SharedPtr {κ : Type} (C : κ → Type) (T : κ) : Type := Option (Instance C T)

/-- `std::shared_ptr<void>` -/
abbrev SharedVoid {κ : Type} (C : κ → Type) : Type := Option (Σ T : κ, Instance C T)

/-- `Componentable` -/
structure Componentable {κ : Type} (C : κ → Type) where
  components : AList (fun _ : κ => SharedVoid C)

/-- `Componentable::ComponentRef<T>`; `other` refers to an object of another type as if it
were a `T`. -/
inductive ComponentRef {κ : Type} (C : κ → Type) (T : κ)
  | null
  | to (object : Instance C T)
  | other (S : κ) (object : Instance C S)

namespace Componentable

variable {κ : Type} [DecidableEq κ] {C : κ → Type}

/-- A shared pointer without its type. -/
def erase {T : κ} (p : SharedPtr C T) : SharedVoid C := p.map fun object => ⟨T, object⟩

/-- `(T*)p.get()` -/
def castTo (T : κ) : SharedVoid C → ComponentRef C T
  | none => .null
  | some ⟨S, object⟩ => if h : S = T then .to (h ▸ object) else .other S object

/-- `ComponentRef::operator bool` -/
def toBool {T : κ} : ComponentRef C T → Bool
  | .null => false
  | _ => true

/-- `Componentable()` -/
def init : Componentable C := { components := ∅ }

/-- `CreateComponent(std::shared_ptr<T> from)` -/
def createComponent (T : κ) (p : SharedPtr C T) (s : Componentable C) : Componentable C :=
  { components := s.components.insert T (erase p) }

/-- `CreateComponent(const T& from)`, with the address that `make_shared` gives the copy. -/
def createComponentFrom (T : κ) (address : ℕ) (value : C T) (s : Componentable C) :
    Componentable C :=
  createComponent T (some { address := address, value := value }) s

/-- `CreateComponent()`, with the value of `T{}`. -/
def createComponentDefault (T : κ) (address : ℕ) (zero : C T) (s : Componentable C) :
    Componentable C :=
  createComponentFrom T address zero s

/-- `GetComponent` -/
def getComponent (T : κ) (s : Componentable C) : ComponentRef C T :=
  match s.components.lookup T with
  | none => .null
  | some p => castTo T p

/-- `GetExistingComponent`, with `type_info::name()`. -/
def getExistingComponent (name : κ → Text) (T : κ) (s : Componentable C) :
    Except Text (ComponentRef C T) :=
  if toBool (getComponent T s) then .ok (getComponent T s)
  else .error (text "Componentable: Component " ++ name T ++ text " not found")

/-- `GetCurrentComponentTypes` -/
def getCurrentComponentTypes (s : Componentable C) : List κ := s.components.keys

/-- `HasComponent`. Where `operator[]` is evaluated the key is there. -/
def hasComponent (T : κ) (s : Componentable C) : Bool :=
  (s.components.lookup T).isSome && ((s.components.lookup T).getD none).isSome

/-- `DestroyComponent` -/
def destroyComponent (T : κ) (s : Componentable C) : Bool × Componentable C :=
  (decide (T ∈ s.components), { components := s.components.erase T })

/-- A call that may change the components. -/
inductive Operation (C : κ → Type)
  | createComponent (T : κ) (p : SharedPtr C T)
  | createComponentFrom (T : κ) (address : ℕ) (value : C T)
  | createComponentDefault (T : κ) (address : ℕ) (zero : C T)
  | destroyComponent (T : κ)
  | getCurrentComponentTypes

/-- What a call leaves. -/
def apply (s : Componentable C) : Operation C → Componentable C
  | .createComponent T p => createComponent T p s
  | .createComponentFrom T address value => createComponentFrom T address value s
  | .createComponentDefault T address zero => createComponentDefault T address zero s
  | .destroyComponent T => (destroyComponent T s).2
  | .getCurrentComponentTypes => s

/-- What a history of calls leaves. -/
def after (operations : List (Operation C)) : Componentable C := operations.foldl apply init

end Componentable

end BacsEnv.Gspp
