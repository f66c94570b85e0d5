import BacsEnv.Model.Gspp.Componentable

/-!
# Who owns the components

A component is destroyed with the last `std::shared_ptr` to it. The map of a `Componentable`
holds one for each entry, and the rest of the program may hold others; a `ComponentRef` holds
none. Objects are numbered in the order in which they are made, which stands for their
addresses, so that no address is used again.
-/

set_option autoImplicit false

namespace BacsEnv.Gspp

/-- A `Componentable` among the shared pointers of a program: those outside of its map, each by
the address of its object, the objects that were destroyed, and how many were made. -/
structure ComponentStore {κ : Type} (C : κ → Type) where
  components : Componentable C
  outside : List ℕ
  destroyed : List ℕ
  made : ℕ

namespace ComponentStore

variable {κ : Type} {C : κ → Type}

/-- The address that a shared pointer holds. -/
def address (p : SharedVoid C) : Option ℕ := p.map fun object => object.2.address

/-- The addresses that the map holds. -/
def held (s : ComponentStore C) : List ℕ :=
  s.components.components.entries.filterMap fun e => address e.2

/-- Some shared pointer holds the address. -/
def Owned (s : ComponentStore C) (a : ℕ) : Prop := a ∈ s.outside ∨ a ∈ s.held

instance (s : ComponentStore C) (a : ℕ) : Decidable (s.Owned a) :=
  inferInstanceAs (Decidable (_ ∨ _))

/-- A shared pointer to the object has gone. -/
def release (s : ComponentStore C) : Option ℕ → ComponentStore C
  | none => s
  | some a => { s with destroyed := if s.Owned a then s.destroyed else s.destroyed ++ [a] }

@[simp] theorem components_release (s : ComponentStore C) (p : Option ℕ) :
    (s.release p).components = s.components := by
  cases p <;> rfl

@[simp] theorem outside_release (s : ComponentStore C) (p : Option ℕ) :
    (s.release p).outside = s.outside := by
  cases p <;> rfl

@[simp] theorem made_release (s : ComponentStore C) (p : Option ℕ) :
    (s.release p).made = s.made := by
  cases p <;> rfl

variable [DecidableEq κ]

/-- The address that is held for a component type. -/
def entry (s : ComponentStore C) (T : κ) : Option ℕ :=
  (s.components.components.lookup T).bind address

/-- `Componentable()` -/
def init : ComponentStore C :=
  { components := Componentable.init, outside := [], destroyed := [], made := 0 }

/-- `std::make_shared` -/
def makeShared (s : ComponentStore C) : ComponentStore C :=
  { s with outside := s.made :: s.outside, made := s.made + 1 }

/-- A shared pointer outside of the map is destroyed. -/
def drop (s : ComponentStore C) (a : ℕ) : ComponentStore C :=
  release { s with outside := s.outside.erase a } (some a)

/-- `CreateComponent(std::shared_ptr<T> from)`: the assignment to the entry releases the pointer
that it held. -/
def createComponent (s : ComponentStore C) (T : κ) (p : SharedPtr C T) : ComponentStore C :=
  release { s with components := Componentable.createComponent T p s.components } (s.entry T)

/-- `CreateComponent(const T& from)`: a pointer is made, passed on and destroyed. -/
def createComponentFrom (s : ComponentStore C) (T : κ) (value : C T) : ComponentStore C :=
  drop (createComponent s.makeShared T (some { address := s.made, value := value })) s.made

/-- `DestroyComponent` -/
def destroyComponent (s : ComponentStore C) (T : κ) : ComponentStore C :=
  release { s with components := (Componentable.destroyComponent T s.components).2 } (s.entry T)

/-- What a program does with the components and with its shared pointers. -/
inductive Event (C : κ → Type)
  | makeShared
  | copy (a : ℕ)
  | drop (a : ℕ)
  | createComponent (T : κ) (p : SharedPtr C T)
  | createComponentFrom (T : κ) (value : C T)
  | destroyComponent (T : κ)

/-- The component type that an event is about. -/
def Event.subject : Event C → Option κ
  | .createComponent T _ => some T
  | .createComponentFrom T _ => some T
  | .destroyComponent T => some T
  | _ => none

/-- One step, when it can happen: a program copies, drops and passes on the pointers it has. -/
def step (s : ComponentStore C) : Event C → Option (ComponentStore C)
  | .makeShared => some s.makeShared
  | .copy a => if a ∈ s.outside then some { s with outside := a :: s.outside } else none
  | .drop a => if a ∈ s.outside then some (s.drop a) else none
  | .createComponent T p =>
      if ∀ object ∈ p, object.address ∈ s.outside then some (s.createComponent T p) else none
  | .createComponentFrom T value => some (s.createComponentFrom T value)
  | .destroyComponent T => some (s.destroyComponent T)

end ComponentStore

end BacsEnv.Gspp
