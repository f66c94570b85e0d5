import BacsEnv.Model.Gspp.Componentable
import Mathlib.Data.List.Induction

/-!
# The views of a `Componentable`

`last T` is the last call of a history that is about `T`, and `latest T` the pointer that
it stored. `lookup_after` says that this is all that the map holds for `T`, so what the
five views answer follows from it: they agree unless that pointer is null.
-/

set_option autoImplicit false

namespace BacsEnv.Gspp.Componentable

variable {κ : Type} [DecidableEq κ] {C : κ → Type}

/-- The component type a call is about. -/
def Operation.subject : Operation C → Option κ
  | .createComponent T _ => some T
  | .createComponentFrom T _ _ => some T
  | .createComponentDefault T _ _ => some T
  | .destroyComponent T => some T
  | .getCurrentComponentTypes => none

/-- The pointer that a `CreateComponent` stores for its component type. -/
def Operation.stored : Operation C → Option (SharedVoid C)
  | .createComponent _ p => some (erase p)
  | .createComponentFrom T address value => some (some ⟨T, { address := address, value := value }⟩)
  | .createComponentDefault T address zero => some (some ⟨T, { address := address, value := zero }⟩)
  | .destroyComponent _ => none
  | .getCurrentComponentTypes => none

/-- What the latest `CreateComponent<T>` since the last `DestroyComponent<T>` stored. -/
def latest (T : κ) (operations : List (Operation C)) : Option (SharedVoid C) :=
  (operations.filter fun o => o.subject = some T).getLast?.bind Operation.stored

omit [DecidableEq κ] in
/-- What is stored for a component type is null or an object of that type. -/
theorem stored_cases {o : Operation C} {T : κ} (hsubject : o.subject = some T)
    {p : SharedVoid C} (hp : o.stored = some p) :
    ∃ q : SharedPtr C T, p = erase q := by
  cases o with
  | createComponent S q =>
      cases hsubject
      cases hp
      exact ⟨q, rfl⟩
  | createComponentFrom S address value =>
      cases hsubject
      cases hp
      exact ⟨some { address := address, value := value }, rfl⟩
  | createComponentDefault S address zero =>
      cases hsubject
      cases hp
      exact ⟨some { address := address, value := zero }, rfl⟩
  | destroyComponent S => cases hp
  | getCurrentComponentTypes => cases hp

/-- A call sets what is held for its own component type. -/
theorem lookup_apply_of_subject {o : Operation C} {T : κ} (h : o.subject = some T)
    (s : Componentable C) : (apply s o).components.lookup T = o.stored := by
  cases o <;> cases h
  · exact AList.lookup_insert _
  · exact AList.lookup_insert _
  · exact AList.lookup_insert _
  · exact AList.lookup_erase T _

/-- A call leaves what is held for every other component type. -/
theorem lookup_apply_of_ne {o : Operation C} {T : κ} (h : o.subject ≠ some T)
    (s : Componentable C) : (apply s o).components.lookup T = s.components.lookup T := by
  have hne : ∀ S : κ, some S ≠ some T → T ≠ S := fun S hS heq => hS (congrArg some heq.symm)
  cases o with
  | createComponent S p => exact AList.lookup_insert_ne (hne S h)
  | createComponentFrom S address value => exact AList.lookup_insert_ne (hne S h)
  | createComponentDefault S address zero => exact AList.lookup_insert_ne (hne S h)
  | destroyComponent S => exact AList.lookup_erase_ne (hne S h)
  | getCurrentComponentTypes => rfl

/-- What the map holds after a history. -/
theorem lookup_after (T : κ) (operations : List (Operation C)) :
    (after operations).components.lookup T = latest T operations := by
  induction operations using List.reverseRecOn with
  | nil => exact AList.lookup_empty T
  | append_singleton operations o ih =>
      have hstep : after (operations ++ [o]) = apply (after operations) o := by
        simp [after]
      rw [hstep]
      by_cases hsubject : o.subject = some T
      · rw [lookup_apply_of_subject hsubject]
        simp [latest, hsubject]
      · rw [lookup_apply_of_ne hsubject, ih]
        simp [latest, hsubject]

/-- What was stored last is null or an object of the component type. -/
theorem latest_cases {T : κ} {operations : List (Operation C)} {p : SharedVoid C}
    (h : latest T operations = some p) :
    p = none ∨ ∃ object : Instance C T, p = some ⟨T, object⟩ := by
  obtain ⟨o, hlast, hstored⟩ := Option.bind_eq_some_iff.mp h
  have hmem := List.mem_of_getLast? hlast
  have hsubject : o.subject = some T := by simpa using (List.mem_filter.mp hmem).2
  obtain ⟨q, rfl⟩ := stored_cases hsubject hstored
  cases q with
  | none => exact Or.inl rfl
  | some object => exact Or.inr ⟨object, rfl⟩

/-! ## The views -/

/-- The five views of a component type answer alike. -/
structure ViewsAgree (name : κ → Text) (T : κ) (s : Componentable C) : Prop where
  get_iff : hasComponent T s = true ↔ toBool (getComponent T s) = true
  existing_iff : hasComponent T s = true ↔ ∃ ref, getExistingComponent name T s = .ok ref
  listed_iff : hasComponent T s = true ↔ (getCurrentComponentTypes s).count T = 1
  listed_once : (getCurrentComponentTypes s).count T ≤ 1
  destroyed_iff : hasComponent T s = true ↔ (destroyComponent T s).1 = true

/-- The five views of a component type answer the same in two states. -/
structure SameViews (name : κ → Text) (T : κ) (s s' : Componentable C) : Prop where
  has : hasComponent T s' = hasComponent T s
  get : getComponent T s' = getComponent T s
  existing : getExistingComponent name T s' = getExistingComponent name T s
  listed : (getCurrentComponentTypes s').count T = (getCurrentComponentTypes s).count T
  destroyed : (destroyComponent T s').1 = (destroyComponent T s).1

/-- How often a component type is listed, and whether it would be destroyed: both go by the
key alone. -/
theorem count_getCurrentComponentTypes (T : κ) (s : Componentable C) :
    (getCurrentComponentTypes s).count T = if (s.components.lookup T).isSome then 1 else 0 := by
  have hcount := s.components.keys_nodup.count (a := T)
  have hkey : (s.components.lookup T).isSome = true ↔ T ∈ s.components.keys :=
    AList.lookup_isSome
  unfold getCurrentComponentTypes
  rw [hcount]
  simp only [hkey]

theorem destroyComponent_fst (T : κ) (s : Componentable C) :
    (destroyComponent T s).1 = (s.components.lookup T).isSome := by
  unfold destroyComponent
  rw [Bool.eq_iff_iff, decide_eq_true_iff]
  exact AList.lookup_isSome.symm

/-- The views depend on what is held for the component type only. -/
theorem sameViews_of_lookup {name : κ → Text} {T : κ} {s s' : Componentable C}
    (h : s'.components.lookup T = s.components.lookup T) : SameViews name T s s' := by
  have hget : getComponent T s' = getComponent T s := by
    unfold getComponent
    rw [h]
  refine { has := ?_, get := hget, existing := ?_, listed := ?_, destroyed := ?_ }
  · unfold hasComponent
    rw [h]
  · unfold getExistingComponent
    rw [hget]
  · rw [count_getCurrentComponentTypes, count_getCurrentComponentTypes, h]
  · rw [destroyComponent_fst, destroyComponent_fst, h]

/-- `GetExistingComponent` returns what `GetComponent` does, unless it is null. -/
theorem getExistingComponent_ok_iff {name : κ → Text} {T : κ} {s : Componentable C} :
    (∃ ref, getExistingComponent name T s = .ok ref) ↔ toBool (getComponent T s) = true := by
  unfold getExistingComponent
  cases toBool (getComponent T s) <;> simp

/-- The cast of an object back to its own type. -/
theorem castTo_self {T : κ} (object : Instance C T) :
    castTo T (some ⟨T, object⟩) = .to object := by
  simp [castTo]

/-- Without an entry the views agree that nothing is there. -/
theorem viewsAgree_of_absent {name : κ → Text} {T : κ} {s : Componentable C}
    (h : s.components.lookup T = none) : hasComponent T s = false ∧ ViewsAgree name T s := by
  have hhas : hasComponent T s = false := by
    simp [hasComponent, h]
  have hget : getComponent T s = .null := by
    simp [getComponent, h]
  refine ⟨hhas, ?_⟩
  constructor <;>
    simp [hhas, hget, getExistingComponent_ok_iff, toBool, h, count_getCurrentComponentTypes,
      destroyComponent_fst]

/-- With an object the views agree that it is there. -/
theorem viewsAgree_of_present {name : κ → Text} {T : κ} {s : Componentable C}
    {object : Instance C T} (h : s.components.lookup T = some (some ⟨T, object⟩)) :
    getComponent T s = .to object ∧ getExistingComponent name T s = .ok (.to object) ∧
      ViewsAgree name T s := by
  have hhas : hasComponent T s = true := by
    simp [hasComponent, h]
  have hget : getComponent T s = .to object := by
    simp [getComponent, h, castTo_self]
  refine ⟨hget, by simp [getExistingComponent, hget, toBool], ?_⟩
  constructor <;>
    simp [hhas, hget, getExistingComponent_ok_iff, toBool, h, count_getCurrentComponentTypes,
      destroyComponent_fst]

/-- With a null pointer the views disagree. -/
theorem not_viewsAgree_of_null {name : κ → Text} {T : κ} {s : Componentable C}
    (h : s.components.lookup T = some none) : ¬ ViewsAgree name T s := by
  intro hagree
  have hhas : hasComponent T s = false := by
    simp [hasComponent, h]
  have hdestroyed := hagree.destroyed_iff
  rw [destroyComponent_fst, h, hhas] at hdestroyed
  simp at hdestroyed

/-- What the views of a component type should answer after a history: they agree, they show
the object that was created last, and no call about another type changes them. -/
structure ViewsRight (name : κ → Text) (T : κ) (operations : List (Operation C)) : Prop where
  agree : ViewsAgree name T (after operations)
  shows_latest : hasComponent T (after operations) = true →
    ∃ object : Instance C T, latest T operations = some (some ⟨T, object⟩) ∧
      getComponent T (after operations) = .to object ∧
      getExistingComponent name T (after operations) = .ok (.to object)
  kept : ∀ o : Operation C, o.subject ≠ some T →
    SameViews name T (after operations) (apply (after operations) o)

/-- The views are right, if and only if the pointer that was stored last is not null. -/
theorem viewsRight_iff (name : κ → Text) (T : κ) (operations : List (Operation C)) :
    ViewsRight name T operations ↔ latest T operations ≠ some none := by
  have hlookup := lookup_after T operations
  constructor
  · intro h hnull
    rw [hnull] at hlookup
    exact not_viewsAgree_of_null hlookup h.agree
  · intro hnotNull
    have hkept : ∀ o : Operation C, o.subject ≠ some T →
        SameViews name T (after operations) (apply (after operations) o) :=
      fun o ho => sameViews_of_lookup (lookup_apply_of_ne ho _)
    cases hlatest : latest T operations with
    | none =>
        rw [hlatest] at hlookup
        obtain ⟨hhas, hagree⟩ := viewsAgree_of_absent hlookup
        refine { agree := hagree, shows_latest := ?_, kept := hkept }
        intro htrue
        rw [hhas] at htrue
        cases htrue
    | some p =>
        rcases latest_cases hlatest with rfl | ⟨object, rfl⟩
        · exact absurd hlatest hnotNull
        · rw [hlatest] at hlookup
          obtain ⟨hget, hexisting, hagree⟩ := viewsAgree_of_present hlookup
          exact { agree := hagree, shows_latest := fun _ => ⟨object, hlatest, hget, hexisting⟩,
                  kept := hkept }

/-- A component made of a null pointer is listed and can be destroyed, but is not there. -/
theorem null_component_listed :
    hasComponent true (after [.createComponent true none] : Componentable fun _ : Bool => ℕ) =
        false ∧
      getCurrentComponentTypes
        (after [.createComponent true none] : Componentable fun _ : Bool => ℕ) = [true] ∧
      (destroyComponent true
        (after [.createComponent true none] : Componentable fun _ : Bool => ℕ)).1 = true ∧
      ¬ ViewsRight (C := fun _ : Bool => ℕ) (fun _ => []) true [.createComponent true none] := by
  refine ⟨rfl, rfl, rfl, ?_⟩
  intro h
  have hhas := h.agree.destroyed_iff.mpr rfl
  cases hhas

end BacsEnv.Gspp.Componentable
