import Mathlib.Data.List.Basic

/-!
# Members of an object

A `Member σ α` is a part of the objects of `σ` that can be looked at and assigned. `Keeps`
says that assignments to a member do not show in an observation, and two members are `Apart`
when neither shows in the other.

The members of a list, of any types, are a tuple of values (`Values`): `project` takes it from
an object and `assign` puts it in, one member after the other. Between members that are apart
nothing is lost (`project_assign`), and what each of them keeps is kept by all of them
(`observe_assign`).
-/

set_option autoImplicit false

namespace BacsEnv

/-- A part of an object. -/
structure Member (σ α : Type) where
  get : σ → α
  set : α → σ → σ
  get_set : ∀ a s, get (set a s) = a

namespace Member

variable {σ α β γ : Type}

/-- Assignments to the member do not show in the observation. -/
def Keeps (m : Member σ α) (observe : σ → γ) : Prop :=
  ∀ a s, observe (m.set a s) = observe s

/-- Neither of two members shows assignments to the other. -/
structure Apart (m : Member σ α) (n : Member σ β) : Prop where
  left : m.Keeps n.get
  right : n.Keeps m.get

section Tuples

variable {ι : Type 1} {T : ι → Type}

/-- The values of the members of a list that starts with `i`. -/
def Values (T : ι → Type) : ι → List ι → Type
  | i, [] => T i
  | i, j :: is => T i × Values T j is

variable (member : (i : ι) → Member σ (T i))

/-- What the members of an object hold. -/
def project : (i : ι) → (is : List ι) → σ → Values T i is
  | i, [], s => (member i).get s
  | i, j :: is, s => ((member i).get s, project j is s)

/-- The object with a value assigned to each member, in order. -/
def assign : (i : ι) → (is : List ι) → Values T i is → σ → σ
  | i, [], v, s => (member i).set v s
  | i, j :: is, v, s => assign j is v.2 ((member i).set v.1 s)

variable {member}

/-- Two objects have the same values exactly when they agree in every member. -/
theorem project_eq_iff {i : ι} {is : List ι} {s t : σ} :
    project member i is s = project member i is t ↔
      ∀ j ∈ i :: is, (member j).get s = (member j).get t := by
  induction is generalizing i with
  | nil =>
      rw [List.forall_mem_singleton]
      exact Iff.rfl
  | cons j is ih =>
      rw [project, project, List.forall_mem_cons, ← ih]
      exact Prod.ext_iff

/-- What each of the members keeps is kept when all are assigned. -/
theorem observe_assign {observe : σ → γ} {i : ι} {is : List ι}
    (hkeeps : ∀ j ∈ i :: is, (member j).Keeps observe) (v : Values T i is) (s : σ) :
    observe (assign member i is v s) = observe s := by
  induction is generalizing i s with
  | nil => exact hkeeps i (List.mem_singleton_self i) v s
  | cons j is ih =>
      obtain ⟨hfirst, hrest⟩ := List.forall_mem_cons.mp hkeeps
      show observe (assign member j is v.2 ((member i).set v.1 s)) = observe s
      rw [ih hrest]
      exact hfirst v.1 s

/-- An assignment to one member does not show in those that are apart from it. -/
theorem project_set {i j : ι} {is : List ι}
    (hapart : ∀ k ∈ j :: is, (member i).Apart (member k)) (a : T i) (s : σ) :
    project member j is ((member i).set a s) = project member j is s :=
  project_eq_iff.mpr fun k hk => (hapart k hk).left a s

/-- Members that are apart hold what was assigned to them. -/
theorem project_assign {i : ι} {is : List ι}
    (hapart : (i :: is).Pairwise fun j k => (member j).Apart (member k)) (v : Values T i is)
    (s : σ) : project member i is (assign member i is v s) = v := by
  induction is generalizing i s with
  | nil => exact (member i).get_set v s
  | cons j is ih =>
      obtain ⟨hfirst, hrest⟩ := List.pairwise_cons.mp hapart
      have hkept : (member i).get (assign member j is v.2 ((member i).set v.1 s)) = v.1 := by
        rw [observe_assign fun k hk => (hfirst k hk).right]
        exact (member i).get_set v.1 s
      exact Prod.ext hkept (ih hrest v.2 _)

end Tuples

end Member

end BacsEnv
