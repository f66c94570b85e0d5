import BacsEnv.Analysis.Bpacs.Registry
import BacsEnv.Model.Bpacs.IterateObject

/-!
# What `iterate_object` leaves after an exception

When the function throws at a field, the fields in front of it are as the class with only these
would have been left (`Registry.upTo`), the field is as the function left it, and nothing else of
the object has changed.
-/

set_option autoImplicit false

namespace BacsEnv.Bpacs

open InPlace StatefulRun

variable {ε σ Holder : Type} {Ty : Type → Type 1}

/-- The object `left` has the members of `middle` in front of the field at `I`, and differs from
`b` in these and in that field only. -/
structure Registry.LeftAt (registry : Registry Ty Holder) (I : ℕ) (b middle left : Holder) :
    Prop where
  front : ∀ J < I, ∀ field, registry.fieldMeta J = some field →
    field.member.get left = field.member.get middle
  rest : ∀ {γ : Type} (observe : Holder → γ),
    (∀ J ≤ I, ∀ field, registry.fieldMeta J = some field → field.member.Keeps observe) →
      observe left = observe b

variable {registry : Registry Ty Holder} {b left : Holder} {s s' : σ}
  {fn : (field : FieldMeta Ty Holder) → Into ε σ field.α Unit}

/-- What each visited member keeps is kept. -/
theorem observe_iterateObject {γ : Type} {observe : Holder → γ}
    (hkeeps : ∀ field ∈ registry.iterateFields, field.member.Keeps observe)
    (h : iterateObject registry fn (b, s) = .ok () (left, s')) : observe left = observe b := by
  unfold iterateObject at h
  generalize registry.iterateFields = fields at h hkeeps
  induction fields generalizing b s with
  | nil =>
      obtain ⟨-, hstate⟩ := EStateM.Result.ok.inj h
      obtain ⟨rfl, -⟩ := Prod.mk.inj hstate
      rfl
  | cons field fields ih =>
      obtain ⟨hfirst, hrest⟩ := List.forall_mem_cons.mp hkeeps
      rw [List.forM_cons, bind_ok_iff] at h
      obtain ⟨u, ⟨middle, s₁⟩, hfield, h⟩ := h
      obtain ⟨v, -, hmiddle⟩ := through_ok_iff.mp hfield
      obtain rfl : middle = field.member.set v b := hmiddle
      rw [ih h hrest]
      exact hfirst v b

/-- What the members in front of an index keep is kept. -/
theorem observe_iterateObject_upTo {γ : Type} {observe : Holder → γ} {I : ℕ}
    (hkeeps : ∀ J < I, ∀ field, registry.fieldMeta J = some field → field.member.Keeps observe)
    (h : iterateObject (registry.upTo I) fn (b, s) = .ok () (left, s')) :
    observe left = observe b := by
  refine observe_iterateObject (fun field hmem => ?_) h
  rw [Registry.iterateFields_upTo] at hmem
  obtain ⟨J, hJ, hget⟩ := List.mem_take_iff_getElem.mp hmem
  have hlt : J < I := Nat.lt_of_lt_of_le hJ (Nat.min_le_left _ _)
  have hfield := Registry.getElem?_iterateFields.mp (List.getElem?_eq_some_iff.mpr ⟨_, hget⟩)
  exact hkeeps J hlt field hfield.1

/-- An exception comes from the function at one field, after it returned at those in front. -/
theorem iterateObject_error_iff {e : ε} :
    iterateObject registry fn (b, s) = .error e (left, s') ↔
      ∃ I field middle s₁ v, registry.fieldMeta I = some field ∧ registry.Visited I ∧
        iterateObject (registry.upTo I) fn (b, s) = .ok () (middle, s₁) ∧
        fn field (field.member.get middle, s₁) = .error e (v, s') ∧
        left = field.member.set v middle := by
  have hbefore : ∀ I middle s₁, iterateObject (registry.upTo I) fn (b, s) = .ok () (middle, s₁) ↔
      (registry.iterateFields.take I).foldlM (fun object field =>
        settle (through field.member.get field.member.set (fn field)) object) b s =
          .ok middle s₁ := by
    intro I middle s₁
    rw [iterateObject, ← settle_ok_iff, settle_forM, Registry.iterateFields_upTo]
  simp only [hbefore]
  rw [iterateObject, forM_error_iff]
  simp only [Registry.getElem?_iterateFields, through_error_iff]
  constructor
  · rintro ⟨I, field, middle, s₁, ⟨hfield, hvisited⟩, hfront, v, herror, hleft⟩
    exact ⟨I, field, middle, s₁, v, hfield, hvisited, hfront, herror, hleft⟩
  · rintro ⟨I, field, middle, s₁, v, hfield, hvisited, hfront, herror, hleft⟩
    exact ⟨I, field, middle, s₁, ⟨hfield, hvisited⟩, hfront, v, herror, hleft⟩

/-- After an exception at a field of a class whose members are apart. -/
theorem exists_leftAt_of_error (hapart : registry.MembersApart) {e : ε}
    (h : iterateObject registry fn (b, s) = .error e (left, s')) :
    ∃ I field middle s₁, registry.fieldMeta I = some field ∧ registry.Visited I ∧
      iterateObject (registry.upTo I) fn (b, s) = .ok () (middle, s₁) ∧
      fn field (field.member.get b, s₁) = .error e (field.member.get left, s') ∧
      registry.LeftAt I b middle left := by
  obtain ⟨I, field, middle, s₁, v, hfield, hvisited, hfront, herror, rfl⟩ :=
    iterateObject_error_iff.mp h
  have hmember : field.member.get middle = field.member.get b :=
    observe_iterateObject_upTo (fun J hJ before hget =>
      (hapart J I before field (Nat.ne_of_lt hJ) hget hfield).left) hfront
  refine ⟨I, field, middle, s₁, hfield, hvisited, hfront, ?_, { front := ?_, rest := ?_ }⟩
  · rw [field.member.get_set, ← hmember]
    exact herror
  · intro J hJ before hget
    exact (hapart J I before field (Nat.ne_of_lt hJ) hget hfield).right v middle
  · intro γ observe hkeeps
    rw [hkeeps I (Nat.le_refl I) field hfield]
    exact observe_iterateObject_upTo (fun J hJ => hkeeps J (Nat.le_of_lt hJ)) hfront

end BacsEnv.Bpacs
