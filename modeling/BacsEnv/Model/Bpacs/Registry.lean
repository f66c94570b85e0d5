import BacsEnv.Library.Member
import BacsEnv.Model.Text

/-!
# The fields that `bpacs` knows of a class

`BP_DEFINE_REFL_FIELD(Holder, Index, Name)` specialises `field_meta<Holder, Index>`, and with it
`get_field` and `get_const_field`. `field_iterator` goes through the specialisations from index
`0` on and ends at the first index that has none, whatever is registered behind it.
-/

set_option autoImplicit false

namespace BacsEnv.Bpacs

/-- `bpacs::field_meta<Holder, I>`: the texts, the type as `Ty` describes it, and the member that
`get_field` and `get_const_field` refer to. -/
structure FieldMeta (Ty : Type → Type 1) (Holder : Type) where
  holder : Text
  name : Text
  α : Type
  type : Ty α
  member : Member Holder α

/-- The specialisations of `field_meta` for a class, at their indices. -/
structure Registry (Ty : Type → Type 1) (Holder : Type) where
  specialisations : List (Option (FieldMeta Ty Holder))

variable {Ty : Type → Type 1} {Holder : Type}

/-- `field_meta<Holder, I>`, if it is specialised. -/
def Registry.fieldMeta (registry : Registry Ty Holder) (I : ℕ) : Option (FieldMeta Ty Holder) :=
  registry.specialisations[I]?.join

/-- `bpacs::has_bp_reflection<Holder>` -/
def Registry.hasBpReflection (registry : Registry Ty Holder) : Bool :=
  (registry.fieldMeta 0).isSome

/-- `field_iterator<Holder, N>::iterate`, with the specialisations from index `N` on: what it
calls its function with, in order. -/
def fieldIterator : List (Option (FieldMeta Ty Holder)) → List (FieldMeta Ty Holder)
  | some info :: rest => info :: fieldIterator rest
  | none :: _ => []
  | [] => []

/-- `bpacs::iterate_fields<Holder>` -/
def Registry.iterateFields (registry : Registry Ty Holder) : List (FieldMeta Ty Holder) :=
  fieldIterator registry.specialisations

/-- The two templates of `field_iterator`. -/
theorem fieldIterator_drop (registry : Registry Ty Holder) (N : ℕ) :
    fieldIterator (registry.specialisations.drop N) =
      match registry.fieldMeta N with
      | none => []
      | some info => info :: fieldIterator (registry.specialisations.drop (N + 1)) := by
  obtain ⟨metas⟩ := registry
  rw [Registry.fieldMeta]
  cases hget : metas[N]? with
  | none =>
      rw [List.drop_eq_nil_of_le (List.getElem?_eq_none_iff.mp hget)]
      rfl
  | some info =>
      obtain ⟨hlt, hinfo⟩ := List.getElem?_eq_some_iff.mp hget
      rw [List.drop_eq_getElem_cons hlt, hinfo]
      cases info <;> rfl

end BacsEnv.Bpacs
