import Mathlib.Data.List.Nodup
import Mathlib.Tactic.Common

/-!
# Objects that go with their last owner

Objects are made one after the other and numbered in that order, and each has owners. `Accounted`
says that the objects that are gone are the ones that were made and have no owner, each gone
once. Making an object keeps this (`Accounted.make`), and so does taking one owner from an
object that has some, when the object goes if that was the last one (`Accounted.release`).
-/

set_option autoImplicit false

namespace BacsEnv.LastOwner

/-- The objects that were made are either owned or gone, and gone only once. -/
structure Accounted (made : ℕ) (owned : ℕ → Prop) (gone : List ℕ) : Prop where
  gone_iff : ∀ a, a ∈ gone ↔ a < made ∧ ¬ owned a
  made_of_owned : ∀ a, owned a → a < made
  nodup : gone.Nodup

variable {made : ℕ} {owned owned' : ℕ → Prop} {gone : List ℕ}

theorem accounted_zero : Accounted 0 (fun _ => False) [] where
  gone_iff a := by simp
  made_of_owned a h := h.elim
  nodup := List.nodup_nil

theorem Accounted.congr (h : Accounted made owned gone) (hiff : ∀ a, owned' a ↔ owned a) :
    Accounted made owned' gone := by
  have heq : owned' = owned := funext fun a => propext (hiff a)
  rw [heq]
  exact h

/-- A new object has an owner. -/
theorem Accounted.make (h : Accounted made owned gone)
    (hiff : ∀ a, owned' a ↔ owned a ∨ a = made) : Accounted (made + 1) owned' gone where
  gone_iff a := by
    rw [h.gone_iff, hiff]
    constructor
    · rintro ⟨hlt, hnot⟩
      refine ⟨by omega, ?_⟩
      rintro (howned | heq)
      · exact hnot howned
      · omega
    · rintro ⟨hlt, hnot⟩
      have hne : a ≠ made := fun heq => hnot (Or.inr heq)
      exact ⟨by omega, fun howned => hnot (Or.inl howned)⟩
  made_of_owned a ha := by
    rcases (hiff a).mp ha with howned | heq
    · have hlt := h.made_of_owned a howned
      omega
    · omega
  nodup := h.nodup

/-- An object that loses an owner goes if it has no other. -/
theorem Accounted.release (h : Accounted made owned gone) {a : ℕ} (ha : owned a)
    (hothers : ∀ b, b ≠ a → (owned' b ↔ owned b)) [Decidable (owned' a)] :
    Accounted made owned' (if owned' a then gone else gone ++ [a]) := by
  have hlt := h.made_of_owned a ha
  have hnot : a ∉ gone := fun hgone => ((h.gone_iff a).mp hgone).2 ha
  by_cases hleft : owned' a
  · rw [if_pos hleft]
    apply h.congr
    intro b
    by_cases heq : b = a
    · rw [heq]
      exact iff_of_true hleft ha
    · exact hothers b heq
  · rw [if_neg hleft]
    constructor
    · intro b
      by_cases heq : b = a
      · rw [heq]
        exact iff_of_true (List.mem_append_right _ List.mem_cons_self) ⟨hlt, hleft⟩
      · rw [List.mem_append, List.mem_singleton, or_iff_left heq, h.gone_iff, hothers b heq]
    · intro b hb
      have hne : b ≠ a := by
        rintro rfl
        exact hleft hb
      exact h.made_of_owned b ((hothers b hne).mp hb)
    · rw [List.nodup_append]
      refine ⟨h.nodup, List.nodup_singleton a, ?_⟩
      intro b hb c hc heq
      rw [List.mem_singleton.mp hc] at heq
      rw [heq] at hb
      exact hnot hb

end BacsEnv.LastOwner
