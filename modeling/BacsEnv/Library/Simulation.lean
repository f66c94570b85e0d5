import Mathlib.Algebra.Order.BigOperators.Group.List
import Mathlib.Algebra.GroupWithZero.Nat
import BacsEnv.Library.Transition

/-!
# Simulation of one transition function by another

`Simulates C R` says that every step of a system under the condition `C` is answered by a
run of a specification, such that `R` relates the states before and after. Then every run
of the system is answered by a run of the specification (`Simulates.run`).

The second part counts steps: when each step costs something, and what is left to pay never
grows by more than a step contributes, a run costs no more than its start and its steps
provide (`run_cost_le`).
-/

set_option autoImplicit false

namespace BacsEnv.Transition

section Simulation

variable {σ ε τ κ : Type} {step : σ → ε → Option σ} {spec : τ → κ → Option τ}

/-- Every step under a condition is answered by a run of the specification. -/
def Simulates (step : σ → ε → Option σ) (spec : τ → κ → Option τ) (C : σ → ε → Prop)
    (R : σ → τ → Prop) : Prop :=
  ∀ s e s' t, R s t → C s e → step s e = some s' →
    ∃ actions t', run spec t actions = some t' ∧ R s' t'

variable {C : σ → ε → Prop} {R : σ → τ → Prop}

/-- Every run under the condition is answered by a run of the specification. -/
theorem Simulates.run (h : Simulates step spec C R) {s s' : σ} {t : τ} {es : List ε}
    (hrun : run step s es = some s') (hC : Meets step C s es) (hR : R s t) :
    ∃ actions t', Transition.run spec t actions = some t' ∧ R s' t' := by
  induction es generalizing s t with
  | nil =>
      obtain rfl : s = s' := Option.some.inj hrun
      exact ⟨[], t, rfl, hR⟩
  | cons e es ih =>
      obtain ⟨s₁, he, hrest⟩ := run_cons_eq_some.mp hrun
      obtain ⟨first, t₁, hfirst, hR₁⟩ := h s e s₁ t hR hC.1 he
      obtain ⟨later, t', hlater, hR'⟩ := ih hrest (hC.2 s₁ he) hR₁
      exact ⟨first ++ later, t', run_append_eq_some.mpr ⟨t₁, hfirst, hlater⟩, hR'⟩

end Simulation

section Cost

variable {σ ε : Type} {step : σ → ε → Option σ} {C : σ → ε → Prop} {I : σ → Prop}

/-- If no step costs more than it contributes and what it takes off a measure, then neither
does a run. -/
theorem run_cost_le {measure : σ → ℕ} {cost gain : ε → ℕ}
    (hstep : ∀ s e s', I s → C s e → step s e = some s' → I s')
    (hcost : ∀ s e s', I s → C s e → step s e = some s' →
      measure s' + cost e ≤ measure s + gain e)
    {s s' : σ} {es : List ε} (hrun : run step s es = some s') (hC : Meets step C s es)
    (hs : I s) : measure s' + (es.map cost).sum ≤ measure s + (es.map gain).sum := by
  induction es generalizing s with
  | nil =>
      obtain rfl : s = s' := Option.some.inj hrun
      exact le_refl _
  | cons e es ih =>
      obtain ⟨s₁, he, hrest⟩ := run_cons_eq_some.mp hrun
      have hfirst := hcost s e s₁ hs hC.1 he
      have hlater := ih hrest (hC.2 s₁ he) (hstep s e s₁ hs hC.1 he)
      rw [List.map_cons, List.map_cons, List.sum_cons, List.sum_cons]
      omega

end Cost

end BacsEnv.Transition
