import Mathlib.Data.List.Basic
import Mathlib.Tactic.Common

/-!
# Runs of a partial transition function

`step s e = some s'` says that the event `e` can happen in the state `s` and leads
to `s'`. A run is a list of events. `Meets C` says that every step of a run meets
the condition `C` on its state and event, `Always P` that every state the run goes
through satisfies `P`, and `After F P` that `P` holds of the rest of the run after each
event of `F`. `run_induction` carries an invariant through a run
whose steps meet a condition; `end_iff_meets` and `always_iff_meets` turn a step-wise
characterisation into one of whole runs.
-/

set_option autoImplicit false

namespace BacsEnv.Transition

variable {σ ε : Type} (step : σ → ε → Option σ)

/-- The state after a list of events, when all of them can happen. -/
def run : σ → List ε → Option σ
  | s, [] => some s
  | s, e :: es => (step s e).bind fun s' => run s' es

/-- Every step of the run meets a condition on its state and event. -/
def Meets (C : σ → ε → Prop) : σ → List ε → Prop
  | _, [] => True
  | s, e :: es => C s e ∧ ∀ s', step s e = some s' → Meets C s' es

/-- Every state of the run satisfies a property. -/
def Always (P : σ → Prop) : σ → List ε → Prop
  | s, [] => P s
  | s, e :: es => P s ∧ ∀ s', step s e = some s' → Always P s' es

/-- Whenever an event of the run is one of `F`, `P` holds of what follows it. -/
def After (F : ε → Prop) (P : σ → List ε → Prop) : σ → List ε → Prop
  | _, [] => True
  | s, e :: es => ∀ s', step s e = some s' → (F e → P s' es) ∧ After F P s' es

/-- From each step of the run that is one of `F` on, `R` relates the state before the step
to the state reached. -/
def Since (F : σ → ε → Prop) (R : σ → σ → Prop) : σ → List ε → Prop
  | _, [] => True
  | s, e :: es => ∀ s', step s e = some s' → (F s e → Always step (R s) s' es) ∧ Since F R s' es

variable {step}

theorem run_cons_eq_some {s s' : σ} {e : ε} {es : List ε} :
    run step s (e :: es) = some s' ↔ ∃ s₁, step s e = some s₁ ∧ run step s₁ es = some s' := by
  simp [run, Option.bind_eq_some_iff]

/-- A run in two parts. -/
theorem run_append_eq_some {s s' : σ} {es es' : List ε} :
    run step s (es ++ es') = some s' ↔
      ∃ s₁, run step s es = some s₁ ∧ run step s₁ es' = some s' := by
  induction es generalizing s with
  | nil => simp [run]
  | cons e es ih =>
      rw [List.cons_append, run_cons_eq_some]
      constructor
      · rintro ⟨s₁, hstep, hrest⟩
        obtain ⟨s₂, hes, hes'⟩ := ih.mp hrest
        exact ⟨s₂, run_cons_eq_some.mpr ⟨s₁, hstep, hes⟩, hes'⟩
      · rintro ⟨s₂, hes, hes'⟩
        obtain ⟨s₁, hstep, hes⟩ := run_cons_eq_some.mp hes
        exact ⟨s₁, hstep, ih.mpr ⟨s₂, hes, hes'⟩⟩

/-- A condition on a run in two parts is one on each part. -/
theorem meets_append {C : σ → ε → Prop} {s s₁ : σ} {es es' : List ε}
    (h : run step s es = some s₁) :
    Meets step C s (es ++ es') ↔ Meets step C s es ∧ Meets step C s₁ es' := by
  induction es generalizing s with
  | nil =>
      obtain rfl : s = s₁ := Option.some.inj h
      simp [Meets]
  | cons e es ih =>
      obtain ⟨s₂, hstep, hrest⟩ := run_cons_eq_some.mp h
      have hnext : ∀ {P : σ → Prop}, (∀ s', step s e = some s' → P s') ↔ P s₂ := by
        intro P
        constructor
        · intro hall
          exact hall s₂ hstep
        · intro hP s' hs'
          obtain rfl : s₂ = s' := Option.some.inj (hstep.symm.trans hs')
          exact hP
      simp only [List.cons_append, Meets, hnext, ih hrest, and_assoc]

/-- An invariant that every step under the condition preserves holds after the run. -/
theorem run_induction {C : σ → ε → Prop} {I : σ → Prop}
    (hstep : ∀ s e s', I s → C s e → step s e = some s' → I s') {s s' : σ} {es : List ε}
    (hrun : run step s es = some s') (hC : Meets step C s es) (hs : I s) : I s' := by
  induction es generalizing s with
  | nil =>
      obtain rfl : s = s' := Option.some.inj hrun
      exact hs
  | cons e es ih =>
      obtain ⟨s₁, he, hrest⟩ := run_cons_eq_some.mp hrun
      exact ih hrest (hC.2 s₁ he) (hstep s e s₁ hs hC.1 he)

/-- What holds all along holds at the start. -/
theorem Always.head {P : σ → Prop} {s : σ} {es : List ε} (h : Always step P s es) : P s := by
  cases es with
  | nil => exact h
  | cons e es => exact h.1

/-- What follows from an invariant holds all along. -/
theorem always_of_inv {J P : σ → Prop} (hkeep : ∀ s e s', J s → step s e = some s' → J s')
    (hP : ∀ s, J s → P s) {s : σ} {es : List ε} (hs : J s) : Always step P s es := by
  induction es generalizing s with
  | nil => exact hP s hs
  | cons e es ih =>
      refine ⟨hP s hs, ?_⟩
      intro s' he
      exact ih (hkeep s e s' hs he)

/-- A condition that follows from another one is met with it. -/
theorem meets_mono {C C' : σ → ε → Prop} (hCC' : ∀ s e, C s e → C' s e) {s : σ} {es : List ε}
    (h : Meets step C s es) : Meets step C' s es := by
  induction es generalizing s with
  | nil => trivial
  | cons e es ih =>
      refine ⟨hCC' s e h.1, ?_⟩
      intro s' he
      exact ih (h.2 s' he)

/-- What every step meets is met along every run. -/
theorem meets_of_forall {C : σ → ε → Prop} (hC : ∀ s e, C s e) (s : σ) (es : List ε) :
    Meets step C s es := by
  induction es generalizing s with
  | nil => trivial
  | cons e es ih => exact ⟨hC s e, fun s' _ => ih s'⟩

/-- A condition on the events of a run alone. -/
theorem meets_of_forall_mem {P : ε → Prop} {es : List ε} (h : ∀ e ∈ es, P e) (s : σ) :
    Meets step (fun _ e => P e) s es := by
  induction es generalizing s with
  | nil => trivial
  | cons e es ih =>
      obtain ⟨he, hes⟩ := List.forall_mem_cons.mp h
      exact ⟨he, fun s' _ => ih hes s'⟩

/-- An invariant that every step preserves holds after the run. -/
theorem run_inv {I : σ → Prop} (hstep : ∀ s e s', I s → step s e = some s' → I s') {s s' : σ}
    {es : List ε} (hrun : run step s es = some s') (hs : I s) : I s' :=
  run_induction (fun s e s' h _ he => hstep s e s' h he) hrun
    (meets_of_forall (fun _ _ => trivial) s es) hs

/-- Two conditions are met together. -/
theorem meets_and {C C' : σ → ε → Prop} {s : σ} {es : List ε} (h : Meets step C s es)
    (h' : Meets step C' s es) : Meets step (fun s e => C s e ∧ C' s e) s es := by
  induction es generalizing s with
  | nil => trivial
  | cons e es ih =>
      refine ⟨⟨h.1, h'.1⟩, ?_⟩
      intro s₁ he
      exact ih (h.2 s₁ he) (h'.2 s₁ he)

/-- A property that a step cannot bring about held all along, if it holds at the end. -/
theorem meets_of_end {Q : σ → Prop} (hback : ∀ s e s', step s e = some s' → Q s' → Q s)
    {s s' : σ} {es : List ε} (hrun : run step s es = some s') (hend : Q s') :
    Q s ∧ Meets step (fun s e => ∀ s', step s e = some s' → Q s') s es := by
  induction es generalizing s with
  | nil =>
      obtain rfl : s = s' := Option.some.inj hrun
      exact ⟨hend, trivial⟩
  | cons e es ih =>
      obtain ⟨s₁, he, hrest⟩ := run_cons_eq_some.mp hrun
      obtain ⟨hQ, hlater⟩ := ih hrest
      have hnext : ∀ s', step s e = some s' → s' = s₁ := by
        intro s' hs'
        exact Option.some.inj (hs'.symm.trans he)
      refine ⟨hback s e s₁ he hQ, ?_, ?_⟩
      · intro s' hs'
        rw [hnext s' hs']
        exact hQ
      · intro s' hs'
        rw [hnext s' hs']
        exact hlater

section Characterisation

variable {C D : σ → ε → Prop} {I P : σ → Prop}

/-- If a step under the invariant leads to a state with `P` exactly from one with `P`
and by meeting `D`, then so does a run. -/
theorem end_iff_meets
    (hstep : ∀ s e s', I s → C s e → step s e = some s' → I s')
    (hD : ∀ s e s', I s → C s e → step s e = some s' → (P s' ↔ P s ∧ D s e))
    {s s' : σ} {es : List ε} (hrun : run step s es = some s') (hC : Meets step C s es)
    (hs : I s) : P s' ↔ P s ∧ Meets step D s es := by
  induction es generalizing s with
  | nil =>
      obtain rfl : s = s' := Option.some.inj hrun
      simp [Meets]
  | cons e es ih =>
      obtain ⟨s₁, he, hrest⟩ := run_cons_eq_some.mp hrun
      have hend := ih hrest (hC.2 s₁ he) (hstep s e s₁ hs hC.1 he)
      have hfirst := hD s e s₁ hs hC.1 he
      simp only [Meets, he, Option.some.injEq, forall_eq']
      rw [hend, hfirst, and_assoc]

/-- Under the same conditions `P` holds all along a run exactly when it holds at the
start and every step meets `D`. -/
theorem always_iff_meets
    (hstep : ∀ s e s', I s → C s e → step s e = some s' → I s')
    (hD : ∀ s e s', I s → C s e → step s e = some s' → (P s' ↔ P s ∧ D s e))
    {s s' : σ} {es : List ε} (hrun : run step s es = some s') (hC : Meets step C s es)
    (hs : I s) : Always step P s es ↔ P s ∧ Meets step D s es := by
  induction es generalizing s with
  | nil => simp [Always, Meets]
  | cons e es ih =>
      obtain ⟨s₁, he, hrest⟩ := run_cons_eq_some.mp hrun
      have hlater := ih hrest (hC.2 s₁ he) (hstep s e s₁ hs hC.1 he)
      have hfirst := hD s e s₁ hs hC.1 he
      simp only [Always, Meets, he, Option.some.injEq, forall_eq', hlater]
      constructor
      · rintro ⟨hP, hP₁, hD₁⟩
        exact ⟨hP, (hfirst.mp hP₁).2, hD₁⟩
      · rintro ⟨hP, hDe, hD₁⟩
        exact ⟨hP, hfirst.mpr ⟨hP, hDe⟩, hD₁⟩

/-- If a step of `F` keeps `R` at once only by meeting `D`, and one that meets `D` leads to
where `R` is kept, then `R` is kept since each step of `F` exactly when these all meet `D`. -/
theorem since_iff_meets {F : σ → ε → Prop} {R J : σ → σ → Prop}
    (hstep : ∀ s e s', I s → step s e = some s' → I s')
    (hD : ∀ s e s', I s → F s e → step s e = some s' → R s s' → D s e)
    (hJ : ∀ s e s', I s → F s e → step s e = some s' → D s e → J s s')
    (hkeep : ∀ s₀ s e s', J s₀ s → step s e = some s' → J s₀ s')
    (hR : ∀ s₀ s, J s₀ s → R s₀ s) {s s' : σ} {es : List ε}
    (hrun : run step s es = some s') (hs : I s) :
    Since step F R s es ↔ Meets step (fun s e => F s e → D s e) s es := by
  induction es generalizing s with
  | nil => exact Iff.rfl
  | cons e es ih =>
      obtain ⟨s₁, he, hrest⟩ := run_cons_eq_some.mp hrun
      have hlater := ih hrest (hstep s e s₁ hs he)
      simp only [Since, Meets, he, Option.some.injEq, forall_eq', hlater]
      refine and_congr_left fun _ => ?_
      constructor
      · intro hall hF
        exact hD s e s₁ hs hF he (hall hF).head
      · intro hfirst hF
        exact always_of_inv (hkeep s) (hR s) (hJ s e s₁ hs hF he (hfirst hF))

end Characterisation

end BacsEnv.Transition
