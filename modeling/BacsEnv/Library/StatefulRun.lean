import Mathlib.Data.List.Basic
import Mathlib.Tactic.Common

/-!
# Runs of stateful computations that may fail

Inversion rules for `EStateM`: what is known when a composed computation
returned (`bind_ok_iff`), and the loop `repeatAppend`, which runs one
computation a fixed number of times and hands each result to an accumulator.
`repeatAppend_ok_iff` says once what such a loop did when it returned: it went
through a `Chain` of single runs and folded their results.
-/

set_option autoImplicit false

namespace BacsEnv.StatefulRun

variable {ε σ α β γ : Type}

/-- A composition returns exactly when its two parts do, one after the other. -/
theorem bind_ok_iff {x : EStateM ε σ α} {f : α → EStateM ε σ β} {s s' : σ} {b : β} :
    (x >>= f) s = .ok b s' ↔ ∃ a s₁, x s = .ok a s₁ ∧ f a s₁ = .ok b s' := by
  change EStateM.bind x f s = .ok b s' ↔ _
  unfold EStateM.bind
  cases x s <;> simp

/-- After a part that returned, a composition goes on with the rest. -/
theorem bind_of_ok {x : EStateM ε σ α} {s s₁ : σ} {a : α} (h : x s = .ok a s₁)
    (f : α → EStateM ε σ β) : (x >>= f) s = f a s₁ := by
  change EStateM.bind x f s = _
  simp [EStateM.bind, h]

/-- After a part that failed, a composition fails in the same way. -/
theorem bind_of_error {x : EStateM ε σ α} {s s₁ : σ} {e : ε} (h : x s = .error e s₁)
    (f : α → EStateM ε σ β) : (x >>= f) s = .error e s₁ := by
  change EStateM.bind x f s = _
  simp [EStateM.bind, h]

/-- A pure result leaves the state alone. -/
@[simp] theorem pure_apply (a : α) (s : σ) : (pure a : EStateM ε σ α) s = .ok a s := rfl

/-- A raised error leaves the state alone. -/
@[simp] theorem throw_apply (e : ε) (s : σ) :
    (throw e : EStateM ε σ α) s = .error e s := rfl

/-- What returned goes past the handler of a `tryCatch`. -/
theorem tryCatch_of_ok {x : EStateM ε σ α} {s s' : σ} {a : α} (h : x s = .ok a s')
    (f : ε → EStateM ε σ α) : tryCatch x f s = .ok a s' := by
  change EStateM.tryCatch x f s = _
  simp [EStateM.tryCatch, h]

/-- What failed goes to the handler of a `tryCatch`, in the state where it failed. -/
theorem tryCatch_of_error {x : EStateM ε σ α} {s s' : σ} {e : ε} (h : x s = .error e s')
    (f : ε → EStateM ε σ α) : tryCatch x f s = f e s' := by
  change EStateM.tryCatch x f s = _
  simp [EStateM.tryCatch, h, EStateM.Backtrackable.restore, EStateM.dummyRestore]

/-- A list of results, each obtained from the state the one before it left. -/
inductive Chain (R : σ → α → σ → Prop) : σ → List α → σ → Prop
  | nil (s : σ) : Chain R s [] s
  | cons {s s₁ s₂ : σ} {a : α} {as : List α} :
      R s a s₁ → Chain R s₁ as s₂ → Chain R s (a :: as) s₂

/-- A chain of one relation is a chain of any weaker one. -/
theorem Chain.mono {R S : σ → α → σ → Prop} (hRS : ∀ s a s', R s a s' → S s a s')
    {s s' : σ} {as : List α} (h : Chain R s as s') : Chain S s as s' := by
  induction h with
  | nil s => exact .nil s
  | cons hR _ ih => exact .cons (hRS _ _ _ hR) ih

/-- A property of results that every link guarantees holds of every result. -/
theorem Chain.forall_mem {R : σ → α → σ → Prop} {P : α → Prop}
    (hP : ∀ s a s', R s a s' → P a) {s s' : σ} {as : List α}
    (h : Chain R s as s') : ∀ a ∈ as, P a := by
  induction h with
  | nil s => simp
  | cons hR _ ih =>
      intro a ha
      rcases List.mem_cons.mp ha with rfl | ha
      · exact hP _ _ _ hR
      · exact ih a ha

/-- A chain whose results are images of what a chain of another relation yields. -/
theorem chain_iff_exists_map {R : σ → α → σ → Prop} {S : σ → β → σ → Prop} {P : β → Prop}
    {f : β → α} (hR : ∀ s a s', R s a s' ↔ ∃ b, S s b s' ∧ P b ∧ a = f b) {s s' : σ}
    {as : List α} :
    Chain R s as s' ↔ ∃ bs, Chain S s bs s' ∧ (∀ b ∈ bs, P b) ∧ as = bs.map f := by
  constructor
  · intro h
    induction h with
    | nil s => exact ⟨[], .nil s, by simp, rfl⟩
    | cons ha _ ih =>
        obtain ⟨b, hb, hPb, rfl⟩ := (hR _ _ _).mp ha
        obtain ⟨bs, hbs, hPbs, rfl⟩ := ih
        exact ⟨b :: bs, .cons hb hbs, List.forall_mem_cons.mpr ⟨hPb, hPbs⟩, rfl⟩
  · rintro ⟨bs, hbs, hPbs, rfl⟩
    induction hbs with
    | nil s => exact .nil s
    | cons hb _ ih =>
        obtain ⟨hPb, hPbs⟩ := List.forall_mem_cons.mp hPbs
        exact .cons ((hR _ _ _).mpr ⟨_, hb, hPb, rfl⟩) (ih hPbs)

/-- A chain of a relation that determines its results has one list of results of each length. -/
theorem Chain.unique {R : σ → α → σ → Prop}
    (hR : ∀ s a b s₁ s₂, R s a s₁ → R s b s₂ → a = b ∧ s₁ = s₂) {s s₁ s₂ : σ} {as bs : List α}
    (ha : Chain R s as s₁) (hb : Chain R s bs s₂) (hlen : as.length = bs.length) :
    as = bs ∧ s₁ = s₂ := by
  induction ha generalizing bs with
  | nil s =>
      cases hb with
      | nil => exact ⟨rfl, rfl⟩
      | cons => simp at hlen
  | cons hx _ ih =>
      cases hb with
      | nil => simp at hlen
      | cons hy hys =>
          obtain ⟨rfl, rfl⟩ := hR _ _ _ _ _ hx hy
          obtain ⟨rfl, rfl⟩ := ih hys (by simpa using hlen)
          exact ⟨rfl, rfl⟩

/-- Run `step` `n` times and append each result to the accumulator. -/
def repeatAppend (step : EStateM ε σ α) (append : γ → α → γ) : ℕ → γ → EStateM ε σ γ
  | 0, c => pure c
  | n + 1, c => do
      let a ← step
      repeatAppend step append n (append c a)

/-- What a counted loop did when it returned: `n` chained runs of its body,
their results folded into the accumulator in order. -/
theorem repeatAppend_ok_iff {step : EStateM ε σ α} {append : γ → α → γ} {n : ℕ} {c c' : γ}
    {s s' : σ} :
    repeatAppend step append n c s = .ok c' s' ↔
      ∃ as : List α, as.length = n ∧
        Chain (fun s a s₁ => step s = .ok a s₁) s as s' ∧ c' = as.foldl append c := by
  induction n generalizing c s with
  | zero =>
      constructor
      · intro h
        simp only [repeatAppend, pure_apply, EStateM.Result.ok.injEq] at h
        obtain ⟨rfl, rfl⟩ := h
        exact ⟨[], rfl, .nil s, rfl⟩
      · rintro ⟨as, hlen, hchain, rfl⟩
        obtain rfl := List.length_eq_zero_iff.mp hlen
        cases hchain
        rfl
  | succ n ih =>
      rw [repeatAppend, bind_ok_iff]
      constructor
      · rintro ⟨a, s₁, hstep, hrest⟩
        obtain ⟨as, hlen, hchain, hc⟩ := ih.mp hrest
        exact ⟨a :: as, by simp [hlen], .cons hstep hchain, hc⟩
      · rintro ⟨as, hlen, hchain, hc⟩
        cases hchain with
        | nil => simp at hlen
        | cons hstep hchain =>
            exact ⟨_, _, hstep, ih.mpr ⟨_, by simpa using hlen, hchain, hc⟩⟩

end BacsEnv.StatefulRun
