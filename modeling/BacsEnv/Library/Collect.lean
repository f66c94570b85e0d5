import Mathlib.Data.List.Forall2
import Mathlib.Tactic.Common

/-!
# Loops that compute a value for each item and put it away

`collect compute store` goes through some items, computes a value for each of them from
the state and the item, and stores it. The first computation that throws ends it. When a
value that was stored does not change what is computed for the items behind it, the loop
succeeds exactly when every computation does in the first state, and all that it does to
the state is to store the values in order; otherwise it throws what the first computation
that throws does.
-/

set_option autoImplicit false

namespace BacsEnv.Collect

variable {ε α β σ : Type}

/-- The loop `for (item : items) state = store(state, item, compute(state, item))`. -/
def collect (compute : σ → β → Except ε α) (store : σ → β → α → σ) (items : List β)
    (state : σ) : Except ε σ :=
  items.foldlM (fun s item => do
    let value ← compute s item
    pure (store s item value)) state

/-- The state after the values of some items have been stored. -/
def storeAll (store : σ → β → α → σ) : List β → List α → σ → σ
  | item :: items, value :: values, s => storeAll store items values (store s item value)
  | _, _, s => s

/-- No stored value changes what is computed for a later item. -/
def Independent (compute : σ → β → Except ε α) (store : σ → β → α → σ) (items : List β) : Prop :=
  items.Pairwise fun earlier later =>
    ∀ s value, compute (store s earlier value) later = compute s later

/-- Computations that do not look at the state are independent. -/
theorem independent_of_const (compute : β → Except ε α) (store : σ → β → α → σ)
    (items : List β) : Independent (fun _ => compute) store items :=
  List.pairwise_of_forall fun _ _ _ _ => rfl

theorem bind_eq_ok_iff {γ : Type} {x : Except ε α} {f : α → Except ε γ} {c : γ} :
    x >>= f = .ok c ↔ ∃ a, x = .ok a ∧ f a = .ok c := by
  cases x with
  | error e =>
      constructor
      · intro h
        cases h
      · rintro ⟨a, ha, -⟩
        cases ha
  | ok a =>
      constructor
      · intro h
        exact ⟨a, rfl, h⟩
      · rintro ⟨a', ha, h⟩
        cases ha
        exact h

theorem forall₂_congr_of_mem {R S : β → α → Prop} {items : List β}
    (h : ∀ item ∈ items, ∀ value, R item value ↔ S item value) (values : List α) :
    List.Forall₂ R items values ↔ List.Forall₂ S items values := by
  induction items generalizing values with
  | nil => simp
  | cons item items ih =>
      have hfirst := h item List.mem_cons_self
      have hrest := ih fun i hi => h i (List.mem_cons_of_mem _ hi)
      simp only [List.forall₂_cons_left_iff, hfirst, hrest]

/-- What a loop over independent computations does. -/
theorem collect_eq_ok_iff {compute : σ → β → Except ε α} {store : σ → β → α → σ}
    {items : List β} (hindep : Independent compute store items) {s s' : σ} :
    collect compute store items s = .ok s' ↔
      ∃ values, List.Forall₂ (fun item value => compute s item = .ok value) items values ∧
        s' = storeAll store items values s := by
  induction items generalizing s with
  | nil =>
      constructor
      · intro h
        exact ⟨[], .nil, (Except.ok.inj h).symm⟩
      · rintro ⟨values, hvalues, rfl⟩
        cases hvalues
        rfl
  | cons item items ih =>
      obtain ⟨hfirst, hrest⟩ := List.pairwise_cons.mp hindep
      have hsame : ∀ value values,
          List.Forall₂ (fun later y => compute (store s item value) later = .ok y) items values ↔
            List.Forall₂ (fun later y => compute s later = .ok y) items values := by
        intro value values
        refine forall₂_congr_of_mem ?_ values
        intro later hlater y
        rw [hfirst later hlater s value]
      unfold collect at ih ⊢
      rw [List.foldlM_cons]
      simp only [bind_assoc, pure_bind, bind_eq_ok_iff, ih hrest, hsame]
      constructor
      · rintro ⟨value, hvalue, values, hvalues, rfl⟩
        exact ⟨value :: values, .cons hvalue hvalues, rfl⟩
      · rintro ⟨values, hvalues, rfl⟩
        cases hvalues with
        | cons hvalue hvalues => exact ⟨_, hvalue, _, hvalues, rfl⟩

/-- Such a loop throws what the first computation that throws does. -/
theorem collect_eq_error_iff {compute : σ → β → Except ε α} {store : σ → β → α → σ}
    {items : List β} (hindep : Independent compute store items) {s : σ} {e : ε} :
    collect compute store items s = .error e ↔
      ∃ before item after, items = before ++ item :: after ∧
        (∀ earlier ∈ before, ∃ value, compute s earlier = .ok value) ∧
        compute s item = .error e := by
  induction items generalizing s with
  | nil =>
      constructor
      · intro h
        cases h
      · rintro ⟨before, item, after, hitems, -⟩
        cases before <;> cases hitems
  | cons first items ih =>
      obtain ⟨hfirst, hrest⟩ := List.pairwise_cons.mp hindep
      unfold collect at ih ⊢
      rw [List.foldlM_cons]
      cases hrun : compute s first with
      | error e' =>
          constructor
          · intro h
            cases h
            exact ⟨[], first, items, rfl, nofun, hrun⟩
          · rintro ⟨before, item, after, hitems, hbefore, herror⟩
            cases before with
            | nil =>
                cases hitems
                rw [hrun] at herror
                cases herror
                rfl
            | cons earlier before =>
                cases hitems
                obtain ⟨value, hvalue⟩ := hbefore first List.mem_cons_self
                rw [hrun] at hvalue
                cases hvalue
      | ok value =>
          -- The computations behind the first do not see that its value was stored.
          have hsame : ∀ later ∈ items, compute (store s first value) later = compute s later :=
            fun later hlater => hfirst later hlater s value
          refine (ih hrest (s := store s first value)).trans ?_
          constructor
          · rintro ⟨before, item, after, rfl, hbefore, herror⟩
            refine ⟨first :: before, item, after, rfl, ?_, ?_⟩
            · intro earlier hearlier
              rcases List.mem_cons.mp hearlier with rfl | hearlier
              · exact ⟨value, hrun⟩
              · rw [← hsame earlier (List.mem_append_left _ hearlier)]
                exact hbefore earlier hearlier
            · rw [← hsame item (List.mem_append_right _ List.mem_cons_self)]
              exact herror
          · rintro ⟨before, item, after, hitems, hbefore, herror⟩
            cases before with
            | nil =>
                cases hitems
                rw [hrun] at herror
                cases herror
            | cons earlier before =>
                cases hitems
                refine ⟨before, item, after, rfl, ?_, ?_⟩
                · intro later hlater
                  rw [hsame later (List.mem_append_left _ hlater)]
                  exact hbefore later (List.mem_cons_of_mem _ hlater)
                · rw [hsame item (List.mem_append_right _ List.mem_cons_self)]
                  exact herror

/-- There is a first one among the items with a property. -/
theorem exists_first {p : β → Prop} {items : List β} (h : ∃ item ∈ items, p item) :
    ∃ before item after, items = before ++ item :: after ∧
      (∀ earlier ∈ before, ¬ p earlier) ∧ p item := by
  induction items with
  | nil =>
      obtain ⟨item, hmem, -⟩ := h
      cases hmem
  | cons first items ih =>
      by_cases hfirst : p first
      · exact ⟨[], first, items, rfl, nofun, hfirst⟩
      · obtain ⟨item, hmem, hitem⟩ := h
        have hlater : ∃ item ∈ items, p item := by
          rcases List.mem_cons.mp hmem with rfl | hmem
          · exact absurd hitem hfirst
          · exact ⟨item, hmem, hitem⟩
        obtain ⟨before, item, after, rfl, hbefore, hitem⟩ := ih hlater
        exact ⟨first :: before, item, after, rfl, List.forall_mem_cons.mpr ⟨hfirst, hbefore⟩,
          hitem⟩

/-- Storing values that depend on nothing but themselves is a fold over them. -/
theorem storeAll_eq_foldl (store : σ → α → σ) {items : List β} {values : List α}
    (h : items.length = values.length) (s : σ) :
    storeAll (fun s _ value => store s value) items values s = values.foldl store s := by
  induction values generalizing items s with
  | nil => cases items <;> rfl
  | cons value values ih =>
      cases items with
      | nil => cases h
      | cons item items => exact ih (Nat.succ.inj h) _

end BacsEnv.Collect
