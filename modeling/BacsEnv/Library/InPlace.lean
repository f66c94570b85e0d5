import BacsEnv.Library.Collect
import BacsEnv.Library.ErrorPath

/-!
# Computations that change an object in place

The state of such a computation is an object and whatever else it works on. `beside` runs a
computation that does not see the object, `update` changes it, and `through` works on a part of
it (`inTurn` on the two parts of a pair). When the computation throws, the object is left as it
is by then.

`settle` forgets that: it is the computation that returns the object at the end, and has none
when it throws. The rules `settle_bind_beside`, `settle_bind`, `settle_through` and so on turn
one into the other, and the rules `beside_error_iff`, `through_error_iff`,
`repeatInto_error_iff` and `forM_error_iff` say what an exception has left.
-/

set_option autoImplicit false

namespace BacsEnv.InPlace

open StatefulRun ErrorPath Collect

variable {ε σ τ α β γ : Type}

/-- A computation on an object of type `τ`, with a further state. -/
abbrev Into (ε σ τ : Type) : Type → Type := EStateM ε (τ × σ)

/-- A computation that does not see the object. -/
def beside (m : EStateM ε σ α) : Into ε σ τ α := fun s =>
  match m s.2 with
  | .ok a s' => .ok a (s.1, s')
  | .error e s' => .error e (s.1, s')

/-- Change the object. -/
def update (f : τ → τ) : Into ε σ τ Unit := fun s => .ok () (f s.1, s.2)

/-- Work on what `enter` makes of the object, and put what has become of it back. -/
def through (enter : τ → γ) (leave : γ → τ → τ) (x : Into ε σ γ α) : Into ε σ τ α := fun s =>
  match x (enter s.1, s.2) with
  | .ok a (c, s') => .ok a (leave c s.1, s')
  | .error e (c, s') => .error e (leave c s.1, s')

/-- Work on the first part of a pair, then on the second. -/
def inTurn (x : Into ε σ α Unit) (y : Into ε σ β Unit) : Into ε σ (α × β) Unit := do
  through Prod.fst (fun v t => (v, t.2)) x
  through Prod.snd (fun w t => (t.1, w)) y

/-- Run `step` `n` times beside the object and append each result to it. -/
def repeatInto (step : EStateM ε σ α) (append : τ → α → τ) : ℕ → Into ε σ τ Unit
  | 0 => pure ()
  | n + 1 => do
      let a ← beside step
      update fun t => append t a
      repeatInto step append n

/-- The computation that returns the object. -/
def settle (x : Into ε σ τ Unit) (t : τ) : EStateM ε σ τ := fun s =>
  match x (t, s) with
  | .ok _ (t', s') => .ok t' s'
  | .error e (_, s') => .error e s'

/-- A computation without a state. -/
def lift (r : Except ε α) : EStateM ε σ α := fun s =>
  match r with
  | .ok a => .ok a s
  | .error e => .error e s

/-! ## Computations without a state -/

theorem lift_ok_iff {r : Except ε α} {a : α} {s s' : σ} :
    lift r s = .ok a s' ↔ r = .ok a ∧ s' = s := by
  unfold lift
  cases r <;> simp [eq_comm]

theorem lift_error_iff {r : Except ε α} {e : ε} {s s' : σ} :
    lift r s = .error e s' ↔ r = .error e ∧ s' = s := by
  unfold lift
  cases r <;> simp [eq_comm]

theorem lift_pure (a : α) : (lift (pure a) : EStateM ε σ α) = pure a := rfl

theorem lift_bind (r : Except ε α) (f : α → Except ε β) :
    (lift (r >>= f) : EStateM ε σ β) = lift r >>= fun a => lift (f a) := by
  cases r <;> rfl

theorem lift_foldlM {ι : Type*} (f : α → ι → Except ε α) (as : List ι) (a : α) :
    (lift (as.foldlM f a) : EStateM ε σ α) = as.foldlM (fun a i => lift (f a i)) a := by
  induction as generalizing a with
  | nil => rfl
  | cons i as ih =>
      rw [List.foldlM_cons, List.foldlM_cons, lift_bind]
      simp only [ih]

theorem beside_lift_ok_bind (a : α) (f : α → Into ε σ τ β) :
    (beside (lift (.ok a)) >>= f) = f a := rfl

/-! ## The object at the end -/

theorem settle_ok_iff {x : Into ε σ τ Unit} {t t' : τ} {s s' : σ} :
    settle x t s = .ok t' s' ↔ x (t, s) = .ok () (t', s') := by
  unfold settle
  cases x (t, s) with
  | ok u s₁ => simp [Prod.ext_iff]
  | error e s₁ => simp

theorem settle_error_iff {x : Into ε σ τ Unit} {t : τ} {s s' : σ} {e : ε} :
    settle x t s = .error e s' ↔ ∃ left, x (t, s) = .error e (left, s') := by
  unfold settle
  cases x (t, s) with
  | ok u s₁ => simp
  | error e' s₁ =>
      simp only [EStateM.Result.error.injEq, Prod.ext_iff]
      constructor
      · rintro ⟨rfl, rfl⟩
        exact ⟨s₁.1, rfl, rfl, rfl⟩
      · rintro ⟨left, rfl, -, rfl⟩
        exact ⟨rfl, rfl⟩

theorem settle_pure (t : τ) : settle (pure () : Into ε σ τ Unit) t = pure t := rfl

theorem settle_update (f : τ → τ) (t : τ) : settle (update f : Into ε σ τ Unit) t = pure (f t) :=
  rfl

theorem settle_bind_beside (m : EStateM ε σ α) (f : α → Into ε σ τ Unit) (t : τ) :
    settle (beside m >>= f) t = m >>= fun a => settle (f a) t := by
  funext s
  show settle (EStateM.bind (beside m) f) t s = EStateM.bind m _ s
  unfold settle EStateM.bind beside
  cases m s <;> rfl

theorem settle_bind (x : Into ε σ τ Unit) (f : Unit → Into ε σ τ Unit) (t : τ) :
    settle (x >>= f) t = settle x t >>= fun t' => settle (f ()) t' := by
  funext s
  show settle (EStateM.bind x f) t s = EStateM.bind (settle x t) _ s
  unfold settle EStateM.bind
  cases hx : x (t, s) <;> simp only [hx]

theorem settle_through (enter : τ → γ) (leave : γ → τ → τ) (x : Into ε σ γ Unit) (t : τ) :
    settle (through enter leave x) t = settle x (enter t) >>= fun c => pure (leave c t) := by
  funext s
  show _ = EStateM.bind (settle x (enter t)) _ s
  unfold settle EStateM.bind through
  cases hx : x (enter t, s) with
  | ok u s₁ =>
      simp only [hx]
      rfl
  | error e s₁ => simp only [hx]

theorem settle_inTurn (x : Into ε σ α Unit) (y : Into ε σ β Unit) (t : α × β) :
    settle (inTurn x y) t = settle x t.1 >>= fun v => settle y t.2 >>= fun w => pure (v, w) := by
  rw [inTurn, settle_bind, settle_through]
  simp only [settle_through, bind_assoc, pure_bind]

theorem settle_repeatInto (step : EStateM ε σ α) (append : τ → α → τ) (n : ℕ) (t : τ) :
    settle (repeatInto step append n) t = repeatAppend step append n t := by
  induction n generalizing t with
  | zero => rfl
  | succ n ih =>
      rw [repeatInto, repeatAppend, settle_bind_beside]
      congr 1
      funext a
      rw [settle_bind, settle_update]
      exact ih (append t a)

theorem settle_forM {ι : Type*} (f : ι → Into ε σ τ Unit) (as : List ι) (t : τ) :
    settle (forM as f) t = as.foldlM (fun t a => settle (f a) t) t := by
  induction as generalizing t with
  | nil => rfl
  | cons a as ih =>
      rw [List.forM_cons, List.foldlM_cons, settle_bind]
      simp only [ih]

/-! ## What an exception leaves -/

theorem beside_ok_iff {m : EStateM ε σ α} {a : α} {s s' : τ × σ} :
    beside m s = .ok a s' ↔ m s.2 = .ok a s'.2 ∧ s'.1 = s.1 := by
  unfold beside
  cases m s.2 with
  | ok b s₁ =>
      simp only [EStateM.Result.ok.injEq, Prod.ext_iff]
      constructor
      · rintro ⟨rfl, hobject, rfl⟩
        exact ⟨⟨rfl, rfl⟩, hobject.symm⟩
      · rintro ⟨⟨rfl, rfl⟩, hobject⟩
        exact ⟨rfl, hobject.symm, rfl⟩
  | error e s₁ => simp

/-- What does not see the object leaves it alone. -/
theorem beside_error_iff {m : EStateM ε σ α} {e : ε} {s s' : τ × σ} :
    beside m s = .error e s' ↔ m s.2 = .error e s'.2 ∧ s'.1 = s.1 := by
  unfold beside
  cases m s.2 with
  | ok b s₁ => simp
  | error e' s₁ =>
      simp only [EStateM.Result.error.injEq, Prod.ext_iff]
      constructor
      · rintro ⟨rfl, hobject, rfl⟩
        exact ⟨⟨rfl, rfl⟩, hobject.symm⟩
      · rintro ⟨⟨rfl, rfl⟩, hobject⟩
        exact ⟨rfl, hobject.symm, rfl⟩

theorem through_ok_iff {enter : τ → γ} {leave : γ → τ → τ} {x : Into ε σ γ α} {a : α}
    {s s' : τ × σ} :
    through enter leave x s = .ok a s' ↔
      ∃ c, x (enter s.1, s.2) = .ok a (c, s'.2) ∧ s'.1 = leave c s.1 := by
  unfold through
  cases x (enter s.1, s.2) with
  | ok b s₁ =>
      simp only [EStateM.Result.ok.injEq, Prod.ext_iff]
      constructor
      · rintro ⟨rfl, hobject, hs⟩
        exact ⟨s₁.1, ⟨rfl, rfl, hs⟩, hobject.symm⟩
      · rintro ⟨c, ⟨rfl, rfl, hs⟩, hobject⟩
        exact ⟨rfl, hobject.symm, hs⟩
  | error e s₁ => simp

/-- What works on a part leaves what has become of the part. -/
theorem through_error_iff {enter : τ → γ} {leave : γ → τ → τ} {x : Into ε σ γ α} {e : ε}
    {s s' : τ × σ} :
    through enter leave x s = .error e s' ↔
      ∃ c, x (enter s.1, s.2) = .error e (c, s'.2) ∧ s'.1 = leave c s.1 := by
  unfold through
  cases x (enter s.1, s.2) with
  | ok a s₁ => simp
  | error e' s₁ =>
      simp only [EStateM.Result.error.injEq, Prod.ext_iff]
      constructor
      · rintro ⟨rfl, hobject, hs⟩
        exact ⟨s₁.1, ⟨rfl, rfl, hs⟩, hobject.symm⟩
      · rintro ⟨c, ⟨rfl, rfl, hs⟩, hobject⟩
        exact ⟨rfl, hobject.symm, hs⟩

/-- What fails in its second part leaves the first one as it has become. -/
theorem inTurn_error_iff {x : Into ε σ α Unit} {y : Into ε σ β Unit} {e : ε} {t t' : α × β}
    {s s' : σ} :
    inTurn x y (t, s) = .error e (t', s') ↔
      (x (t.1, s) = .error e (t'.1, s') ∧ t'.2 = t.2) ∨
        ∃ s₁, x (t.1, s) = .ok () (t'.1, s₁) ∧ y (t.2, s₁) = .error e (t'.2, s') := by
  rw [inTurn, bind_error_iff]
  constructor
  · rintro (hfirst | ⟨_, ⟨middle, s₁⟩, hfirst, hsecond⟩)
    · obtain ⟨v, hv, ht⟩ := through_error_iff.mp hfirst
      obtain rfl : t' = (v, t.2) := ht
      exact Or.inl ⟨hv, rfl⟩
    · obtain ⟨v, hv, hmiddle⟩ := through_ok_iff.mp hfirst
      obtain rfl : middle = (v, t.2) := hmiddle
      obtain ⟨w, hw, ht⟩ := through_error_iff.mp hsecond
      obtain rfl : t' = (v, w) := ht
      exact Or.inr ⟨s₁, hv, hw⟩
  · rintro (⟨hv, hbehind⟩ | ⟨s₁, hv, hw⟩)
    · exact Or.inl (through_error_iff.mpr ⟨t'.1, hv, Prod.ext rfl hbehind⟩)
    · refine Or.inr ⟨(), ((t'.1, t.2), s₁), ?_, ?_⟩
      · exact through_ok_iff.mpr ⟨t'.1, hv, rfl⟩
      · exact through_error_iff.mpr ⟨t'.2, hw, rfl⟩

/-- A loop that throws leaves the object with the results of the turns that returned. -/
theorem repeatInto_error_iff {step : EStateM ε σ α} {append : τ → α → τ} {n : ℕ} {e : ε}
    {t t' : τ} {s s' : σ} :
    repeatInto step append n (t, s) = .error e (t', s') ↔
      ∃ (as : List α) (s₁ : σ), as.length < n ∧
        Chain (fun s a s₁ => step s = .ok a s₁) s as s₁ ∧ step s₁ = .error e s' ∧
          t' = as.foldl append t := by
  induction n generalizing t s with
  | zero =>
      constructor
      · intro h
        cases h
      · rintro ⟨as, s₁, hlen, -⟩
        exact (Nat.not_lt_zero _ hlen).elim
  | succ n ih =>
      rw [repeatInto, bind_error_iff, beside_error_iff]
      constructor
      · rintro (⟨hfirst, rfl⟩ | ⟨a, ⟨t₁, s₁⟩, hstep, hrest⟩)
        · exact ⟨[], s, Nat.succ_pos n, .nil s, hfirst, rfl⟩
        · obtain ⟨hstep, rfl⟩ := beside_ok_iff.mp hstep
          obtain ⟨as, s₂, hlen, hchain, herror, rfl⟩ := ih.mp hrest
          exact ⟨a :: as, s₂, Nat.succ_lt_succ hlen, .cons hstep hchain, herror, rfl⟩
      · rintro ⟨as, s₁, hlen, hchain, herror, rfl⟩
        cases hchain with
        | nil => exact Or.inl ⟨herror, rfl⟩
        | @cons _ s₂ _ a as hstep hchain =>
            refine Or.inr ⟨a, (t, s₂), beside_ok_iff.mpr ⟨hstep, rfl⟩, ?_⟩
            exact ih.mpr ⟨as, s₁, Nat.lt_of_succ_lt_succ hlen, hchain, herror, rfl⟩

/-- A list of computations throws in one of them, behind those that returned. -/
theorem forM_error_iff {ι : Type*} {f : ι → Into ε σ τ Unit} {as : List ι} {e : ε} {t t' : τ}
    {s s' : σ} :
    forM as f (t, s) = .error e (t', s') ↔
      ∃ (i : ℕ) (a : ι) (t₁ : τ) (s₁ : σ), as[i]? = some a ∧
        (as.take i).foldlM (fun t a => settle (f a) t) t s = .ok t₁ s₁ ∧
          f a (t₁, s₁) = .error e (t', s') := by
  induction as generalizing t s with
  | nil =>
      constructor
      · intro h
        cases h
      · rintro ⟨i, a, t₁, s₁, hget, -⟩
        rw [List.getElem?_nil] at hget
        cases hget
  | cons a as ih =>
      rw [List.forM_cons, bind_error_iff]
      constructor
      · rintro (hfirst | ⟨_, ⟨t₁, s₁⟩, hfirst, hrest⟩)
        · exact ⟨0, a, t, s, rfl, rfl, hfirst⟩
        · obtain ⟨i, b, t₂, s₂, hget, hbefore, herror⟩ := ih.mp hrest
          refine ⟨i + 1, b, t₂, s₂, hget, ?_, herror⟩
          rw [List.take_succ_cons, List.foldlM_cons, bind_ok_iff]
          exact ⟨t₁, s₁, settle_ok_iff.mpr hfirst, hbefore⟩
      · rintro ⟨i, b, t₂, s₂, hget, hbefore, herror⟩
        cases i with
        | zero =>
            obtain rfl := Option.some.inj hget
            obtain ⟨rfl, rfl⟩ := EStateM.Result.ok.inj hbefore
            exact Or.inl herror
        | succ i =>
            rw [List.take_succ_cons, List.foldlM_cons, bind_ok_iff] at hbefore
            obtain ⟨t₁, s₁, hfirst, hbefore⟩ := hbefore
            refine Or.inr ⟨(), (t₁, s₁), settle_ok_iff.mp hfirst, ?_⟩
            exact ih.mpr ⟨i, b, t₂, s₂, hget, hbefore, herror⟩

/-! ## Loops that collect -/

section Collect

variable {compute : τ → β → Except ε α} {store : τ → β → α → τ} {step : β → Into ε σ τ Unit}

/-- A loop that computes a value for each item and stores it in the object. -/
theorem settle_forM_collect
    (hstep : ∀ item t, settle (step item) t =
      lift (compute t item >>= fun value => pure (store t item value)))
    (items : List β) (t : τ) :
    settle (forM items step) t = lift (collect compute store items t) := by
  unfold collect
  rw [settle_forM, lift_foldlM]
  simp only [hstep]

/-- When its computations are independent, such a loop throws in one of its turns, on the object
with the values of the turns before it. -/
theorem forM_collect_error_iff
    (hstep : ∀ item t, settle (step item) t =
      lift (compute t item >>= fun value => pure (store t item value)))
    {items : List β} (hindep : Independent compute store items) {e : ε} {t t' : τ} {s s' : σ} :
    forM items step (t, s) = .error e (t', s') ↔
      ∃ (i : ℕ) (item : β) (values : List α), items[i]? = some item ∧
        List.Forall₂ (fun earlier value => compute t earlier = .ok value) (items.take i) values ∧
          step item (storeAll store (items.take i) values t, s) = .error e (t', s') := by
  have hbefore : ∀ i t₁ s₁, (items.take i).foldlM (fun t item => settle (step item) t) t s =
        .ok t₁ s₁ ↔
      (∃ values, List.Forall₂ (fun earlier value => compute t earlier = .ok value)
        (items.take i) values ∧ t₁ = storeAll store (items.take i) values t) ∧ s₁ = s := by
    intro i t₁ s₁
    rw [← settle_forM, settle_forM_collect hstep, lift_ok_iff,
      collect_eq_ok_iff (hindep.sublist (List.take_sublist i items))]
  simp only [forM_error_iff, hbefore]
  constructor
  · rintro ⟨i, item, t₁, s₁, hget, ⟨⟨values, hvalues, rfl⟩, rfl⟩, herror⟩
    exact ⟨i, item, values, hget, hvalues, herror⟩
  · rintro ⟨i, item, values, hget, hvalues, herror⟩
    exact ⟨i, item, _, s, hget, ⟨⟨values, hvalues, rfl⟩, rfl⟩, herror⟩

end Collect

end BacsEnv.InPlace
