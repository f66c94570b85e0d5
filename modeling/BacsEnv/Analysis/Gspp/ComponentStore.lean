import BacsEnv.Analysis.Gspp.ComponentViews
import BacsEnv.Library.LastOwner
import BacsEnv.Library.Transition
import BacsEnv.Model.Gspp.ComponentStore

/-!
# How long a `ComponentRef` is good for

In every run each object is destroyed once, when its last shared pointer goes (`Inv`). So a
reference that `GetComponent<T>` gave can be used until the next call that is about `T`, and
after that for as long as another shared pointer holds the object. Where none did when the
reference was taken, none will, but those of entries that hold it already.
-/

set_option autoImplicit false

namespace BacsEnv.Gspp.ComponentStore

open LastOwner Transition

variable {κ : Type} [DecidableEq κ] {C : κ → Type} {s s' : ComponentStore C} {T : κ} {a b : ℕ}

/-! ## What the map holds -/

theorem mem_held_iff : a ∈ s.held ↔ ∃ T, s.entry T = some a := by
  rw [held, List.mem_filterMap]
  simp only [entry, Option.bind_eq_some_iff]
  constructor
  · rintro ⟨⟨T, p⟩, hentry, haddress⟩
    exact ⟨T, p, AList.mem_lookup_iff.mpr hentry, haddress⟩
  · rintro ⟨T, p, hlookup, haddress⟩
    exact ⟨⟨T, p⟩, AList.mem_lookup_iff.mp hlookup, haddress⟩

theorem owned_iff : s.Owned a ↔ a ∈ s.outside ∨ ∃ T, s.entry T = some a :=
  or_congr_right mem_held_iff

/-- A change of one entry leaves the addresses of the others. -/
theorem exists_entry_iff (hother : ∀ S, S ≠ T → s'.entry S = s.entry S)
    (hold : s.entry T ≠ some b) (hnew : s'.entry T ≠ some b) :
    (∃ S, s'.entry S = some b) ↔ ∃ S, s.entry S = some b := by
  constructor
  · rintro ⟨S, hS⟩
    have hne : S ≠ T := by
      rintro rfl
      exact hnew hS
    exact ⟨S, (hother S hne).symm.trans hS⟩
  · rintro ⟨S, hS⟩
    have hne : S ≠ T := by
      rintro rfl
      exact hold hS
    exact ⟨S, (hother S hne).trans hS⟩

/-! ## The invariant -/

/-- The objects that are destroyed are the ones without an owner. -/
def Inv (s : ComponentStore C) : Prop := Accounted s.made s.Owned s.destroyed

theorem inv_init : Inv (init : ComponentStore C) := by
  apply accounted_zero.congr
  intro a
  rw [owned_iff]
  simp [init, entry, Componentable.init]

theorem inv_makeShared (h : Inv s) : Inv s.makeShared := by
  apply Accounted.make h
  intro a
  have hentry : ∀ T, s.makeShared.entry T = s.entry T := fun T => rfl
  have houtside : a ∈ s.makeShared.outside ↔ a = s.made ∨ a ∈ s.outside := List.mem_cons
  rw [owned_iff, owned_iff, houtside]
  simp only [hentry]
  tauto

omit [DecidableEq κ] in
theorem inv_copy (h : Inv s) (ha : a ∈ s.outside) :
    Inv { s with outside := a :: s.outside } := by
  apply Accounted.congr h
  intro b
  have hsame : b ∈ a :: s.outside ↔ b ∈ s.outside := by
    rw [List.mem_cons, or_iff_right_of_imp]
    rintro rfl
    exact ha
  exact or_congr_left hsame

omit [DecidableEq κ] in
/-- A state in which one shared pointer less holds an address, when the object is released. -/
theorem inv_release (h : Inv s) (hmade : s'.made = s.made) (hdestroyed : s'.destroyed = s.destroyed)
    (ha : s.Owned a) (hothers : ∀ b, b ≠ a → (s'.Owned b ↔ s.Owned b)) :
    Inv (s'.release (some a)) := by
  have haccounted := Accounted.release h ha hothers
  rw [← hdestroyed, ← hmade] at haccounted
  exact haccounted

omit [DecidableEq κ] in
theorem inv_drop (h : Inv s) (ha : a ∈ s.outside) : Inv (s.drop a) := by
  refine inv_release h rfl rfl (Or.inl ha) ?_
  intro b hne
  exact or_congr_left (List.mem_erase_of_ne hne)

/-- An entry gets another pointer, or goes: the address that it held is released. -/
theorem inv_entry (h : Inv s) (hmade : s'.made = s.made) (hdestroyed : s'.destroyed = s.destroyed)
    (houtside : s'.outside = s.outside) (hother : ∀ S, S ≠ T → s'.entry S = s.entry S)
    (hnew : ∀ b, s'.entry T = some b → b ∈ s.outside) : Inv (s'.release (s.entry T)) := by
  have howned : ∀ b, s.entry T ≠ some b → (s'.Owned b ↔ s.Owned b) := by
    intro b hold
    rw [owned_iff, owned_iff, houtside]
    by_cases hin : b ∈ s.outside
    · exact iff_of_true (Or.inl hin) (Or.inl hin)
    · exact or_congr_right (exists_entry_iff hother hold fun hb => hin (hnew b hb))
  cases hentry : s.entry T with
  | none =>
      have hsame : ∀ b, s'.Owned b ↔ s.Owned b :=
        fun b => howned b (by rw [hentry]; exact Option.some_ne_none b |>.symm)
      have haccounted := Accounted.congr h hsame
      rw [← hdestroyed, ← hmade] at haccounted
      exact haccounted
  | some a =>
      refine inv_release h hmade hdestroyed (owned_iff.mpr (Or.inr ⟨T, hentry⟩)) ?_
      intro b hne
      apply howned b
      rw [hentry]
      intro heq
      exact hne (Option.some.inj heq).symm

theorem inv_createComponent (h : Inv s) {p : SharedPtr C T}
    (hp : ∀ object ∈ p, object.address ∈ s.outside) : Inv (s.createComponent T p) := by
  refine inv_entry h rfl rfl rfl ?_ ?_
  · intro S hne
    exact congrArg (fun p : Option (SharedVoid C) => p.bind address) (AList.lookup_insert_ne hne)
  · intro b hb
    have hentry : ((s.components.components.insert T (Componentable.erase p)).lookup T).bind
        address = some b := hb
    rw [AList.lookup_insert] at hentry
    cases p with
    | none => cases hentry
    | some object =>
        cases hentry
        exact hp object rfl

theorem inv_destroyComponent (h : Inv s) : Inv (s.destroyComponent T) := by
  refine inv_entry h rfl rfl rfl ?_ ?_
  · intro S hne
    exact congrArg (fun p : Option (SharedVoid C) => p.bind address) (AList.lookup_erase_ne hne)
  · intro b hb
    have hentry : ((s.components.components.erase T).lookup T).bind address = some b := hb
    rw [AList.lookup_erase] at hentry
    cases hentry

theorem inv_step {e : Event C} (h : Inv s) (hstep : step s e = some s') : Inv s' := by
  cases e with
  | makeShared =>
      obtain rfl := Option.some.inj hstep
      exact inv_makeShared h
  | copy a =>
      obtain ⟨ha, heq⟩ := Option.ite_none_right_eq_some.mp hstep
      obtain rfl := Option.some.inj heq
      exact inv_copy h ha
  | drop a =>
      obtain ⟨ha, heq⟩ := Option.ite_none_right_eq_some.mp hstep
      obtain rfl := Option.some.inj heq
      exact inv_drop h ha
  | createComponent T p =>
      obtain ⟨hp, heq⟩ := Option.ite_none_right_eq_some.mp hstep
      obtain rfl := Option.some.inj heq
      exact inv_createComponent h hp
  | createComponentFrom T value =>
      obtain rfl := Option.some.inj hstep
      -- The pointer that is made is passed on, and then destroyed.
      have hmade : s.made ∈ s.makeShared.outside := List.mem_cons_self
      have hcreated : Inv (s.makeShared.createComponent T (some ⟨s.made, value⟩)) := by
        apply inv_createComponent (inv_makeShared h)
        intro object hobject
        cases hobject
        exact hmade
      apply inv_drop hcreated
      rw [createComponent, outside_release]
      exact hmade
  | destroyComponent T =>
      obtain rfl := Option.some.inj hstep
      exact inv_destroyComponent h

/-! ## What a run keeps -/

/-- An event that is not about a component type leaves its entry. -/
theorem lookup_step {e : Event C} (hsubject : e.subject ≠ some T) (hstep : step s e = some s') :
    s'.components.components.lookup T = s.components.components.lookup T := by
  have hne : ∀ S : κ, some S ≠ some T → T ≠ S := fun S hS heq => hS (congrArg some heq.symm)
  cases e with
  | makeShared =>
      obtain rfl := Option.some.inj hstep
      rfl
  | copy a =>
      obtain ⟨-, heq⟩ := Option.ite_none_right_eq_some.mp hstep
      obtain rfl := Option.some.inj heq
      rfl
  | drop a =>
      obtain ⟨-, heq⟩ := Option.ite_none_right_eq_some.mp hstep
      obtain rfl := Option.some.inj heq
      rfl
  | createComponent S p =>
      obtain ⟨-, heq⟩ := Option.ite_none_right_eq_some.mp hstep
      obtain rfl := Option.some.inj heq
      rw [createComponent, components_release]
      exact AList.lookup_insert_ne (hne S hsubject)
  | createComponentFrom S value =>
      obtain rfl := Option.some.inj hstep
      rw [createComponentFrom, drop, components_release, createComponent, components_release]
      exact AList.lookup_insert_ne (hne S hsubject)
  | destroyComponent S =>
      obtain rfl := Option.some.inj hstep
      rw [destroyComponent, components_release]
      exact AList.lookup_erase_ne (hne S hsubject)

theorem made_le_step {e : Event C} (hstep : step s e = some s') : s.made ≤ s'.made := by
  cases e with
  | makeShared =>
      obtain rfl := Option.some.inj hstep
      exact Nat.le_succ s.made
  | copy b =>
      obtain ⟨-, heq⟩ := Option.ite_none_right_eq_some.mp hstep
      obtain rfl := Option.some.inj heq
      exact le_refl s.made
  | drop b =>
      obtain ⟨-, heq⟩ := Option.ite_none_right_eq_some.mp hstep
      obtain rfl := Option.some.inj heq
      exact le_refl s.made
  | createComponent S p =>
      obtain ⟨-, heq⟩ := Option.ite_none_right_eq_some.mp hstep
      obtain rfl := Option.some.inj heq
      rw [createComponent, made_release]
  | createComponentFrom S value =>
      obtain rfl := Option.some.inj hstep
      rw [createComponentFrom, drop, made_release, createComponent, made_release]
      exact Nat.le_succ s.made
  | destroyComponent S =>
      obtain rfl := Option.some.inj hstep
      rw [destroyComponent, made_release]

/-- An object that was made and has no shared pointer outside of the map gets none. -/
theorem outside_step {e : Event C} (hmade : a < s.made) (ha : a ∉ s.outside)
    (hstep : step s e = some s') : a ∉ s'.outside := by
  have hne : a ≠ s.made := Nat.ne_of_lt hmade
  cases e with
  | makeShared =>
      obtain rfl := Option.some.inj hstep
      exact List.not_mem_cons_of_ne_of_not_mem hne ha
  | copy b =>
      obtain ⟨hb, heq⟩ := Option.ite_none_right_eq_some.mp hstep
      obtain rfl := Option.some.inj heq
      apply List.not_mem_cons_of_ne_of_not_mem ?_ ha
      rintro rfl
      exact ha hb
  | drop b =>
      obtain ⟨-, heq⟩ := Option.ite_none_right_eq_some.mp hstep
      obtain rfl := Option.some.inj heq
      exact fun hmem => ha (List.mem_of_mem_erase hmem)
  | createComponent S p =>
      obtain ⟨-, heq⟩ := Option.ite_none_right_eq_some.mp hstep
      obtain rfl := Option.some.inj heq
      rw [createComponent, outside_release]
      exact ha
  | createComponentFrom S value =>
      obtain rfl := Option.some.inj hstep
      rw [createComponentFrom, drop, outside_release, createComponent, outside_release]
      intro hmem
      exact List.not_mem_cons_of_ne_of_not_mem hne ha (List.mem_of_mem_erase hmem)
  | destroyComponent S =>
      obtain rfl := Option.some.inj hstep
      rw [destroyComponent, outside_release]
      exact ha

/-- A reference refers to the object that the entry holds. -/
theorem lookup_of_getComponent {object : Instance C T}
    (h : Componentable.getComponent T s.components = .to object) :
    s.components.components.lookup T = some (some ⟨T, object⟩) := by
  unfold Componentable.getComponent at h
  cases hlookup : s.components.components.lookup T with
  | none =>
      rw [hlookup] at h
      cases h
  | some p =>
      rw [hlookup] at h
      cases p with
      | none => cases h
      | some stored =>
          obtain ⟨S, object'⟩ := stored
          simp only [Componentable.castTo] at h
          split at h
          · rename_i heq
            subst heq
            cases h
            rfl
          · cases h

/-- In every run, the object of a reference that `GetComponent<T>` gave is destroyed exactly
when no shared pointer holds it; it is not while no call is about `T`, and where the map alone
held it, it is as soon as no entry holds it any more. No object is destroyed twice. -/
theorem component_ref_valid_iff {before events : List (Event C)} {object : Instance C T}
    (hbefore : run step init before = some s)
    (href : Componentable.getComponent T s.components = .to object)
    (hrun : run step s events = some s') :
    (object.address ∉ s'.destroyed ↔ s'.Owned object.address) ∧
      ((∀ e ∈ events, e.subject ≠ some T) → object.address ∉ s'.destroyed) ∧
      (object.address ∉ s.outside →
        (object.address ∉ s'.destroyed ↔ object.address ∈ s'.held)) ∧
      s'.destroyed.Nodup := by
  have hinv : Inv s := run_inv (fun _ _ _ => inv_step) hbefore inv_init
  have hinv' : Inv s' := run_inv (fun _ _ _ => inv_step) hrun hinv
  have hlookup := lookup_of_getComponent href
  have hentry : s.entry T = some object.address := by
    rw [entry, hlookup]
    rfl
  have hmade : object.address < s.made :=
    hinv.made_of_owned _ (owned_iff.mpr (Or.inr ⟨T, hentry⟩))
  have hmade' : object.address < s'.made :=
    run_inv (I := fun s => object.address < s.made)
      (fun _ _ _ h hstep => Nat.lt_of_lt_of_le h (made_le_step hstep)) hrun hmade
  have hvalid : object.address ∉ s'.destroyed ↔ s'.Owned object.address := by
    rw [hinv'.gone_iff, not_and_not_right]
    exact forall_prop_of_true hmade'
  refine ⟨hvalid, ?_, ?_, hinv'.nodup⟩
  · intro hsubject
    have hkept := run_induction (C := fun _ e => e.subject ≠ some T)
      (I := fun s : ComponentStore C =>
        s.components.components.lookup T = some (some ⟨T, object⟩))
      (fun _ _ _ h hne hstep => (lookup_step hne hstep).trans h) hrun
      (meets_of_forall_mem hsubject s) hlookup
    refine hvalid.mpr (owned_iff.mpr (Or.inr ⟨T, ?_⟩))
    rw [entry, hkept]
    rfl
  · intro houtside
    have hnever := run_inv (I := fun s => object.address < s.made ∧ object.address ∉ s.outside)
      (fun _ _ _ h hstep =>
        ⟨Nat.lt_of_lt_of_le h.1 (made_le_step hstep), outside_step h.1 h.2 hstep⟩)
      hrun ⟨hmade, houtside⟩
    rw [hvalid]
    exact or_iff_right hnever.2

/-- A component that the map made goes when it is destroyed, and a reference to it dangles. -/
theorem component_ref_valid_destroyed :
    ∃ s s' : ComponentStore fun _ : Bool => ℕ,
      run step init [.createComponentFrom true 7] = some s ∧
        Componentable.getComponent true s.components = .to ⟨0, 7⟩ ∧
        run step s [.destroyComponent true] = some s' ∧ 0 ∈ s'.destroyed := by
  refine ⟨_, _, rfl, rfl, rfl, ?_⟩
  obtain ⟨-, -, hheld, -⟩ := @component_ref_valid_iff Bool _ (fun _ => ℕ) _ _ true
    [.createComponentFrom true 7] [.destroyComponent true] ⟨0, 7⟩ rfl rfl rfl
  by_contra hvalid
  have hmem := (hheld (by decide)).mp hvalid
  cases hmem

end BacsEnv.Gspp.ComponentStore
