import BacsEnv.Library.StatefulRun
import Mathlib.Data.List.Basic
import Mathlib.Tactic.Common

/-!
# Errors that name the places they passed

An error starts with a cause, and each place that it passes on its way out puts its label
between two fixed texts in front of it. `render` is the text that comes out. When no label
contains the symbol that the second text starts with, and no cause starts with the first
text, the places and the text of the cause can be read off it (`render_injective`).

The second part is about stateful computations that fail: where a composition, or a loop of
`repeatAppend`, has failed.
-/

set_option autoImplicit false

namespace BacsEnv.ErrorPath

section Render

variable {χ φ κ : Type}

/-- The text of an error: the places it passed, the outermost one first, and its cause. -/
def render (opening closing : List χ) (label : φ → List χ) (what : κ → List χ) :
    List φ → κ → List χ
  | [], cause => what cause
  | place :: path, cause =>
      opening ++ label place ++ closing ++ render opening closing label what path cause

/-- Texts in which a symbol ends a first part without that symbol are split in one way. -/
theorem append_cons_inj_of_not_mem {stop : χ} {l l' r r' : List χ} (hl : stop ∉ l)
    (hl' : stop ∉ l') (h : l ++ stop :: r = l' ++ stop :: r') : l = l' ∧ r = r' := by
  induction l generalizing l' with
  | nil =>
      cases l' with
      | nil => exact ⟨rfl, (List.cons.inj h).2⟩
      | cons x l' =>
          obtain ⟨rfl, -⟩ := List.cons.inj h
          exact (hl' List.mem_cons_self).elim
  | cons x l ih =>
      cases l' with
      | nil =>
          obtain ⟨rfl, -⟩ := List.cons.inj h
          exact (hl List.mem_cons_self).elim
      | cons x' l' =>
          obtain ⟨rfl, hrest⟩ := List.cons.inj h
          obtain ⟨rfl, hr⟩ := ih (fun hmem => hl (List.mem_cons_of_mem _ hmem))
            (fun hmem => hl' (List.mem_cons_of_mem _ hmem)) hrest
          exact ⟨rfl, hr⟩

/-- The places that an error passed and the text of its cause can be read off its text. -/
theorem render_injective {opening closing : List χ} {label : φ → List χ} {what : κ → List χ}
    {stop : χ} {rest : List χ} (hclosing : closing = stop :: rest) {valid : φ → Prop}
    (hstop : ∀ place, valid place → stop ∉ label place)
    (hlabel : ∀ place place', valid place → valid place' → label place = label place' →
      place = place')
    {path path' : List φ} (hpath : ∀ place ∈ path, valid place)
    (hpath' : ∀ place ∈ path', valid place) {cause cause' : κ}
    (hcause : ¬ opening <+: what cause) (hcause' : ¬ opening <+: what cause')
    (h : render opening closing label what path cause =
      render opening closing label what path' cause') :
    path = path' ∧ what cause = what cause' := by
  induction path generalizing path' with
  | nil =>
      cases path' with
      | nil => exact ⟨rfl, h⟩
      | cons place' path' =>
          refine (hcause ?_).elim
          have hwhole : what cause = opening ++ (label place' ++ (closing ++
              render opening closing label what path' cause')) := by
            rw [← List.append_assoc, ← List.append_assoc]
            exact h
          rw [hwhole]
          exact List.prefix_append _ _
  | cons place path ih =>
      cases path' with
      | nil =>
          refine (hcause' ?_).elim
          have hwhole : what cause' = opening ++ (label place ++ (closing ++
              render opening closing label what path cause)) := by
            rw [← List.append_assoc, ← List.append_assoc]
            exact h.symm
          rw [hwhole]
          exact List.prefix_append _ _
      | cons place' path' =>
          have hplace := hpath place List.mem_cons_self
          have hplace' := hpath' place' List.mem_cons_self
          simp only [render, List.append_assoc, hclosing, List.cons_append] at h
          obtain ⟨hsame, hbehind⟩ := append_cons_inj_of_not_mem (hstop place hplace)
            (hstop place' hplace') (List.append_cancel_left h)
          rw [← List.cons_inj_right stop] at hbehind
          have hinner := @List.append_cancel_left _ (stop :: rest) _ _ hbehind
          rw [← hclosing] at hinner
          obtain ⟨hpaths, hcauses⟩ := ih (fun p hp => hpath p (List.mem_cons_of_mem _ hp))
            (fun p hp => hpath' p (List.mem_cons_of_mem _ hp)) hinner
          exact ⟨by rw [hlabel place place' hplace hplace' hsame, hpaths], hcauses⟩

end Render

section Runs

open BacsEnv.StatefulRun

variable {ε σ α β γ : Type}

/-- A composition fails in its first part, or in its second one after the first. -/
theorem bind_error_iff {x : EStateM ε σ α} {f : α → EStateM ε σ β} {s s' : σ} {e : ε} :
    (x >>= f) s = .error e s' ↔
      x s = .error e s' ∨ ∃ a s₁, x s = .ok a s₁ ∧ f a s₁ = .error e s' := by
  change EStateM.bind x f s = .error e s' ↔ _
  unfold EStateM.bind
  cases x s <;> simp

/-- A loop fails in one of its turns, behind turns that returned. -/
theorem repeatAppend_error_iff {step : EStateM ε σ α} {append : γ → α → γ} {n : ℕ} {c : γ}
    {s s' : σ} {e : ε} :
    repeatAppend step append n c s = .error e s' ↔
      ∃ (as : List α) (s₁ : σ), as.length < n ∧
        Chain (fun s a s₁ => step s = .ok a s₁) s as s₁ ∧ step s₁ = .error e s' := by
  induction n generalizing c s with
  | zero =>
      constructor
      · intro h
        cases h
      · rintro ⟨as, s₁, hlen, -, -⟩
        exact (Nat.not_lt_zero _ hlen).elim
  | succ n ih =>
      rw [repeatAppend, bind_error_iff]
      constructor
      · rintro (hfirst | ⟨a, s₁, hstep, hrest⟩)
        · exact ⟨[], s, Nat.succ_pos n, .nil s, hfirst⟩
        · obtain ⟨as, s₂, hlen, hchain, herror⟩ := ih.mp hrest
          exact ⟨a :: as, s₂, Nat.succ_lt_succ hlen, .cons hstep hchain, herror⟩
      · rintro ⟨as, s₁, hlen, hchain, herror⟩
        cases hchain with
        | nil => exact Or.inl herror
        | cons hstep hchain =>
            exact Or.inr ⟨_, _, hstep, ih.mpr ⟨_, s₁, Nat.lt_of_succ_lt_succ hlen, hchain, herror⟩⟩

end Runs

end BacsEnv.ErrorPath
