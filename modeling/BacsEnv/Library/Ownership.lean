import Mathlib.Data.List.Nodup
import Mathlib.Data.List.Range
import Mathlib.Tactic.Common

/-!
# Tokens that are held and released

Tokens are issued in the order of their numbers, each to one of some holders, and may move
from one holder to another until they are released. `Conserved` says that every token issued
is with one holder or was released, and nowhere twice; issuing, moving and releasing keep
it. When nobody holds anything any more, each token was released exactly once.
-/

set_option autoImplicit false

namespace BacsEnv.Ownership

open List

variable {η : Type} {tokens : η → List ℕ}

/-- The released tokens and those that are held are the ones that were issued. -/
def Conserved (tokens : η → List ℕ) (issued : ℕ) (holders : List η) (released : List ℕ) : Prop :=
  released ++ holders.flatMap tokens ~ range issued

theorem conserved_nil (tokens : η → List ℕ) : Conserved tokens 0 [] [] := Perm.refl _

/-- Putting one holder in the place of another. -/
theorem perm_flatMap_set {holders : List η} {i : ℕ} {x : η} (h : holders[i]? = some x) (y : η) :
    tokens x ++ (holders.set i y).flatMap tokens ~ tokens y ++ holders.flatMap tokens := by
  induction holders generalizing i with
  | nil => simp at h
  | cons z holders ih =>
      cases i with
      | zero =>
          obtain rfl : z = x := by simpa using h
          simp only [set_cons_zero, flatMap_cons]
          exact perm_append_comm_assoc _ _ _
      | succ i =>
          have hrest := ih (by simpa using h)
          simp only [set_cons_succ, flatMap_cons]
          calc tokens x ++ (tokens z ++ (holders.set i y).flatMap tokens)
              ~ tokens z ++ (tokens x ++ (holders.set i y).flatMap tokens) :=
                perm_append_comm_assoc _ _ _
            _ ~ tokens z ++ (tokens y ++ holders.flatMap tokens) := hrest.append_left _
            _ ~ tokens y ++ (tokens z ++ holders.flatMap tokens) := perm_append_comm_assoc _ _ _

/-- What a holder gives away is missing with the holders. -/
theorem perm_of_given {holders : List η} {i : ℕ} {x y : η} (h : holders[i]? = some x)
    {given : List ℕ} (hx : tokens x ~ given ++ tokens y) :
    given ++ (holders.set i y).flatMap tokens ~ holders.flatMap tokens := by
  have hset : tokens x ++ (holders.set i y).flatMap tokens ~ tokens y ++ holders.flatMap tokens :=
    perm_flatMap_set h y
  have hgiven : tokens y ++ (given ++ (holders.set i y).flatMap tokens) ~
      tokens y ++ holders.flatMap tokens := by
    calc tokens y ++ (given ++ (holders.set i y).flatMap tokens)
        ~ (given ++ tokens y) ++ (holders.set i y).flatMap tokens := by
          rw [append_assoc]
          exact perm_append_comm_assoc _ _ _
      _ ~ tokens x ++ (holders.set i y).flatMap tokens := hx.symm.append_right _
      _ ~ tokens y ++ holders.flatMap tokens := hset
  exact (perm_append_left_iff _).mp hgiven

variable {issued : ℕ} {holders : List η} {released : List ℕ}

/-- A new holder gets the next tokens. -/
theorem Conserved.issue (h : Conserved tokens issued holders released) {k : ℕ} {x : η}
    (hx : tokens x = range' issued k) :
    Conserved tokens (issued + k) (holders ++ [x]) released := by
  have hrange : range (issued + k) = range issued ++ range' issued k := by
    rw [range_add, range'_eq_map_range]
  unfold Conserved
  rw [flatMap_append, flatMap_singleton, hx, hrange, ← append_assoc]
  exact h.append_right _

/-- A holder gives tokens to a new one. -/
theorem Conserved.move (h : Conserved tokens issued holders released) {i : ℕ} {x y z : η}
    (hi : holders[i]? = some x) (hx : tokens x ~ tokens z ++ tokens y) :
    Conserved tokens issued (holders.set i y ++ [z]) released := by
  have hgiven := perm_of_given hi hx
  unfold Conserved
  rw [flatMap_append, flatMap_singleton]
  calc released ++ ((holders.set i y).flatMap tokens ++ tokens z)
      ~ released ++ (tokens z ++ (holders.set i y).flatMap tokens) :=
        perm_append_comm.append_left _
    _ ~ released ++ holders.flatMap tokens := hgiven.append_left _
    _ ~ range issued := h

/-- A holder releases tokens. -/
theorem Conserved.release (h : Conserved tokens issued holders released) {i : ℕ} {x y : η}
    (hi : holders[i]? = some x) {given : List ℕ} (hx : tokens x ~ given ++ tokens y) :
    Conserved tokens issued (holders.set i y) (released ++ given) := by
  have hgiven := perm_of_given hi hx
  unfold Conserved
  calc released ++ given ++ (holders.set i y).flatMap tokens
      ~ released ++ (given ++ (holders.set i y).flatMap tokens) := by rw [append_assoc]
    _ ~ released ++ holders.flatMap tokens := hgiven.append_left _
    _ ~ range issued := h

/-- When nothing is held any more, every token was released exactly once. -/
theorem Conserved.count_released (h : Conserved tokens issued holders released)
    (hnone : ∀ x ∈ holders, tokens x = []) {t : ℕ} (ht : t < issued) : released.count t = 1 := by
  have hheld : holders.flatMap tokens = [] := flatMap_eq_nil_iff.mpr hnone
  unfold Conserved at h
  rw [hheld, append_nil] at h
  rw [h.count_eq]
  exact count_eq_one_of_mem nodup_range (mem_range.mpr ht)

end BacsEnv.Ownership
