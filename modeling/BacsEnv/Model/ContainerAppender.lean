import Mathlib.Data.Vector.Basic
import Mathlib.Tactic.Common

/-!
# `container_appender`

`plakpacs.hpp` and `bpjson.hpp` each define a `container_appender` with the same
two bodies: the general one calls `push_back`, the one for containers whose size
is a compile-time constant writes at a running index and drops what does not fit.
-/

set_option autoImplicit false

namespace BacsEnv

variable {α : Type}

/-- `container_appender<T>::append`: `_container->push_back(value)`. -/
def pushBack (container : List α) (value : α) : List α :=
  container ++ [value]

/-- Pushing values one by one appends them in order. -/
theorem foldl_pushBack (values container : List α) :
    values.foldl pushBack container = container ++ values := by
  induction values generalizing container with
  | nil => simp
  | cons v values ih => simp [ih, pushBack]

/-- The state of a `container_appender` of a fixed-size container. -/
structure FixedAppender (α : Type) (n : ℕ) where
  container : List.Vector α n
  index : ℕ := 0

namespace FixedAppender

variable {n : ℕ}

/-- `container_appender<T>::append` of a fixed-size container:
`if (index < tuple_size) (*_container)[index++] = value`. -/
def append (a : FixedAppender α n) (value : α) : FixedAppender α n :=
  if h : a.index < n then
    { container := a.container.set ⟨a.index, h⟩ value, index := a.index + 1 }
  else a

/-- What a run of appends leaves in the container: the elements before the
starting index, then the values that fit, then the elements not reached. -/
theorem toList_foldl_append (values : List α) (a : FixedAppender α n) (h : a.index ≤ n) :
    (values.foldl append a).container.toList =
      a.container.toList.take a.index ++ values.take (n - a.index) ++
        a.container.toList.drop (a.index + values.length) := by
  induction values generalizing a with
  | nil => simp
  | cons v values ih =>
      by_cases hlt : a.index < n
      · have happ : a.append v =
            { container := a.container.set ⟨a.index, hlt⟩ v, index := a.index + 1 } := by
          simp [append, hlt]
        have hlen : a.index < a.container.toList.length := by simpa using hlt
        have hsub : n - a.index = n - (a.index + 1) + 1 := by omega
        rw [List.foldl_cons, happ, ih _ (Nat.succ_le_of_lt hlt), hsub]
        simp only [List.Vector.toList_set, List.take_succ_cons, List.length_cons]
        rw [List.take_succ_eq_append_getElem (by simpa using hlen), List.getElem_set_self,
          List.take_set_of_le (le_refl _), List.drop_set_of_lt (by omega)]
        simp [Nat.add_comm, Nat.add_left_comm]
      · have heq : a.index = n := by omega
        have happ : a.append v = a := by simp [append, hlt]
        have hlen : a.container.toList.length = n := by simp
        rw [List.foldl_cons, happ, ih a h, heq, List.drop_of_length_le (by omega),
          List.drop_of_length_le (by simp)]
        simp

/-- As many appends as the container has elements replace all of them. -/
theorem toList_foldl_append_all (values : List α) (container : List.Vector α n)
    (h : values.length = n) :
    (values.foldl append { container := container }).container.toList = values := by
  have happ := toList_foldl_append values { container := container, index := 0 } (Nat.zero_le n)
  rw [happ]
  simp [← h]

end FixedAppender

end BacsEnv
