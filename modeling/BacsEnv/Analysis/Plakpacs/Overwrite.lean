import BacsEnv.Analysis.Plakpacs.Decodes

/-!
# Reading into an object that is not empty

A target is `Clean` for the value on the wire when nothing of what it holds shows after
the read: neither what it held itself nor what the default member initialisers left in
the objects that elements and values of optionals are read into. From this follows
exactly when a read overwrites its target (`overwrites_iff`).
-/

set_option autoImplicit false

namespace BacsEnv.Plakpacs

open StatefulRun ReadStream

/-! ## Clean targets -/

mutual

/-- Nothing of the object `a` is left when the bytes stand for `w`: the strings and the
size-prefixed containers of `a` are empty, an optional that stays disengaged on the
wire is disengaged in `a`, and so it is with the objects `T value;` for the elements and
the values of optionals that are on the wire. -/
def Clean {α : Type} : Schema α → α → α → Prop
  | .string, a, _ => a = []
  | .array s _, _, w => ∀ x ∈ w.toList, Clean s (fresh s) x
  | .spContainer s, a, w => a = [] ∧ ∀ x ∈ w, Clean s (fresh s) x
  | .spString, a, _ => a = []
  | .optional _, a, none => a = none
  | .optional s, _, some x => Clean s (fresh s) x
  | .constrained s _, a, w => Clean s a w
  | .struct _ fs, a, w => CleanFields fs a w
  | _, _, _ => True

def CleanFields {α : Type} : Fields α → α → α → Prop
  | .last _ _ s, a, w => Clean s a w
  | .cons _ _ s fs, a, w => Clean s a.1 w.1 ∧ CleanFields fs a.2 w.2

end

/-- A list that a function leaves alone. -/
theorem map_eq_self_iff {α : Type} {f : α → α} {l : List α} : l.map f = l ↔ ∀ x ∈ l, f x = x := by
  conv_lhs => rhs; rw [← List.map_id l]
  exact List.map_inj_left

/-- A target ends up with the value on the wire exactly when it is clean. -/
theorem merge_eq_iff {α : Type} {s : Schema α} (a w : α) : merge s a w = w ↔ Clean s a w := by
  induction s using @Schema.rec _
    (fun _ fs => ∀ a w, mergeFields fs a w = w ↔ CleanFields fs a w) with
  | scalar w size => exact iff_of_true rfl trivial
  | bool => exact iff_of_true rfl trivial
  | empty => exact iff_of_true rfl trivial
  | string => exact List.append_left_eq_self
  | array s n ih =>
      simp only [merge, Clean, ← ih, ← map_eq_self_iff, ← List.Vector.toList_map]
      exact ⟨congrArg List.Vector.toList, List.Vector.eq _ _⟩
  | spContainer s ih =>
      simp only [merge, Clean, ← ih, ← map_eq_self_iff]
      constructor
      · intro h
        have hlen := congrArg List.length h
        rw [List.length_append, List.length_map] at hlen
        have hnil : a = [] := List.eq_nil_of_length_eq_zero (by omega)
        rw [hnil, List.nil_append] at h
        exact ⟨hnil, h⟩
      · rintro ⟨rfl, h⟩
        exact h
  | spString => exact List.append_left_eq_self
  | optional s ih =>
      cases w with
      | none => exact Iff.rfl
      | some x =>
          rw [merge, Clean, ← ih]
          exact Option.some_inj
  | constrained s cs ih => exact ih a w
  | struct holder fs ih => exact ih a w
  | last name init s ih a w => exact ih a w
  | cons name init s fs ih ihfs a w =>
      rw [mergeFields, CleanFields, ← ih, ← ihfs]
      exact Prod.ext_iff

/-- The constraints do not tell two clean targets apart. -/
theorem satisfied_iff_of_clean {α : Type} {s : Schema α} (a b w : α) (ha : Clean s a w)
    (hb : Clean s b w) : Satisfied s a w ↔ Satisfied s b w := by
  induction s using @Schema.rec _ (fun _ fs => ∀ a b w, CleanFields fs a w → CleanFields fs b w →
    (SatisfiedFields fs a w ↔ SatisfiedFields fs b w)) with
  | scalar w size => exact Iff.rfl
  | bool => exact Iff.rfl
  | empty => exact Iff.rfl
  | string => exact Iff.rfl
  | array s n ih => exact Iff.rfl
  | spContainer s ih => exact Iff.rfl
  | spString => exact Iff.rfl
  | optional s ih => exact Iff.rfl
  | constrained s cs ih =>
      have hsat := ih a b w ha hb
      have hma : merge s a w = w := (merge_eq_iff a w).mpr ha
      have hmb : merge s b w = w := (merge_eq_iff b w).mpr hb
      rw [Satisfied, Satisfied, hsat, hma, hmb]
  | struct holder fs ih => exact ih a b w ha hb
  | last name init s ih a b w ha hb => exact ih a b w ha hb
  | cons name init s fs ih ihfs a b w ha hb =>
      rw [SatisfiedFields, SatisfiedFields, ih a.1 b.1 w.1 ha.1 hb.1,
        ihfs a.2 b.2 w.2 ha.2 hb.2]

/-! ## Reads that overwrite -/

/-- Reading into `a` and into `b` succeeds for the same streams and leaves the same value
in both, the one the bytes stand for. -/
def Overwrites {α : Type} (s : Schema α) (rs : ReadStream) (a b : α) : Prop :=
  ((∃ v rs', read canReadNum s a rs = .ok v rs') ↔ ∃ v rs', read canReadNum s b rs = .ok v rs') ∧
    ∀ v w rs₁ rs₂, read canReadNum s a rs = .ok v rs₁ → read canReadNum s b rs = .ok w rs₂ →
      v = w ∧ rs₁ = rs₂ ∧ Decodes canReadNum s rs v rs₁

/-- A read into `a` and one into `b` overwrite their targets exactly when the bytes stand
for no value, or both targets are clean, or neither satisfies the constraints then. -/
theorem overwrites_iff {α : Type} {s : Schema α} {rs : ReadStream} {a b : α} :
    Overwrites s rs a b ↔
      ∀ w rs', Decodes canReadNum s rs w rs' →
        (Clean s a w ∧ Clean s b w) ∨ (¬ Satisfied s a w ∧ ¬ Satisfied s b w) := by
  have hreads : ∀ {a w rs'}, Decodes canReadNum s rs w rs' → Satisfied s a w →
      read canReadNum s a rs = .ok (merge s a w) rs' :=
    fun hw hsat => (read_ok_iff_decodes _ _ _ _).mpr ⟨_, hw, hsat, rfl⟩
  constructor
  · rintro ⟨hsucc, hsame⟩ w rs' hw
    have hboth : Satisfied s a w ↔ Satisfied s b w :=
      (exists_read_iff hw).symm.trans (hsucc.trans (exists_read_iff hw))
    by_cases hsat : Satisfied s a w
    · obtain ⟨hv, -, hdec⟩ := hsame _ _ _ _ (hreads hw hsat) (hreads hw (hboth.mp hsat))
      -- What is left in both targets is what the bytes stand for.
      have hmerge : merge s a w = w := (decodes_unique _ _ _ _ _ hdec hw).1
      have hmerge' : merge s b w = w := by rw [← hv, hmerge]
      exact .inl ⟨(merge_eq_iff a w).mp hmerge, (merge_eq_iff b w).mp hmerge'⟩
    · exact .inr ⟨hsat, fun hsat' => hsat (hboth.mpr hsat')⟩
  · intro h
    have hboth : ∀ w rs', Decodes canReadNum s rs w rs' → (Satisfied s a w ↔ Satisfied s b w) := by
      intro w rs' hw
      rcases h w rs' hw with ⟨hca, hcb⟩ | ⟨hna, hnb⟩
      · exact satisfied_iff_of_clean a b w hca hcb
      · exact iff_of_false hna hnb
    constructor
    · constructor
      · rintro ⟨v, rs', ha⟩
        obtain ⟨w, hw, hsat, -⟩ := (read_ok_iff_decodes _ _ _ _).mp ha
        exact (exists_read_iff hw).mpr ((hboth w rs' hw).mp hsat)
      · rintro ⟨v, rs', hb⟩
        obtain ⟨w, hw, hsat, -⟩ := (read_ok_iff_decodes _ _ _ _).mp hb
        exact (exists_read_iff hw).mpr ((hboth w rs' hw).mpr hsat)
    · intro v u rs₁ rs₂ ha hb
      obtain ⟨w, hw, hsat, hv⟩ := (read_ok_iff_decodes _ _ _ _).mp ha
      obtain ⟨w', hw', -, hu⟩ := (read_ok_iff_decodes _ _ _ _).mp hb
      obtain ⟨hww, hrs⟩ := decodes_unique _ _ _ _ _ hw' hw
      rw [hww] at hu
      rcases h w rs₁ hw with ⟨hca, hcb⟩ | ⟨hna, -⟩
      · rw [(merge_eq_iff a w).mpr hca] at hv
        rw [(merge_eq_iff b w).mpr hcb] at hu
        exact ⟨hv.trans hu.symm, hrs.symm, hv ▸ hw⟩
      · exact absurd hsat hna

/-- A string that is read into an object that holds `x` is appended to it. -/
theorem string_not_overwritten :
    ¬ Overwrites .string (ofBytes [65, 0] (by decide)) (text "x") [] := by
  intro h
  have hkept : read canReadNum .string (text "x") (ofBytes [65, 0] (by decide)) =
      .ok (text "xA") ((ofBytes [65, 0] (by decide)).advance 2) := by
    simp only [read]
    rfl
  have hread : read canReadNum .string [] (ofBytes [65, 0] (by decide)) =
      .ok (text "A") ((ofBytes [65, 0] (by decide)).advance 2) := by
    simp only [read]
    rfl
  have hsame := (h.2 _ _ _ _ hkept hread).1
  exact absurd hsame (by decide)

end BacsEnv.Plakpacs
