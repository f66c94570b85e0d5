import BacsEnv.Analysis.Plakpacs.ErrorTexts

/-!
# Constraints only refuse

`unconstrained s` is the type `s` without its `constrained` wrappers. Both have the same bytes,
which stand for the same values and leave the same in an object. A reader of `s` throws where a
constraint does not hold (`failsAt_of_not_satisfied`). So the two ends of a connection may put
different constraints on their types.
-/

set_option autoImplicit false

namespace BacsEnv.Plakpacs

open StatefulRun ReadStream

mutual

/-- A type without its constraints. -/
def unconstrained {α : Type} : Schema α → Schema α
  | .scalar w size => .scalar w size
  | .bool => .bool
  | .empty => .empty
  | .string => .string
  | .array s n => .array (unconstrained s) n
  | .spContainer s => .spContainer (unconstrained s)
  | .spString => .spString
  | .optional s => .optional (unconstrained s)
  | .constrained s _ => unconstrained s
  | .struct holder fs => .struct holder (unconstrainedFields fs)

def unconstrainedFields {α : Type} : Fields α → Fields α
  | .last name init s => .last name init (unconstrained s)
  | .cons name init s fs => .cons name init (unconstrained s) (unconstrainedFields fs)

end

theorem fresh_unconstrained {α : Type} (s : Schema α) : fresh (unconstrained s) = fresh s := by
  induction s using @Schema.rec _
    (fun _ fs => freshFields (unconstrainedFields fs) = freshFields fs) with
  | array s n ih => rw [unconstrained, fresh, fresh, ih]
  | constrained s cs ih => exact ih
  | struct holder fs ih => exact ih
  | last name init s ih => exact congrArg init.getD ih
  | cons name init s fs ih ihfs => exact Prod.ext (congrArg init.getD ih) ihfs
  | _ => rfl

/-- The constraints do not show in the bytes. -/
theorem write_unconstrained (uninit : ℕ → UInt8) {α : Type} (s : Schema α) :
    write uninit (unconstrained s) = write uninit s := by
  induction s using @Schema.rec _
    (fun _ fs => writeObject uninit (unconstrainedFields fs) = writeObject uninit fs) with
  | array s n ih =>
      funext v ws
      rw [unconstrained, write, write, ih]
  | spContainer s ih =>
      funext v ws
      rw [unconstrained, write, write, ih]
  | optional s ih =>
      funext v ws
      rw [unconstrained]
      cases v with
      | none => rfl
      | some x =>
          rw [write, write, ih]
  | constrained s cs ih =>
      funext v ws
      rw [unconstrained, ih, write]
  | struct holder fs ih =>
      funext v ws
      rw [unconstrained, write, write, ih]
  | last name init s ih =>
      funext v ws
      rw [unconstrainedFields, writeObject, writeObject, ih]
  | cons name init s fs ih ihfs =>
      funext v ws
      rw [unconstrainedFields, writeObject, writeObject, ih, ihfs]
  | _ => rfl

/-- Nor in what they leave in an object. -/
theorem merge_unconstrained {α : Type} (s : Schema α) : merge (unconstrained s) = merge s := by
  induction s using @Schema.rec _
    (fun _ fs => mergeFields (unconstrainedFields fs) = mergeFields fs) with
  | array s n ih =>
      funext a w
      rw [unconstrained, merge, merge, ih, fresh_unconstrained]
  | spContainer s ih =>
      funext a w
      rw [unconstrained, merge, merge, ih, fresh_unconstrained]
  | optional s ih =>
      funext a w
      rw [unconstrained]
      cases w with
      | none => rfl
      | some x => rw [merge, merge, ih, fresh_unconstrained]
  | constrained s cs ih =>
      funext a w
      rw [unconstrained, ih, merge]
  | struct holder fs ih =>
      funext a w
      rw [unconstrained, merge, merge, ih]
  | last name init s ih =>
      funext a w
      rw [unconstrainedFields, mergeFields, mergeFields, ih]
  | cons name init s fs ih ihfs =>
      funext a w
      rw [unconstrainedFields, mergeFields, mergeFields, ih, ihfs]
  | _ => rfl

/-- The constraints do not show in what bytes stand for. -/
theorem decodes_unconstrained {G : Guard} {α : Type} (s : Schema α) :
    Decodes G (unconstrained s) = Decodes G s := by
  induction s using @Schema.rec _
    (fun α fs => DecodesFields G (unconstrainedFields fs) = DecodesFields G fs) with
  | array s n ih =>
      funext rs v rs'
      rw [unconstrained, Decodes, Decodes, ih]
  | spContainer s ih =>
      funext rs v rs'
      rw [unconstrained, Decodes, Decodes, ih]
  | optional s ih =>
      funext rs v rs'
      rw [unconstrained, Decodes, Decodes, ih]
  | constrained s cs ih =>
      funext rs v rs'
      rw [unconstrained, ih, Decodes]
  | struct holder fs ih =>
      funext rs v rs'
      rw [unconstrained, Decodes, Decodes, ih]
  | last name init s ih =>
      funext rs v rs'
      rw [unconstrainedFields, DecodesFields, DecodesFields, ih]
  | cons name init s fs ih ihfs =>
      funext rs v rs'
      rw [unconstrainedFields, DecodesFields, DecodesFields, ih, ihfs]
  | _ => rfl

/-! ## Where a constraint refuses -/

/-- The elements before the first one whose constraints do not hold are read. -/
theorem exists_failing_element {G : Guard} {α : Type} {s : Schema α}
    (ih : ∀ t w rs rs', Decodes G s rs w rs' → ¬ Satisfied s t w →
      ∃ path, FailsAt G s t rs path .constraintNotSatisfied)
    {rs rs' : ReadStream} {l : List α} (h : Chain (Decodes G s) rs l rs')
    (hl : ¬ ∀ x ∈ l, Satisfied s (fresh s) x) :
    ∃ path xs rs₁, xs.length < l.length ∧ Chain (Returns G s) rs xs rs₁ ∧
      FailsAt G s (fresh s) rs₁ path .constraintNotSatisfied := by
  induction h with
  | nil rs => exact absurd (fun x hx => absurd hx List.not_mem_nil) hl
  | @cons rs rs₁ rs₂ x l hx _ ihl =>
      by_cases hsat : Satisfied s (fresh s) x
      · have hrest : ¬ ∀ y ∈ l, Satisfied s (fresh s) y :=
          fun hall => hl (List.forall_mem_cons.mpr ⟨hsat, hall⟩)
        obtain ⟨path, xs, rs₃, hlen, hchain, hfails⟩ := ihl hrest
        have hread : Returns G s rs (merge s (fresh s) x) rs₁ :=
          (read_ok_iff_decodes _ _ _ _).mpr ⟨x, hx, hsat, rfl⟩
        exact ⟨path, merge s (fresh s) x :: xs, rs₃, Nat.succ_lt_succ hlen, .cons hread hchain,
          hfails⟩
      · obtain ⟨path, hfails⟩ := ih _ x rs rs₁ hx hsat
        exact ⟨path, [], rs, Nat.succ_pos _, .nil rs, hfails⟩

/-- A read of bytes that stand for a value fails at a constraint that does not hold. -/
theorem failsAt_of_not_satisfied {G : Guard} {α : Type} {s : Schema α} (t w : α)
    (rs rs' : ReadStream) (hw : Decodes G s rs w rs') (hsat : ¬ Satisfied s t w) :
    ∃ path, FailsAt G s t rs path .constraintNotSatisfied := by
  induction s using @Schema.rec _
    (fun _ fs => ∀ holder t w rs rs', DecodesFields G fs rs w rs' → ¬ SatisfiedFields fs t w →
      ∃ path, FieldsFailAt G holder fs t rs path .constraintNotSatisfied)
    generalizing rs rs' with
  | array s n ih =>
      obtain ⟨path, xs, rs₁, hlen, hchain, hfails⟩ := exists_failing_element ih hw hsat
      rw [w.toList_length] at hlen
      exact ⟨path, xs, rs₁, hlen, hchain, hfails⟩
  | spContainer s ih =>
      obtain ⟨rs₁, hcount, helems⟩ := hw
      obtain ⟨path, xs, rs₂, hlen, hchain, hfails⟩ := exists_failing_element ih helems hsat
      exact ⟨path, .inr ⟨_, rs₁, xs, rs₂, hcount, hlen, hchain, hfails⟩⟩
  | optional s ih =>
      rcases hw with ⟨-, rfl, -⟩ | ⟨-, -, rfl⟩ | ⟨rs₁, has, x, hcan, hflag, hset, hx, rfl⟩
      · exact absurd (fun x hx => by cases hx) hsat
      · exact absurd (fun x hx => by cases hx) hsat
      · have hpayload : ¬ Satisfied s (fresh s) x := by
          intro hx
          apply hsat
          intro y hy
          cases hy
          exact hx
        obtain ⟨path, hfails⟩ := ih _ x rs₁ rs' hx hpayload
        exact ⟨path, has, rs₁, hcan, hflag, hset, hfails⟩
  | constrained s cs ih =>
      by_cases hinner : Satisfied s t w
      · have hcs : cs.all (fun check => check (merge s t w)) = false :=
          Bool.eq_false_iff.mpr fun hcs => hsat ⟨hinner, hcs⟩
        have hread : read G s t rs = .ok (merge s t w) rs' :=
          (read_ok_iff_decodes t rs _ rs').mpr ⟨w, hw, hinner, rfl⟩
        exact ⟨[], .inr ⟨rfl, rfl, merge s t w, rs', hread, hcs⟩⟩
      · obtain ⟨path, hfails⟩ := ih t w rs rs' hw hinner
        exact ⟨path, .inl hfails⟩
  | struct holder fs ih => exact ih holder t w rs rs' hw hsat
  | last name init s ih holder t w rs rs' hw hsat =>
      obtain ⟨path, hfails⟩ := ih t w rs rs' hw hsat
      exact ⟨⟨holder, name⟩ :: path, path, rfl, hfails⟩
  | cons name init s fs ih ihfs holder t w rs rs' hw hsat =>
      obtain ⟨rs₁, hfirst, hrest⟩ := hw
      by_cases hinner : Satisfied s t.1 w.1
      · obtain ⟨path, hfails⟩ := ihfs holder t.2 w.2 rs₁ rs' hrest fun h => hsat ⟨hinner, h⟩
        have hread := (read_ok_iff_decodes t.1 rs _ rs₁).mpr ⟨w.1, hfirst, hinner, rfl⟩
        exact ⟨path, .inr ⟨_, rs₁, hread, hfails⟩⟩
      · obtain ⟨path, hfails⟩ := ih t.1 w.1 rs rs₁ hfirst hinner
        exact ⟨⟨holder, name⟩ :: path, .inl ⟨path, rfl, hfails⟩⟩
  | _ => exact absurd trivial hsat

/-! ## Two ends with different constraints -/

/-- Two types that differ in their constraints only have the same bytes. What a reader of one
of them returns, a reader of the other returns as well when its constraints hold of it; when
they do not, it throws at a constraint, and the text of the exception has the fields around
it. -/
theorem constraints_only_refuse {α : Type} {s s' : Schema α}
    (hsame : unconstrained s = unconstrained s') :
    (∀ uninit v, written uninit s' v = written uninit s v) ∧
      ∀ target rs v rs₁, read canReadNum s target rs = .ok v rs₁ →
        ∃ w, Decodes canReadNum s rs w rs₁ ∧ v = merge s target w ∧
          ((Satisfied s' target w ∧ read canReadNum s' target rs = .ok v rs₁) ∨
            (¬ Satisfied s' target w ∧
              ∃ path, FailsAt canReadNum s' target rs path .constraintNotSatisfied ∧
                ∃ rs₂, read canReadNum s' target rs =
                  .error (.exception (errorText path .constraintNotSatisfied)) rs₂)) := by
  constructor
  · intro uninit v
    rw [written, written, ← write_unconstrained, ← hsame, write_unconstrained]
  · intro target rs v rs₁ hread
    obtain ⟨w, hdecodes, -, hv⟩ := (read_ok_iff_decodes target rs v rs₁).mp hread
    have hdecodes' : Decodes canReadNum s' rs w rs₁ := by
      rw [← decodes_unconstrained, ← hsame, decodes_unconstrained]
      exact hdecodes
    have hv' : v = merge s' target w := by
      rw [hv, ← merge_unconstrained, hsame, merge_unconstrained]
    refine ⟨w, hdecodes, hv, ?_⟩
    by_cases hsatisfied : Satisfied s' target w
    · exact Or.inl ⟨hsatisfied,
        (read_ok_iff_decodes target rs v rs₁).mpr ⟨w, hdecodes', hsatisfied, hv'⟩⟩
    · obtain ⟨path, hfails⟩ := failsAt_of_not_satisfied target w rs rs₁ hdecodes' hsatisfied
      have hthrows := (read_exception_iff_throws s' target rs _).mpr ⟨path, _, hfails, rfl⟩
      exact Or.inr ⟨hsatisfied, path, hfails, hthrows⟩

/-- `constrained<sp_string, max_container_size<N>>` -/
def boundedName (N : ℕ) : Schema Text :=
  .constrained .spString [fun name => maxContainerSize N name.length]

/-- A name of two bytes is refused where one is allowed. -/
theorem constraints_only_refuse_name :
    ∃ path, FailsAt canReadNum (boundedName 1) [] (ofBytes [2, 0, 0, 0, 65, 66, 0] (by decide))
        path .constraintNotSatisfied ∧
      ∃ rs₂, read canReadNum (boundedName 1) [] (ofBytes [2, 0, 0, 0, 65, 66, 0] (by decide)) =
        .error (.exception (errorText path .constraintNotSatisfied)) rs₂ := by
  have hread : read canReadNum (boundedName 2) [] (ofBytes [2, 0, 0, 0, 65, 66, 0] (by decide)) =
      .ok (text "AB") ((ofBytes [2, 0, 0, 0, 65, 66, 0] (by decide)).advance 7) := by
    simp only [boundedName, read]
    rfl
  have hsame : unconstrained (boundedName 2) = unconstrained (boundedName 1) := rfl
  obtain ⟨w, -, hw, hrefused⟩ := (constraints_only_refuse hsame).2 [] _ _ _ hread
  rcases hrefused with ⟨hsatisfied, -⟩ | ⟨-, hthrows⟩
  · have hlong : maxContainerSize 1 (text "AB").length = true := by
      rw [hw]
      simpa [Satisfied, boundedName, merge] using hsatisfied
    exact absurd hlong (by decide)
  · exact hthrows

end BacsEnv.Plakpacs
