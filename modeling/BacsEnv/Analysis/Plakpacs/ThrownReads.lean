import BacsEnv.Analysis.Bpacs.IterateObject
import BacsEnv.Analysis.Plakpacs.ErrorTexts
import BacsEnv.Analysis.Plakpacs.Registered
import BacsEnv.Model.Plakpacs.InPlace

/-!
# What an exception of `serializer::read` leaves

A read in place ends like one that returns the object (`settle_readInto`). When it throws,
`LeavesAt` says what has become of the object by then, for the same places and causes as
`FailsAt`: the members in front of the field that failed were read, and those behind it are as
they were.
-/

set_option autoImplicit false

namespace BacsEnv.Plakpacs

open Bpacs InPlace StatefulRun ReadStream ErrorPath

variable {G : Guard}

/-! ## In place or not -/

theorem settle_readStringLoopInto (fuel : ℕ) (value : Text) :
    settle (readStringLoopInto G fuel) value = readStringLoop G fuel value := by
  induction fuel generalizing value with
  | zero => rfl
  | succ fuel ih =>
      rw [readStringLoopInto, readStringLoop, settle_bind_beside]
      congr 1
      funext c
      by_cases hc : c = 0
      · rw [if_pos hc, if_pos hc]
        rfl
      · rw [if_neg hc, if_neg hc, settle_bind, settle_update]
        exact ih (value ++ [c])

theorem settle_readStringInto (value : Text) :
    settle (readStringInto G) value = readString G value := by
  funext rs
  show settle (readStringLoopInto G (rs.bytes.length - rs.position + 1)) value rs = _
  rw [settle_readStringLoopInto]
  rfl

theorem settle_checkInto {α : Type} (cs : List (α → Bool)) (value : α) :
    settle (checkInto cs) value =
      if cs.all (fun check => check value) then pure value
      else throw (.exception constraintNotSatisfied) := by
  funext rs
  unfold settle checkInto
  by_cases hcs : cs.all (fun check => check value) = true
  · simp only [hcs, if_true]
    rfl
  · simp only [hcs]
    rfl

theorem settle_inFieldInto {α : Type} (holder name : Text) (x : IntoM α Unit) (target : α) :
    settle (inFieldInto holder name x) target = inField holder name (settle x target) := by
  funext rs
  unfold settle inFieldInto inField
  cases hx : x (target, rs) with
  | ok u s => simp only [hx]
  | error e s => cases e <;> simp only [hx]

/-- A read in place leaves the object that a read returns. -/
theorem settle_readInto {α : Type} (s : Schema α) (target : α) :
    settle (readInto G s) target = read G s target := by
  induction s using @Schema.rec _ (fun α fs => ∀ (holder : Text) (target : α),
      settle (readObjectInto G holder fs) target = readObject G holder fs target) with
  | scalar w size =>
      rw [readInto, settle_bind_beside, read]
      exact bind_pure _
  | bool =>
      rw [readInto, settle_bind_beside, read]
      exact bind_pure _
  | empty => rw [readInto, settle_update, read]
  | string => rw [readInto, settle_readStringInto, read]
  | array s n ih => rw [readInto, settle_through, settle_repeatInto, read]
  | spContainer s ih =>
      rw [readInto, settle_bind_beside, read]
      simp only [settle_repeatInto]
  | spString =>
      rw [readInto, settle_bind_beside, read]
      simp only [settle_bind, settle_repeatInto, settle_bind_beside, settle_pure]
  | optional s ih =>
      rw [readInto, settle_bind_beside, read]
      congr 1
      funext rs
      cases canRead G rs with
      | false => rfl
      | true =>
          rw [if_pos rfl, if_pos rfl, settle_bind_beside]
          congr 1
          funext has
          cases has != 0 with
          | false => rfl
          | true =>
              rw [if_pos rfl, if_pos rfl, settle_bind_beside]
              simp only [settle_update]
  | constrained s cs ih =>
      rw [readInto, settle_bind, ih target, read]
      simp only [settle_checkInto]
  | struct holder fs ih => rw [readInto, ih holder target, read]
  | last name init s ih holder target => rw [readObjectInto, settle_inFieldInto, ih target, readObject]
  | cons name init s fs ih ihfs holder target =>
      rw [readObjectInto, settle_inTurn, settle_inFieldInto, ih target.1, ihfs holder target.2]
      rfl

/-! ## What is left -/

variable (G)

mutual

/-- A read of `target` in place fails for a cause, inside the fields of a path, and leaves
`left`. A container has the elements that were read behind those it had, and a value whose
constraint does not hold is left as it was read. -/
def LeavesAt {α : Type} : Schema α → α → ReadStream → List Place → Cause → α → Prop
  | .string, target, rs, path, cause, left =>
      path = [] ∧ cause = .pastTheEnd ∧ ∃ cs rs₁,
        Chain (fun rs c rs' => readChar G rs = .ok c rs' ∧ c ≠ 0) rs cs rs₁ ∧ G rs₁ 1 = false ∧
          left = target ++ cs
  | .array s n, target, rs, path, cause, left =>
      ∃ xs rs₁, xs.length < n ∧ Chain (Returns G s) rs xs rs₁ ∧
        FailsAt G s (fresh s) rs₁ path cause ∧ left.toList = xs ++ target.toList.drop xs.length
  | .spContainer s, target, rs, path, cause, left =>
      (path = [] ∧ CountFails G rs cause ∧ left = target) ∨
        ∃ size rs₁ xs rs₂, readCount G rs = .ok size rs₁ ∧ xs.length < size ∧
          Chain (Returns G s) rs₁ xs rs₂ ∧ FailsAt G s (fresh s) rs₂ path cause ∧
            left = target ++ xs
  | .spString, target, rs, path, cause, left =>
      path = [] ∧ (CountFails G rs cause ∧ left = target ∨
        cause = .pastTheEnd ∧ ∃ size rs₁ cs rs₂, readCount G rs = .ok size rs₁ ∧
          cs.length ≤ size ∧ Chain (fun rs c rs' => readChar G rs = .ok c rs') rs₁ cs rs₂ ∧
            G rs₂ 1 = false ∧ left = target ++ cs)
  | .constrained s cs, target, rs, path, cause, left =>
      LeavesAt s target rs path cause left ∨
        path = [] ∧ cause = .constraintNotSatisfied ∧ ∃ rs₁, read G s target rs = .ok left rs₁ ∧
          cs.all (fun check => check left) = false
  | .struct holder fs, target, rs, path, cause, left =>
      FieldsLeaveAt holder fs target rs path cause left
  | .scalar w size, target, rs, path, cause, left =>
      FailsAt G (.scalar w size) target rs path cause ∧ left = target
  | .bool, target, rs, path, cause, left => FailsAt G .bool target rs path cause ∧ left = target
  | .empty, _, _, _, _, _ => False
  | .optional s, target, rs, path, cause, left =>
      FailsAt G (.optional s) target rs path cause ∧ left = target

/-- The fields in front of the one that fails hold what was read, and those behind it what
they held. -/
def FieldsLeaveAt (holder : Text) {α : Type} :
    Fields α → α → ReadStream → List Place → Cause → α → Prop
  | .last name _ s, target, rs, path, cause, left =>
      ∃ rest, path = ⟨holder, name⟩ :: rest ∧ LeavesAt s target rs rest cause left
  | .cons name _ s fs, target, rs, path, cause, left =>
      (∃ rest, path = ⟨holder, name⟩ :: rest ∧ LeavesAt s target.1 rs rest cause left.1 ∧
          left.2 = target.2) ∨
        ∃ rs₁, read G s target.1 rs = .ok left.1 rs₁ ∧
          FieldsLeaveAt holder fs target.2 rs₁ path cause left.2

end

/-- A read in place throws a text and leaves an object. -/
def ThrowsLeaving {α : Type} (s : Schema α) (target : α) (rs : ReadStream) (what : Text)
    (left : α) : Prop :=
  ∃ path cause, LeavesAt G s target rs path cause left ∧ what = errorText path cause

/-- A read of fields in place throws a text and leaves an object. -/
def FieldsThrowLeaving (holder : Text) {α : Type} (fs : Fields α) (target : α)
    (rs : ReadStream) (what : Text) (left : α) : Prop :=
  ∃ path cause, FieldsLeaveAt G holder fs target rs path cause left ∧ what = errorText path cause

variable {G} {what : Text} {rs : ReadStream}

/-! ## The walkers -/

theorem update_ne_error {τ : Type} {f : τ → τ} {e : ReadError} {s s' : τ × ReadStream} :
    (update f : IntoM τ Unit) s ≠ .error e s' := by
  intro h
  cases h

/-- The `catch` clause leaves the object to the read. -/
theorem inFieldInto_exception_iff {α : Type} {holder name : Text} {x : IntoM α Unit}
    {s s' : α × ReadStream} :
    inFieldInto holder name x s = .error (.exception what) s' ↔
      ∃ inner, x s = .error (.exception inner) s' ∧
        what = text "plakpacs::serializer.read_object: field '" ++ holder ++ text "." ++ name ++
          text "' caught exception - " ++ inner := by
  unfold inFieldInto
  cases hx : x s with
  | ok u s₁ => simp
  | error e s₁ =>
      cases e with
      | exception inner =>
          simp only [EStateM.Result.error.injEq, ReadError.exception.injEq]
          constructor
          · rintro ⟨rfl, rfl⟩
            exact ⟨inner, ⟨rfl, rfl⟩, rfl⟩
          · rintro ⟨inner', ⟨rfl, rfl⟩, rfl⟩
            exact ⟨rfl, rfl⟩
      | outOfBounds i => simp
      | diverges => simp

/-- A string that ends too early has its characters. -/
theorem readStringLoopInto_exception_iff {fuel : ℕ} {target left : Text} {rs' : ReadStream} :
    readStringLoopInto G fuel (target, rs) = .error (.exception what) (left, rs') ↔
      what = pastTheEnd ∧ ∃ cs : Text, cs.length < fuel ∧
        Chain (fun rs c rs' => readChar G rs = .ok c rs' ∧ c ≠ 0) rs cs rs' ∧ G rs' 1 = false ∧
          left = target ++ cs := by
  induction fuel generalizing target rs with
  | zero =>
      constructor
      · intro h
        cases h
      · rintro ⟨-, cs, hlen, -⟩
        exact (Nat.not_lt_zero _ hlen).elim
  | succ fuel ih =>
      rw [readStringLoopInto, bind_error_iff, beside_error_iff, readChar_exception_iff]
      constructor
      · rintro (⟨⟨hG, rfl, rfl⟩, rfl⟩ | ⟨c, ⟨value, rs₁⟩, hchar, h⟩)
        · exact ⟨rfl, [], Nat.succ_pos _, .nil _, hG, (List.append_nil _).symm⟩
        · obtain ⟨hchar, rfl⟩ := beside_ok_iff.mp hchar
          by_cases hc : c = 0
          · rw [if_pos hc] at h
            cases h
          · rw [if_neg hc] at h
            obtain ⟨rfl, cs, hlen, hchain, hG, rfl⟩ := ih.mp h
            refine ⟨rfl, c :: cs, Nat.succ_lt_succ hlen, .cons ⟨hchar, hc⟩ hchain, hG, ?_⟩
            rw [List.append_assoc, List.singleton_append]
      · rintro ⟨rfl, cs, hlen, hchain, hG, rfl⟩
        cases hchain with
        | nil => exact Or.inl ⟨⟨hG, rfl, rfl⟩, List.append_nil _⟩
        | @cons _ rs₁ _ c cs hc hchain =>
            refine Or.inr ⟨c, (target, rs₁), beside_ok_iff.mpr ⟨hc.1, rfl⟩, ?_⟩
            rw [if_neg hc.2]
            refine ih.mpr ⟨rfl, cs, Nat.lt_of_succ_lt_succ hlen, hchain, hG, ?_⟩
            rw [List.append_assoc, List.singleton_append]

theorem readStringInto_exception_iff {target left : Text} :
    (∃ rs', readInto G .string (target, rs) = .error (.exception what) (left, rs')) ↔
      ThrowsLeaving G .string target rs what left := by
  simp only [readInto, readStringInto, readStringLoopInto_exception_iff]
  constructor
  · rintro ⟨rs', rfl, cs, -, hchain, hG, rfl⟩
    exact ⟨[], .pastTheEnd, ⟨rfl, rfl, cs, rs', hchain, hG, rfl⟩, rfl⟩
  · rintro ⟨path, cause, ⟨rfl, rfl, cs, rs', hchain, hG, rfl⟩, rfl⟩
    exact ⟨rs', rfl, cs, length_lt_of_chain hchain, hchain, hG, rfl⟩

/-- A read in place throws when a read does. -/
theorem exists_readInto_exception_iff {α : Type} {s : Schema α} {target : α} :
    (∃ left rs', readInto G s (target, rs) = .error (.exception what) (left, rs')) ↔
      Throws G s target rs what := by
  rw [← read_exception_iff_throws s target rs what, ← settle_readInto]
  simp only [settle_error_iff]
  exact exists_comm

/-- A walker that only assigns to its object at the end leaves it alone. -/
theorem readInto_exception_iff_of_untouched {α : Type} {s : Schema α} {target left : α}
    (huntouched : ∀ left rs', readInto G s (target, rs) = .error (.exception what) (left, rs') →
      left = target) :
    (∃ rs', readInto G s (target, rs) = .error (.exception what) (left, rs')) ↔
      ∃ path cause, (FailsAt G s target rs path cause ∧ left = target) ∧
        what = errorText path cause := by
  constructor
  · rintro ⟨rs', h⟩
    obtain ⟨path, cause, hfails, rfl⟩ := exists_readInto_exception_iff.mp ⟨left, rs', h⟩
    exact ⟨path, cause, ⟨hfails, huntouched left rs' h⟩, rfl⟩
  · rintro ⟨path, cause, ⟨hfails, rfl⟩, rfl⟩
    obtain ⟨left', rs', h⟩ := exists_readInto_exception_iff.mpr ⟨path, cause, hfails, rfl⟩
    obtain rfl := huntouched left' rs' h
    exact ⟨rs', h⟩

/-- What is read beside the object and assigned to it does not touch it before. -/
theorem untouched_of_beside {α β : Type} {m : ReadM α} {f : α → β → β} {target left : β}
    {rs' : ReadStream}
    (h : (beside m >>= fun a => update (f a) : IntoM β Unit) (target, rs) =
      .error (.exception what) (left, rs')) : left = target := by
  rw [bind_error_iff, beside_error_iff] at h
  rcases h with ⟨-, hleft⟩ | ⟨a, s₁, -, hupdate⟩
  · exact hleft
  · exact (update_ne_error hupdate).elim

/-- The value of an optional is read into a variable of its own. -/
theorem untouched_optional {α : Type} {s : Schema α} {target left : Option α} {rs' : ReadStream}
    (h : readInto G (.optional s) (target, rs) = .error (.exception what) (left, rs')) :
    left = target := by
  rw [readInto, bind_error_iff, beside_error_iff] at h
  rcases h with ⟨-, hleft⟩ | ⟨rs₀, ⟨target₀, rs₁⟩, hget, h⟩
  · exact hleft
  · obtain ⟨-, rfl⟩ := beside_ok_iff.mp hget
    split at h
    · rw [bind_error_iff, beside_error_iff] at h
      rcases h with ⟨-, hleft⟩ | ⟨has, ⟨target₁, rs₂⟩, hflag, h⟩
      · exact hleft
      · obtain ⟨-, rfl⟩ := beside_ok_iff.mp hflag
        split at h
        · exact untouched_of_beside h
        · cases h
    · cases h

/-- An element of a loop throws, and what was appended before stays. -/
theorem repeatInto_read_exception_iff {α γ : Type} {s : Schema α} {append : γ → α → γ} {n : ℕ}
    {target left : γ} :
    (∃ rs', repeatInto (read G s (fresh s)) append n (target, rs) =
        .error (.exception what) (left, rs')) ↔
      ∃ xs rs₁, xs.length < n ∧ Chain (Returns G s) rs xs rs₁ ∧ Throws G s (fresh s) rs₁ what ∧
        left = xs.foldl append target := by
  simp only [repeatInto_error_iff]
  constructor
  · rintro ⟨rs', xs, rs₁, hlen, hchain, herror, hleft⟩
    have hthrows := (read_exception_iff_throws s (fresh s) rs₁ what).mp ⟨rs', herror⟩
    exact ⟨xs, rs₁, hlen, hchain, hthrows, hleft⟩
  · rintro ⟨xs, rs₁, hlen, hchain, hthrows, hleft⟩
    obtain ⟨rs', herror⟩ := (read_exception_iff_throws s (fresh s) rs₁ what).mpr hthrows
    exact ⟨rs', xs, rs₁, hlen, hchain, herror, hleft⟩

/-- The elements that were assigned stand in front of those that were not. -/
theorem toList_foldl_append_of_lt {α : Type} {n : ℕ} {xs : List α} (h : xs.length < n)
    (target : List.Vector α n) :
    (xs.foldl FixedAppender.append { container := target }).container.toList =
      xs ++ target.toList.drop xs.length := by
  rw [FixedAppender.toList_foldl_append xs _ (Nat.zero_le n)]
  simp [List.take_of_length_le h.le]

/-- An element of an array throws behind those that were assigned. -/
theorem readInto_array_exception_iff {α : Type} {s : Schema α} {n : ℕ}
    {target left : List.Vector α n} :
    (∃ rs', readInto G (.array s n) (target, rs) = .error (.exception what) (left, rs')) ↔
      ThrowsLeaving G (.array s n) target rs what left := by
  have hloop : (∃ rs', readInto G (.array s n) (target, rs) =
        .error (.exception what) (left, rs')) ↔
      ∃ a : FixedAppender α n, (∃ rs', repeatInto (read G s (fresh s)) FixedAppender.append n
          ({ container := target }, rs) = .error (.exception what) (a, rs')) ∧
        left = a.container := by
    simp only [readInto, through_error_iff]
    constructor
    · rintro ⟨rs', a, h, hleft⟩
      exact ⟨a, ⟨rs', h⟩, hleft⟩
    · rintro ⟨a, ⟨rs', h⟩, hleft⟩
      exact ⟨rs', a, h, hleft⟩
  simp only [hloop, repeatInto_read_exception_iff]
  constructor
  · rintro ⟨a, ⟨xs, rs₁, hlen, hchain, ⟨path, cause, hfails, rfl⟩, rfl⟩, rfl⟩
    exact ⟨path, cause, ⟨xs, rs₁, hlen, hchain, hfails, toList_foldl_append_of_lt hlen target⟩, rfl⟩
  · rintro ⟨path, cause, ⟨xs, rs₁, hlen, hchain, hfails, hleft⟩, rfl⟩
    refine ⟨_, ⟨xs, rs₁, hlen, hchain, ⟨path, cause, hfails, rfl⟩, rfl⟩, ?_⟩
    exact List.Vector.toList_injective (hleft.trans (toList_foldl_append_of_lt hlen target).symm)

/-- The size prefix of a container throws, or one of its elements does. -/
theorem readInto_spContainer_exception_iff {α : Type} {s : Schema α} {target left : List α} :
    (∃ rs', readInto G (.spContainer s) (target, rs) = .error (.exception what) (left, rs')) ↔
      ThrowsLeaving G (.spContainer s) target rs what left := by
  simp only [readInto, bind_error_iff, beside_error_iff]
  constructor
  · rintro ⟨rs', ⟨hcount, rfl⟩ | ⟨size, ⟨target, rs₁⟩, hcount, helements⟩⟩
    · obtain ⟨cause, hfails, rfl⟩ := readCount_exception_iff.mp ⟨rs', hcount⟩
      exact ⟨[], cause, Or.inl ⟨rfl, hfails, rfl⟩, rfl⟩
    · obtain ⟨hcount, rfl⟩ := beside_ok_iff.mp hcount
      obtain ⟨xs, rs₂, hlen, hchain, ⟨path, cause, hfails, rfl⟩, rfl⟩ :=
        repeatInto_read_exception_iff.mp ⟨rs', helements⟩
      refine ⟨path, cause, Or.inr ⟨size, rs₁, xs, rs₂, hcount, hlen, hchain, hfails, ?_⟩, rfl⟩
      exact foldl_pushBack xs target
  · rintro ⟨path, cause, ⟨rfl, hfails, rfl⟩ |
      ⟨size, rs₁, xs, rs₂, hcount, hlen, hchain, hfails, rfl⟩, rfl⟩
    · obtain ⟨rs', hcount⟩ := readCount_exception_iff.mpr ⟨cause, hfails, rfl⟩
      exact ⟨rs', Or.inl ⟨hcount, rfl⟩⟩
    · obtain ⟨rs', helements⟩ := repeatInto_read_exception_iff.mpr
        ⟨xs, rs₂, hlen, hchain, ⟨path, cause, hfails, rfl⟩, (foldl_pushBack xs target).symm⟩
      exact ⟨rs', Or.inr ⟨size, (target, rs₁), beside_ok_iff.mpr ⟨hcount, rfl⟩, helements⟩⟩

/-- A loop that returns leaves what it appended. -/
theorem repeatInto_ok_iff {α γ : Type} {step : ReadM α} {append : γ → α → γ} {n : ℕ}
    {target left : γ} {rs' : ReadStream} :
    repeatInto step append n (target, rs) = .ok () (left, rs') ↔
      ∃ as : List α, as.length = n ∧ Chain (fun rs a rs₁ => step rs = .ok a rs₁) rs as rs' ∧
        left = as.foldl append target := by
  rw [← settle_ok_iff, settle_repeatInto, repeatAppend_ok_iff]

/-- The characters of an `sp_string`, then its terminator. -/
theorem charsInto_exception_iff {size : ℕ} {target left : Text} :
    (∃ rs', (repeatInto (readChar G) pushBack size >>= fun _ =>
        beside (readChar G) >>= fun _ => (pure () : IntoM Text Unit)) (target, rs) =
          .error (.exception what) (left, rs')) ↔
      what = pastTheEnd ∧ ∃ cs rs₁, cs.length ≤ size ∧
        Chain (fun rs c rs' => readChar G rs = .ok c rs') rs cs rs₁ ∧ G rs₁ 1 = false ∧
          left = target ++ cs := by
  constructor
  · rintro ⟨rs', h⟩
    rcases bind_error_iff.mp h with h | ⟨_, ⟨target', rs₁⟩, hchars, h⟩
    · obtain ⟨cs, rs₁, hlen, hchain, herror, rfl⟩ := repeatInto_error_iff.mp h
      obtain ⟨hG, rfl, -⟩ := readChar_exception_iff.mp herror
      exact ⟨rfl, cs, rs₁, hlen.le, hchain, hG, foldl_pushBack cs target⟩
    · obtain ⟨cs, hlen, hchain, rfl⟩ := repeatInto_ok_iff.mp hchars
      rcases bind_error_iff.mp h with h | ⟨c, s, -, hpure⟩
      · obtain ⟨herror, hleft⟩ := beside_error_iff.mp h
        obtain ⟨hG, rfl, -⟩ := readChar_exception_iff.mp herror
        exact ⟨rfl, cs, rs₁, hlen.le, hchain, hG, hleft.trans (foldl_pushBack cs target)⟩
      · cases hpure
  · rintro ⟨rfl, cs, rs₁, hlen, hchain, hG, rfl⟩
    have herror := readChar_exception_iff.mpr ⟨hG, rfl, rfl⟩
    refine ⟨rs₁, bind_error_iff.mpr ?_⟩
    rcases Nat.lt_or_eq_of_le hlen with hlt | heq
    · exact Or.inl (repeatInto_error_iff.mpr
        ⟨cs, rs₁, hlt, hchain, herror, (foldl_pushBack cs target).symm⟩)
    · refine Or.inr ⟨(), (target ++ cs, rs₁), ?_, ?_⟩
      · exact repeatInto_ok_iff.mpr ⟨cs, heq, hchain, (foldl_pushBack cs target).symm⟩
      · exact bind_error_iff.mpr (Or.inl (beside_error_iff.mpr ⟨herror, rfl⟩))

/-- A character of an `sp_string` is missing, or its terminator is. -/
theorem readInto_spString_exception_iff {target left : Text} :
    (∃ rs', readInto G .spString (target, rs) = .error (.exception what) (left, rs')) ↔
      ThrowsLeaving G .spString target rs what left := by
  rw [readInto]
  constructor
  · rintro ⟨rs', h⟩
    rcases bind_error_iff.mp h with hcount | ⟨size, ⟨target', rs₁⟩, hcount, hchars⟩
    · obtain ⟨hcount, hleft⟩ := beside_error_iff.mp hcount
      obtain ⟨cause, hfails, rfl⟩ := readCount_exception_iff.mp ⟨rs', hcount⟩
      exact ⟨[], cause, ⟨rfl, Or.inl ⟨hfails, hleft⟩⟩, rfl⟩
    · obtain ⟨hcount, htarget⟩ := beside_ok_iff.mp hcount
      obtain rfl : target' = target := htarget
      obtain ⟨rfl, cs, rs₂, hlen, hchain, hG, hleft⟩ := charsInto_exception_iff.mp ⟨rs', hchars⟩
      exact ⟨[], .pastTheEnd,
        ⟨rfl, Or.inr ⟨rfl, size, rs₁, cs, rs₂, hcount, hlen, hchain, hG, hleft⟩⟩, rfl⟩
  · rintro ⟨path, cause, ⟨rfl, ⟨hfails, rfl⟩ |
      ⟨rfl, size, rs₁, cs, rs₂, hcount, hlen, hchain, hG, hleft⟩⟩, rfl⟩
    · obtain ⟨rs', hcount⟩ := readCount_exception_iff.mpr ⟨cause, hfails, rfl⟩
      exact ⟨rs', bind_error_iff.mpr (Or.inl (beside_error_iff.mpr ⟨hcount, rfl⟩))⟩
    · obtain ⟨rs', h⟩ := charsInto_exception_iff.mpr ⟨rfl, cs, rs₂, hlen, hchain, hG, hleft⟩
      exact ⟨rs', bind_error_iff.mpr
        (Or.inr ⟨size, (target, rs₁), beside_ok_iff.mpr ⟨hcount, rfl⟩, h⟩)⟩

/-- The value of a constrained type throws, or a constraint does not hold of what was read. -/
theorem readInto_constrained_exception_iff {α : Type} {s : Schema α} {cs : List (α → Bool)}
    {target left : α}
    (ih : (∃ rs', readInto G s (target, rs) = .error (.exception what) (left, rs')) ↔
      ThrowsLeaving G s target rs what left) :
    (∃ rs', readInto G (.constrained s cs) (target, rs) = .error (.exception what) (left, rs')) ↔
      ThrowsLeaving G (.constrained s cs) target rs what left := by
  rw [readInto]
  constructor
  · rintro ⟨rs', h⟩
    rcases bind_error_iff.mp h with h | ⟨_, ⟨v, rs₁⟩, hvalue, h⟩
    · obtain ⟨path, cause, hleaves, rfl⟩ := ih.mp ⟨rs', h⟩
      exact ⟨path, cause, Or.inl hleaves, rfl⟩
    · rw [← settle_ok_iff, settle_readInto] at hvalue
      unfold checkInto at h
      by_cases hcs : cs.all (fun check => check v) = true
      · rw [if_pos hcs] at h
        cases h
      · rw [if_neg hcs] at h
        obtain ⟨hwhat, hstate⟩ := EStateM.Result.error.inj h
        obtain rfl := ReadError.exception.inj hwhat
        obtain ⟨rfl, rfl⟩ := Prod.mk.inj hstate
        exact ⟨[], .constraintNotSatisfied,
          Or.inr ⟨rfl, rfl, rs₁, hvalue, Bool.eq_false_iff.mpr hcs⟩, rfl⟩
  · rintro ⟨path, cause, hleaves | ⟨rfl, rfl, rs₁, hvalue, hcs⟩, rfl⟩
    · obtain ⟨rs', h⟩ := ih.mpr ⟨path, cause, hleaves, rfl⟩
      exact ⟨rs', bind_error_iff.mpr (Or.inl h)⟩
    · rw [← settle_readInto, settle_ok_iff] at hvalue
      refine ⟨rs₁, bind_error_iff.mpr (Or.inr ⟨(), (left, rs₁), hvalue, ?_⟩)⟩
      unfold checkInto
      rw [if_neg (Bool.eq_false_iff.mp hcs)]
      rfl

theorem inFieldInto_readInto_ok_iff {α : Type} {holder name : Text} {s : Schema α}
    {target left : α} {rs' : ReadStream} :
    inFieldInto holder name (readInto G s) (target, rs) = .ok () (left, rs') ↔
      read G s target rs = .ok left rs' := by
  rw [← settle_ok_iff, settle_inFieldInto, settle_readInto, inField_ok_iff]

/-- A field throws inside the `catch` clause of its object. -/
theorem inFieldInto_readInto_exception_iff {α : Type} {holder name : Text} {s : Schema α}
    {target left : α}
    (ih : ∀ inner, (∃ rs', readInto G s (target, rs) = .error (.exception inner) (left, rs')) ↔
      ThrowsLeaving G s target rs inner left) :
    (∃ rs', inFieldInto holder name (readInto G s) (target, rs) =
        .error (.exception what) (left, rs')) ↔
      ∃ path cause, (∃ rest, path = ⟨holder, name⟩ :: rest ∧
        LeavesAt G s target rs rest cause left) ∧ what = errorText path cause := by
  simp only [inFieldInto_exception_iff]
  constructor
  · rintro ⟨rs', inner, hread, rfl⟩
    obtain ⟨rest, cause, hleaves, rfl⟩ := (ih inner).mp ⟨rs', hread⟩
    exact ⟨_, cause, ⟨rest, rfl, hleaves⟩, (errorText_cons ⟨holder, name⟩ rest cause).symm⟩
  · rintro ⟨path, cause, ⟨rest, rfl, hleaves⟩, rfl⟩
    obtain ⟨rs', hread⟩ := (ih (errorText rest cause)).mpr ⟨rest, cause, hleaves, rfl⟩
    exact ⟨rs', _, hread, errorText_cons ⟨holder, name⟩ rest cause⟩

/-- A read in place throws exactly when it fails somewhere, with the text of that place, and
leaves what `LeavesAt` says of it. -/
theorem readInto_exception_iff {α : Type} (s : Schema α) :
    ∀ (target : α) (rs : ReadStream) (what : Text) (left : α),
      (∃ rs', readInto G s (target, rs) = .error (.exception what) (left, rs')) ↔
        ThrowsLeaving G s target rs what left := by
  induction s using @Schema.rec _ (fun α fs => ∀ (holder : Text) (target : α) (rs : ReadStream)
      (what : Text) (left : α),
      (∃ rs', readObjectInto G holder fs (target, rs) = .error (.exception what) (left, rs')) ↔
        FieldsThrowLeaving G holder fs target rs what left) with
  | scalar w size =>
      intro target rs what left
      refine readInto_exception_iff_of_untouched fun left rs' h => ?_
      rw [readInto] at h
      exact untouched_of_beside h
  | bool =>
      intro target rs what left
      refine readInto_exception_iff_of_untouched fun left rs' h => ?_
      rw [readInto] at h
      exact untouched_of_beside h
  | empty =>
      intro target rs what left
      constructor
      · rintro ⟨rs', h⟩
        rw [readInto] at h
        exact (update_ne_error h).elim
      · rintro ⟨path, cause, h, -⟩
        exact h.elim
  | string => exact fun target rs what left => readStringInto_exception_iff
  | array s n => exact fun target rs what left => readInto_array_exception_iff
  | spContainer s => exact fun target rs what left => readInto_spContainer_exception_iff
  | spString => exact fun target rs what left => readInto_spString_exception_iff
  | optional s =>
      intro target rs what left
      exact readInto_exception_iff_of_untouched fun left rs' h => untouched_optional h
  | constrained s cs ih =>
      exact fun target rs what left =>
        readInto_constrained_exception_iff (ih target rs what left)
  | struct holder fs ih => exact fun target rs what left => ih holder target rs what left
  | last name init s ih holder target rs what left =>
      exact inFieldInto_readInto_exception_iff fun inner => ih target rs inner left
  | cons name init s fs ih ihfs holder target rs what left =>
      have hfirst : ∀ v, (∃ rs', inFieldInto holder name (readInto G s) (target.1, rs) =
            .error (.exception what) (v, rs')) ↔ _ :=
        fun v => inFieldInto_readInto_exception_iff fun inner => ih target.1 rs inner v
      simp only [readObjectInto, inTurn_error_iff, inFieldInto_readInto_ok_iff]
      constructor
      · rintro ⟨rs', ⟨hfield, hbehind⟩ | ⟨rs₁, hread, hrest⟩⟩
        · obtain ⟨path, cause, ⟨rest, rfl, hleaves⟩, rfl⟩ := (hfirst left.1).mp ⟨rs', hfield⟩
          exact ⟨_, cause, Or.inl ⟨rest, rfl, hleaves, hbehind⟩, rfl⟩
        · obtain ⟨path, cause, hleaves, rfl⟩ :=
            (ihfs holder target.2 rs₁ what left.2).mp ⟨rs', hrest⟩
          exact ⟨path, cause, Or.inr ⟨rs₁, hread, hleaves⟩, rfl⟩
      · rintro ⟨path, cause, ⟨rest, rfl, hleaves, hbehind⟩ | ⟨rs₁, hread, hleaves⟩, rfl⟩
        · obtain ⟨rs', hfield⟩ := (hfirst left.1).mpr ⟨_, cause, ⟨rest, rfl, hleaves⟩, rfl⟩
          exact ⟨rs', Or.inl ⟨hfield, hbehind⟩⟩
        · obtain ⟨rs', hrest⟩ := (ihfs holder target.2 rs₁ _ left.2).mpr
            ⟨path, cause, hleaves, rfl⟩
          exact ⟨rs', Or.inr ⟨rs₁, hread, hrest⟩⟩

/-- What a read leaves somewhere, it fails there. -/
theorem failsAt_of_leavesAt {α : Type} (s : Schema α) :
    ∀ (target : α) (rs : ReadStream) (path : List Place) (cause : Cause) (left : α),
      LeavesAt G s target rs path cause left → FailsAt G s target rs path cause := by
  induction s using @Schema.rec _ (fun α fs => ∀ (holder : Text) (target : α) (rs : ReadStream)
      (path : List Place) (cause : Cause) (left : α),
      FieldsLeaveAt G holder fs target rs path cause left →
        FieldsFailAt G holder fs target rs path cause) with
  | scalar w size => exact fun _ _ _ _ _ h => h.1
  | bool => exact fun _ _ _ _ _ h => h.1
  | empty => exact fun _ _ _ _ _ h => h
  | string =>
      rintro target rs path cause left ⟨hpath, hcause, cs, rs₁, hchain, hG, -⟩
      exact ⟨hpath, hcause, cs, rs₁, trivial, hchain, hG⟩
  | array s n =>
      rintro target rs path cause left ⟨xs, rs₁, hlen, hchain, hfails, -⟩
      exact ⟨xs, rs₁, hlen, hchain, hfails⟩
  | spContainer s =>
      rintro target rs path cause left (⟨hpath, hfails, -⟩ |
        ⟨size, rs₁, xs, rs₂, hcount, hlen, hchain, hfails, -⟩)
      · exact Or.inl ⟨hpath, hfails⟩
      · exact Or.inr ⟨size, rs₁, xs, rs₂, hcount, hlen, hchain, hfails⟩
  | spString =>
      rintro target rs path cause left ⟨hpath, ⟨hfails, -⟩ |
        ⟨hcause, size, rs₁, cs, rs₂, hcount, hlen, hchain, hG, -⟩⟩
      · exact ⟨hpath, Or.inl hfails⟩
      · refine ⟨hpath, Or.inr ⟨hcause, size, rs₁, hcount, cs, rs₂, hlen, ?_, hG⟩⟩
        exact hchain.mono fun _ _ _ hc => ⟨hc, trivial⟩
  | optional s => exact fun _ _ _ _ _ h => h.1
  | constrained s cs ih =>
      rintro target rs path cause left (hleaves | ⟨hpath, hcause, rs₁, hread, hcs⟩)
      · exact Or.inl (ih target rs path cause left hleaves)
      · exact Or.inr ⟨hpath, hcause, left, rs₁, hread, hcs⟩
  | struct holder fs ih => exact ih holder
  | last name init s ih holder target rs path cause left h =>
      obtain ⟨rest, hpath, hleaves⟩ := h
      exact ⟨rest, hpath, ih target rs rest cause left hleaves⟩
  | cons name init s fs ih ihfs holder target rs path cause left h =>
      rcases h with ⟨rest, hpath, hleaves, -⟩ | ⟨rs₁, hread, hleaves⟩
      · exact Or.inl ⟨rest, hpath, ih target.1 rs rest cause left.1 hleaves⟩
      · exact Or.inr ⟨left.1, rs₁, hread, ihfs holder target.2 rs₁ path cause left.2 hleaves⟩

/-! ## Objects of a registered class -/

section Registered

variable {Holder : Type} {registry : Registry Schema Holder} {b left : Holder}

/-- A read into an object in place leaves the object that a read returns. -/
theorem settle_readRegisteredInto (registry : Registry Schema Holder) (object : Holder) :
    settle (readRegisteredInto G registry) object = readRegistered G registry object := by
  unfold readRegisteredInto iterateObject readRegistered
  rw [settle_forM]
  simp only [settle_through, readMemberInto, settle_inFieldInto, settle_readInto]
  rfl

/-- When a read into an object throws, the text of the exception determines the fields on the
way to the failure and its cause. The members in front of the first of these fields hold what a
read of the class with only them returns, its own member is what `LeavesAt` says, and the rest
of the object is as it was. -/
theorem exception_leaves_object (hapart : registry.MembersApart)
    (hnamed : ∀ I field, registry.fieldMeta I = some field → registry.Visited I →
      Place.Valid ⟨field.holder, field.name⟩ ∧ WellNamed field.type)
    {rs' : ReadStream}
    (h : readRegisteredInto canReadNum registry (b, rs) = .error (.exception what) (left, rs')) :
    ∃ I field path cause middle rs₁, registry.fieldMeta I = some field ∧ registry.Visited I ∧
      readRegistered canReadNum (registry.upTo I) b rs = .ok middle rs₁ ∧
      LeavesAt canReadNum field.type (field.member.get b) rs₁ path cause (field.member.get left) ∧
      registry.LeftAt I b middle left ∧
      ∀ path' cause', (∀ place ∈ path', place.Valid) →
        (what = errorText path' cause' ↔
          path' = ⟨field.holder, field.name⟩ :: path ∧ cause' = cause) := by
  obtain ⟨I, field, middle, rs₁, hfield, hvisited, hfront, herror, hleft⟩ :=
    exists_leftAt_of_error hapart h
  obtain ⟨inner, hread, rfl⟩ := inFieldInto_exception_iff.mp herror
  obtain ⟨path, cause, hleaves, rfl⟩ := (readInto_exception_iff _ _ _ _ _).mp ⟨rs', hread⟩
  have hmiddle : readRegistered canReadNum (registry.upTo I) b rs = .ok middle rs₁ := by
    rw [← settle_readRegisteredInto]
    exact settle_ok_iff.mpr hfront
  refine ⟨I, field, path, cause, middle, rs₁, hfield, hvisited, hmiddle, hleaves, hleft, ?_⟩
  intro path' cause' hvalid
  obtain ⟨hplace, htype⟩ := hnamed I field hfield hvisited
  have hpath := valid_of_failsAt field.type htype _ _ _ _ (failsAt_of_leavesAt _ _ _ _ _ _ hleaves)
  rw [← errorText_cons ⟨field.holder, field.name⟩ path cause]
  constructor
  · intro htext
    refine errorText_injective hvalid ?_ htext.symm
    exact List.forall_mem_cons.mpr ⟨hplace, hpath⟩
  · rintro ⟨rfl, rfl⟩
    rfl

end Registered

/-- The stream ends within the name of a profile: the flag was read, the letter that came stands
behind the old name, and the third member stays. -/
theorem exception_leaves_object_profile :
    ∃ I field path cause middle rs₁, profileRegistry.fieldMeta I = some field ∧
      profileRegistry.Visited I ∧
      readRegistered canReadNum (profileRegistry.upTo I) ⟨0, text "X", 1⟩
        (ofBytes [1, 65] (by decide)) = .ok middle rs₁ ∧
      LeavesAt canReadNum field.type (field.member.get ⟨0, text "X", 1⟩) rs₁ path cause
        (field.member.get ⟨1, text "XA", 1⟩) ∧
      profileRegistry.LeftAt I ⟨0, text "X", 1⟩ middle ⟨1, text "XA", 1⟩ ∧
      ∀ path' cause', (∀ place ∈ path', place.Valid) →
        (errorText [⟨text "Profile", text "name"⟩] .pastTheEnd = errorText path' cause' ↔
          path' = ⟨field.holder, field.name⟩ :: path ∧ cause' = cause) := by
  have hnamed : ∀ I field, profileRegistry.fieldMeta I = some field →
      profileRegistry.Visited I →
        Place.Valid ⟨field.holder, field.name⟩ ∧ WellNamed field.type := by
    rw [← Registry.forall_iterateFields_iff]
    have hvisible : Place.Valid ⟨text "Profile", text "visible"⟩ :=
      ⟨by decide, by decide, by decide⟩
    have hname : Place.Valid ⟨text "Profile", text "name"⟩ := ⟨by decide, by decide, by decide⟩
    simp [profileRegistry, Registry.iterateFields, fieldIterator, WellNamed, hvisible, hname]
  have hread : readRegisteredInto canReadNum profileRegistry
      (⟨0, text "X", 1⟩, ofBytes [1, 65] (by decide)) =
        .error (.exception (errorText [⟨text "Profile", text "name"⟩] .pastTheEnd))
          (⟨1, text "XA", 1⟩, { ofBytes [1, 65] (by decide) with position := 2 }) := rfl
  exact exception_leaves_object profileRegistry_membersApart hnamed hread

end BacsEnv.Plakpacs
