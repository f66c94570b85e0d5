import BacsEnv.Analysis.Plakpacs.Decodes
import BacsEnv.Library.ErrorPath

/-!
# The exceptions of `serializer::read`

Where a read throws, and with which text. `FailsAt` follows the walkers to the place where
the stream ends, a count is too large or a constraint does not hold, and collects the
fields on the way there. The text of the exception names these fields, from the outermost
one in, and they can be read off it.
-/

set_option autoImplicit false

namespace BacsEnv.Plakpacs

open StatefulRun ReadStream ErrorPath

/-- Why a read throws in the first place. -/
inductive Cause
  | pastTheEnd
  | invalidContainerSize
  | constraintNotSatisfied
deriving DecidableEq, Repr

/-- `what()` of the exception. -/
def Cause.what : Cause → Text
  | .pastTheEnd => ReadStream.pastTheEnd
  | .invalidContainerSize => Plakpacs.invalidContainerSize
  | .constraintNotSatisfied => Plakpacs.constraintNotSatisfied

/-- A field that `read_object` names: its holder and its name. -/
structure Place where
  holder : Text
  name : Text
deriving DecidableEq, Repr

/-- The text of an exception that came through some fields. -/
def errorText : List Place → Cause → Text :=
  render (text "plakpacs::serializer.read_object: field '") (text "' caught exception - ")
    (fun place => place.holder ++ text "." ++ place.name) Cause.what

/-! ## Where a read fails -/

variable (G : Guard)

/-- No more than some characters are left, of which each satisfies a condition. -/
def CharsEnd (P : UInt8 → Prop) (rs : ReadStream) (most : ℕ → Prop) : Prop :=
  ∃ cs rs₁, most cs.length ∧ Chain (fun rs c rs' => readChar G rs = .ok c rs' ∧ P c) rs cs rs₁ ∧
    G rs₁ 1 = false

/-- The size prefix of a container is missing, or it is too large. -/
def CountFails (rs : ReadStream) (cause : Cause) : Prop :=
  (cause = .pastTheEnd ∧ G rs 4 = false) ∨
    (cause = .invalidContainerSize ∧
      ∃ size rs₁, readUInt32 G rs = .ok size rs₁ ∧ maxContainerCount < size)

mutual

/-- A read into `target` fails for a cause, inside the fields of a path. -/
def FailsAt {α : Type} : Schema α → α → ReadStream → List Place → Cause → Prop
  | .scalar w _, _, rs, path, cause => path = [] ∧ cause = .pastTheEnd ∧ G rs w = false
  | .bool, _, rs, path, cause => path = [] ∧ cause = .pastTheEnd ∧ G rs 1 = false
  | .empty, _, _, _, _ => False
  | .string, _, rs, path, cause =>
      path = [] ∧ cause = .pastTheEnd ∧ CharsEnd G (fun c => c ≠ 0) rs fun _ => True
  | .array s n, _, rs, path, cause =>
      ∃ xs rs₁, xs.length < n ∧ Chain (Returns G s) rs xs rs₁ ∧
        FailsAt s (fresh s) rs₁ path cause
  | .spContainer s, _, rs, path, cause =>
      (path = [] ∧ CountFails G rs cause) ∨
        ∃ size rs₁ xs rs₂, readCount G rs = .ok size rs₁ ∧ xs.length < size ∧
          Chain (Returns G s) rs₁ xs rs₂ ∧ FailsAt s (fresh s) rs₂ path cause
  | .spString, _, rs, path, cause =>
      path = [] ∧ (CountFails G rs cause ∨
        cause = .pastTheEnd ∧ ∃ size rs₁, readCount G rs = .ok size rs₁ ∧
          CharsEnd G (fun _ => True) rs₁ fun k => k ≤ size)
  | .optional s, _, rs, path, cause =>
      ∃ has rs₁, canRead G rs = true ∧ readBool G rs = .ok has rs₁ ∧ has ≠ 0 ∧
        FailsAt s (fresh s) rs₁ path cause
  | .constrained s cs, target, rs, path, cause =>
      FailsAt s target rs path cause ∨
        path = [] ∧ cause = .constraintNotSatisfied ∧ ∃ v rs₁, read G s target rs = .ok v rs₁ ∧
          cs.all (fun check => check v) = false
  | .struct holder fs, target, rs, path, cause => FieldsFailAt holder fs target rs path cause

/-- The first field whose read fails, behind fields that were read. -/
def FieldsFailAt (holder : Text) {α : Type} :
    Fields α → α → ReadStream → List Place → Cause → Prop
  | .last name _ s, target, rs, path, cause =>
      ∃ rest, path = ⟨holder, name⟩ :: rest ∧ FailsAt s target rs rest cause
  | .cons name _ s fs, target, rs, path, cause =>
      (∃ rest, path = ⟨holder, name⟩ :: rest ∧ FailsAt s target.1 rs rest cause) ∨
        ∃ v rs₁, read G s target.1 rs = .ok v rs₁ ∧
          FieldsFailAt holder fs target.2 rs₁ path cause

end

/-! ## The reads of the stream -/

variable {G} {rs rs' : ReadStream} {what : Text}

/-- A read throws when the guard says no. -/
theorem read_exception_iff {w : ℕ} :
    ReadStream.read G w rs = .error (.exception what) rs' ↔
      G rs w = false ∧ what = pastTheEnd ∧ rs' = rs := by
  unfold ReadStream.read
  cases hG : G rs w with
  | false =>
      simp only [Bool.false_eq_true, if_false, EStateM.Result.error.injEq,
        ReadError.exception.injEq, true_and]
      constructor
      · rintro ⟨rfl, rfl⟩
        exact ⟨rfl, rfl⟩
      · rintro ⟨rfl, rfl⟩
        exact ⟨rfl, rfl⟩
  | true =>
      simp only [if_true, Bool.true_eq_false, false_and, iff_false]
      split
      · exact fun h => by cases h
      · exact fun h => by cases h

theorem readChar_exception_iff :
    readChar G rs = .error (.exception what) rs' ↔
      G rs 1 = false ∧ what = pastTheEnd ∧ rs' = rs := by
  unfold readChar
  rw [bind_error_iff, read_exception_iff]
  simp

theorem readBool_exception_iff :
    readBool G rs = .error (.exception what) rs' ↔
      G rs 1 = false ∧ what = pastTheEnd ∧ rs' = rs := readChar_exception_iff

theorem readUInt32_exception_iff :
    readUInt32 G rs = .error (.exception what) rs' ↔
      G rs 4 = false ∧ what = pastTheEnd ∧ rs' = rs := by
  unfold readUInt32
  rw [bind_error_iff, read_exception_iff]
  simp

/-- The size prefix of a container throws for one of two causes. -/
theorem readCount_exception_iff :
    (∃ rs', readCount G rs = .error (.exception what) rs') ↔
      ∃ cause, CountFails G rs cause ∧ what = cause.what := by
  unfold readCount
  simp only [bind_error_iff, readUInt32_exception_iff]
  constructor
  · rintro ⟨rs', ⟨hG, rfl, -⟩ | ⟨size, rs₁, hsize, h⟩⟩
    · exact ⟨.pastTheEnd, Or.inl ⟨rfl, hG⟩, rfl⟩
    · by_cases hmax : size > maxContainerCount
      · rw [if_pos hmax] at h
        obtain ⟨hwhat, -⟩ := EStateM.Result.error.inj h
        exact ⟨.invalidContainerSize, Or.inr ⟨rfl, size, rs₁, hsize, hmax⟩,
          (ReadError.exception.inj hwhat).symm⟩
      · rw [if_neg hmax] at h
        cases h
  · rintro ⟨cause, ⟨rfl, hG⟩ | ⟨rfl, size, rs₁, hsize, hmax⟩, rfl⟩
    · exact ⟨rs, Or.inl ⟨hG, rfl, rfl⟩⟩
    · refine ⟨rs₁, Or.inr ⟨size, rs₁, hsize, ?_⟩⟩
      rw [if_pos hmax]
      rfl

/-- The characters of a loop lie within the bytes. -/
theorem position_of_chain {P : UInt8 → Prop} {cs : Text}
    (h : Chain (fun rs c rs' => readChar G rs = .ok c rs' ∧ P c) rs cs rs') :
    rs'.bytes = rs.bytes ∧ rs'.position = rs.position + cs.length ∧
      (cs ≠ [] → rs'.position ≤ rs.bytes.length) := by
  induction h with
  | nil rs => exact ⟨rfl, rfl, fun hne => (hne rfl).elim⟩
  | @cons rs₀ rs₁ rs₂ c cs hc hrest ih =>
      obtain ⟨hchar, -⟩ := hc
      obtain ⟨-, hfit, -, rfl⟩ := readChar_ok_iff.mp hchar
      obtain ⟨hbytes, hposition, hle⟩ := ih
      rw [advance_position] at hposition
      rw [advance_bytes] at hbytes hle
      refine ⟨hbytes, ?_, ?_⟩
      · rw [hposition, List.length_cons]
        omega
      · intro _
        by_cases hne : cs = []
        · rw [hposition, hne]
          exact hfit
        · exact hle hne

/-- A loop with one turn more than bytes remain has a turn for each of them. -/
theorem length_lt_of_chain {P : UInt8 → Prop} {cs : Text}
    (h : Chain (fun rs c rs' => readChar G rs = .ok c rs' ∧ P c) rs cs rs') :
    cs.length < rs.bytes.length - rs.position + 1 := by
  obtain ⟨-, hposition, hle⟩ := position_of_chain h
  by_cases hne : cs = []
  · rw [hne]
    exact Nat.succ_pos _
  · have hfit := hle hne
    omega

/-- The loop of a string throws when the stream ends in front of a terminator. -/
theorem readStringLoop_exception_iff {fuel : ℕ} {value : Text} :
    readStringLoop G fuel value rs = .error (.exception what) rs' ↔
      what = pastTheEnd ∧ ∃ cs : Text, cs.length < fuel ∧
        Chain (fun rs c rs' => readChar G rs = .ok c rs' ∧ c ≠ 0) rs cs rs' ∧ G rs' 1 = false := by
  induction fuel generalizing value rs with
  | zero =>
      constructor
      · intro h
        cases h
      · rintro ⟨-, cs, hlen, -⟩
        exact (Nat.not_lt_zero _ hlen).elim
  | succ fuel ih =>
      rw [readStringLoop, bind_error_iff, readChar_exception_iff]
      constructor
      · rintro (⟨hG, rfl, rfl⟩ | ⟨c, rs₁, hchar, h⟩)
        · exact ⟨rfl, [], Nat.succ_pos _, .nil _, hG⟩
        · by_cases hc : c = 0
          · rw [if_pos hc] at h
            cases h
          · rw [if_neg hc] at h
            obtain ⟨rfl, cs, hlen, hchain, hG⟩ := ih.mp h
            exact ⟨rfl, c :: cs, Nat.succ_lt_succ hlen, .cons ⟨hchar, hc⟩ hchain, hG⟩
      · rintro ⟨rfl, cs, hlen, hchain, hG⟩
        cases hchain with
        | nil => exact Or.inl ⟨hG, rfl, rfl⟩
        | @cons _ rs₁ _ c cs hc hchain =>
            refine Or.inr ⟨c, rs₁, hc.1, ?_⟩
            rw [if_neg hc.2]
            exact ih.mpr ⟨rfl, cs, Nat.lt_of_succ_lt_succ hlen, hchain, hG⟩

theorem readString_exception_iff {value : Text} :
    (∃ rs', readString G value rs = .error (.exception what) rs') ↔
      what = pastTheEnd ∧ CharsEnd G (fun c => c ≠ 0) rs fun _ => True := by
  unfold readString
  simp only [readStringLoop_exception_iff]
  constructor
  · rintro ⟨rs', rfl, cs, -, hchain, hG⟩
    exact ⟨rfl, cs, rs', trivial, hchain, hG⟩
  · rintro ⟨rfl, cs, rs', -, hchain, hG⟩
    exact ⟨rs', rfl, cs, length_lt_of_chain hchain, hchain, hG⟩

/-! ## The walkers -/

theorem errorText_cons (place : Place) (path : List Place) (cause : Cause) :
    errorText (place :: path) cause =
      text "plakpacs::serializer.read_object: field '" ++ place.holder ++ text "." ++ place.name ++
        text "' caught exception - " ++ errorText path cause := by
  unfold errorText
  rw [render]
  simp only [List.append_assoc]

/-- The `catch` clause around a field puts its name in front. -/
theorem inField_exception_iff {α : Type} {holder name : Text} {m : ReadM α} :
    inField holder name m rs = .error (.exception what) rs' ↔
      ∃ inner, m rs = .error (.exception inner) rs' ∧
        what = text "plakpacs::serializer.read_object: field '" ++ holder ++ text "." ++ name ++
          text "' caught exception - " ++ inner := by
  unfold inField
  cases hm : m rs with
  | ok v rs₁ => simp
  | error e rs₁ =>
      cases e with
      | exception inner =>
          simp only [EStateM.Result.error.injEq, ReadError.exception.injEq]
          constructor
          · rintro ⟨rfl, rfl⟩
            exact ⟨inner, ⟨rfl, rfl⟩, rfl⟩
          · rintro ⟨inner', ⟨rfl, rfl⟩, rfl⟩
            exact ⟨rfl, rfl⟩
      | outOfBounds i => simp
      | diverges => simp

/-- A failure of a read, with the text that it is thrown with. -/
def Throws (G : Guard) {α : Type} (s : Schema α) (target : α) (rs : ReadStream) (what : Text) :
    Prop :=
  ∃ path cause, FailsAt G s target rs path cause ∧ what = errorText path cause

/-- A failure among the fields of an object, with its text. -/
def FieldsThrow (G : Guard) (holder : Text) {α : Type} (fs : Fields α) (target : α)
    (rs : ReadStream) (what : Text) : Prop :=
  ∃ path cause, FieldsFailAt G holder fs target rs path cause ∧ what = errorText path cause

/-- An element of a loop throws. -/
theorem exists_element_throws {α γ : Type} {s : Schema α} {append : γ → α → γ} {n : ℕ} {c : γ}
    (ih : ∀ rs, (∃ rs', read G s (fresh s) rs = .error (.exception what) rs') ↔
      Throws G s (fresh s) rs what) :
    (∃ rs', repeatAppend (read G s (fresh s)) append n c rs = .error (.exception what) rs') ↔
      ∃ xs rs₁, xs.length < n ∧ Chain (Returns G s) rs xs rs₁ ∧ Throws G s (fresh s) rs₁ what := by
  simp only [repeatAppend_error_iff]
  constructor
  · rintro ⟨rs', xs, rs₁, hlen, hchain, herror⟩
    exact ⟨xs, rs₁, hlen, hchain, (ih rs₁).mp ⟨rs', herror⟩⟩
  · rintro ⟨xs, rs₁, hlen, hchain, hthrows⟩
    obtain ⟨rs', herror⟩ := (ih rs₁).mpr hthrows
    exact ⟨rs', xs, rs₁, hlen, hchain, herror⟩

/-- An element of an array throws. -/
theorem read_array_exception_iff {α : Type} {s : Schema α} {n : ℕ} {target : List.Vector α n}
    (ih : ∀ rs, (∃ rs', read G s (fresh s) rs = .error (.exception what) rs') ↔
      Throws G s (fresh s) rs what) :
    (∃ rs', read G (.array s n) target rs = .error (.exception what) rs') ↔
      Throws G (.array s n) target rs what := by
  simp only [read, bind_error_iff, pure_apply, reduceCtorEq, and_false, exists_false, or_false]
  rw [exists_element_throws ih]
  constructor
  · rintro ⟨xs, rs₁, hlen, hchain, path, cause, hfails, rfl⟩
    exact ⟨path, cause, ⟨xs, rs₁, hlen, hchain, hfails⟩, rfl⟩
  · rintro ⟨path, cause, ⟨xs, rs₁, hlen, hchain, hfails⟩, rfl⟩
    exact ⟨xs, rs₁, hlen, hchain, path, cause, hfails, rfl⟩

/-- The size prefix of a container throws, or one of its elements does. -/
theorem read_spContainer_exception_iff {α : Type} {s : Schema α} {target : List α}
    (ih : ∀ rs, (∃ rs', read G s (fresh s) rs = .error (.exception what) rs') ↔
      Throws G s (fresh s) rs what) :
    (∃ rs', read G (.spContainer s) target rs = .error (.exception what) rs') ↔
      Throws G (.spContainer s) target rs what := by
  simp only [read, bind_error_iff]
  constructor
  · rintro ⟨rs', hcount | ⟨size, rs₁, hcount, helements⟩⟩
    · obtain ⟨cause, hfails, rfl⟩ := readCount_exception_iff.mp ⟨rs', hcount⟩
      exact ⟨[], cause, Or.inl ⟨rfl, hfails⟩, rfl⟩
    · obtain ⟨xs, rs₂, hlen, hchain, path, cause, hfails, rfl⟩ :=
        (exists_element_throws ih).mp ⟨rs', helements⟩
      exact ⟨path, cause, Or.inr ⟨size, rs₁, xs, rs₂, hcount, hlen, hchain, hfails⟩, rfl⟩
  · rintro ⟨path, cause, ⟨rfl, hfails⟩ | ⟨size, rs₁, xs, rs₂, hcount, hlen, hchain, hfails⟩, rfl⟩
    · obtain ⟨rs', hcount⟩ := readCount_exception_iff.mpr ⟨cause, hfails, rfl⟩
      exact ⟨rs', Or.inl hcount⟩
    · obtain ⟨rs', helements⟩ : ∃ rs', repeatAppend (read G s (fresh s)) pushBack size target rs₁ =
          .error (.exception (errorText path cause)) rs' :=
        (exists_element_throws ih).mpr ⟨xs, rs₂, hlen, hchain, path, cause, hfails, rfl⟩
      exact ⟨rs', Or.inr ⟨size, rs₁, hcount, helements⟩⟩

/-- A character of an `sp_string` is missing, or its terminator is. -/
theorem read_spString_exception_iff {target : Text} :
    (∃ rs', read G .spString target rs = .error (.exception what) rs') ↔
      Throws G .spString target rs what := by
  simp only [read, bind_error_iff, repeatAppend_error_iff, readChar_exception_iff]
  constructor
  · rintro ⟨rs', hcount | ⟨size, rs₁, hcount, ⟨cs, rs₂, hlen, hchain, hG, rfl, -⟩ |
      ⟨value, rs₂, hvalue, ⟨hG, rfl, -⟩ | ⟨c, rs₃, -, hpure⟩⟩⟩⟩
    · obtain ⟨cause, hfails, rfl⟩ := readCount_exception_iff.mp ⟨rs', hcount⟩
      exact ⟨[], cause, ⟨rfl, Or.inl hfails⟩, rfl⟩
    · refine ⟨[], .pastTheEnd, ⟨rfl, Or.inr ⟨rfl, size, rs₁, hcount, cs, rs₂, hlen.le, ?_, hG⟩⟩,
        rfl⟩
      exact hchain.mono fun _ _ _ hc => ⟨hc, trivial⟩
    · obtain ⟨cs, hlen, hchain, -⟩ := repeatAppend_ok_iff.mp hvalue
      refine ⟨[], .pastTheEnd, ⟨rfl, Or.inr ⟨rfl, size, rs₁, hcount, cs, rs₂, hlen.le, ?_, hG⟩⟩,
        rfl⟩
      exact hchain.mono fun _ _ _ hc => ⟨hc, trivial⟩
    · cases hpure
  · rintro ⟨path, cause, ⟨rfl, hfails | ⟨rfl, size, rs₁, hcount, cs, rs₂, hlen, hchain, hG⟩⟩, rfl⟩
    · obtain ⟨rs', hcount⟩ := readCount_exception_iff.mpr ⟨cause, hfails, rfl⟩
      exact ⟨rs', Or.inl hcount⟩
    · have hchars := hchain.mono fun _ _ _ hc => hc.1
      rcases Nat.lt_or_eq_of_le hlen with hlt | heq
      · exact ⟨rs₂, Or.inr ⟨size, rs₁, hcount, Or.inl ⟨cs, rs₂, hlt, hchars, hG, rfl, rfl⟩⟩⟩
      · have hvalue : repeatAppend (readChar G) pushBack size target rs₁ =
            .ok (cs.foldl pushBack target) rs₂ :=
          repeatAppend_ok_iff.mpr ⟨cs, heq, hchars, rfl⟩
        exact ⟨rs₂, Or.inr ⟨size, rs₁, hcount, Or.inr ⟨_, rs₂, hvalue, Or.inl ⟨hG, rfl, rfl⟩⟩⟩⟩

/-- The value of an optional throws. -/
theorem read_optional_exception_iff {α : Type} {s : Schema α} {target : Option α}
    (ih : ∀ rs, (∃ rs', read G s (fresh s) rs = .error (.exception what) rs') ↔
      Throws G s (fresh s) rs what) :
    (∃ rs', read G (.optional s) target rs = .error (.exception what) rs') ↔
      Throws G (.optional s) target rs what := by
  simp only [read]
  rw [bind_of_ok (rfl : (get : ReadM ReadStream) rs = .ok rs rs)]
  cases hcan : canRead G rs with
  | false =>
      rw [if_neg Bool.false_ne_true]
      constructor
      · rintro ⟨rs', h⟩
        cases h
      · rintro ⟨path, cause, ⟨has, rs₁, hcan', -⟩, -⟩
        rw [hcan] at hcan'
        cases hcan'
  | true =>
      rw [if_pos rfl]
      simp only [bind_error_iff, readBool_exception_iff]
      constructor
      · rintro ⟨rs', ⟨hG, -⟩ | ⟨has, rs₁, hflag, h⟩⟩
        · unfold canRead at hcan
          rw [hcan] at hG
          cases hG
        · by_cases hset : has = 0
          · rw [hset] at h
            cases h
          · rw [if_pos (bne_iff_ne.mpr hset)] at h
            rcases bind_error_iff.mp h with hvalue | ⟨x, rs₂, -, hpure⟩
            · obtain ⟨path, cause, hfails, rfl⟩ := (ih rs₁).mp ⟨rs', hvalue⟩
              exact ⟨path, cause, ⟨has, rs₁, hcan, hflag, hset, hfails⟩, rfl⟩
            · cases hpure
      · rintro ⟨path, cause, ⟨has, rs₁, -, hflag, hset, hfails⟩, rfl⟩
        obtain ⟨rs', hvalue⟩ := (ih rs₁).mpr ⟨path, cause, hfails, rfl⟩
        refine ⟨rs', Or.inr ⟨has, rs₁, hflag, ?_⟩⟩
        rw [if_pos (bne_iff_ne.mpr hset)]
        exact bind_error_iff.mpr (Or.inl hvalue)

/-- The value of a constrained type throws, or a constraint does not hold of it. -/
theorem read_constrained_exception_iff {α : Type} {s : Schema α} {cs : List (α → Bool)}
    {target : α} (ih : ∀ rs, (∃ rs', read G s target rs = .error (.exception what) rs') ↔
      Throws G s target rs what) :
    (∃ rs', read G (.constrained s cs) target rs = .error (.exception what) rs') ↔
      Throws G (.constrained s cs) target rs what := by
  simp only [read, bind_error_iff]
  constructor
  · rintro ⟨rs', hvalue | ⟨v, rs₁, hvalue, h⟩⟩
    · obtain ⟨path, cause, hfails, rfl⟩ := (ih rs).mp ⟨rs', hvalue⟩
      exact ⟨path, cause, Or.inl hfails, rfl⟩
    · by_cases hcs : cs.all (fun check => check v) = true
      · rw [if_pos hcs] at h
        cases h
      · rw [if_neg hcs] at h
        obtain ⟨hwhat, -⟩ := EStateM.Result.error.inj h
        obtain rfl := ReadError.exception.inj hwhat
        exact ⟨[], .constraintNotSatisfied,
          Or.inr ⟨rfl, rfl, v, rs₁, hvalue, Bool.eq_false_iff.mpr hcs⟩, rfl⟩
  · rintro ⟨path, cause, hfails | ⟨rfl, rfl, v, rs₁, hvalue, hcs⟩, rfl⟩
    · obtain ⟨rs', hvalue⟩ := (ih rs).mpr ⟨path, cause, hfails, rfl⟩
      exact ⟨rs', Or.inl hvalue⟩
    · refine ⟨rs₁, Or.inr ⟨v, rs₁, hvalue, ?_⟩⟩
      rw [hcs]
      rfl

/-- A field throws inside the `catch` clause of its object. -/
theorem inField_throws_iff {α : Type} {holder name : Text} {s : Schema α} {target : α}
    (ih : ∀ inner, (∃ rs', read G s target rs = .error (.exception inner) rs') ↔
      Throws G s target rs inner) :
    (∃ rs', inField holder name (read G s target) rs = .error (.exception what) rs') ↔
      ∃ path cause, (∃ rest, path = ⟨holder, name⟩ :: rest ∧ FailsAt G s target rs rest cause) ∧
        what = errorText path cause := by
  simp only [inField_exception_iff]
  constructor
  · rintro ⟨rs', inner, hread, rfl⟩
    obtain ⟨rest, cause, hfails, rfl⟩ := (ih inner).mp ⟨rs', hread⟩
    exact ⟨_, cause, ⟨rest, rfl, hfails⟩, (errorText_cons ⟨holder, name⟩ rest cause).symm⟩
  · rintro ⟨path, cause, ⟨rest, rfl, hfails⟩, rfl⟩
    obtain ⟨rs', hread⟩ := (ih (errorText rest cause)).mpr ⟨rest, cause, hfails, rfl⟩
    exact ⟨rs', _, hread, errorText_cons ⟨holder, name⟩ rest cause⟩

/-- A read throws exactly when it fails somewhere, with the text of that place. -/
theorem read_exception_iff_throws {α : Type} (s : Schema α) :
    ∀ (target : α) (rs : ReadStream) (what : Text),
      (∃ rs', read G s target rs = .error (.exception what) rs') ↔ Throws G s target rs what := by
  induction s using @Schema.rec _ (fun α fs => ∀ (holder : Text) (target : α) (rs : ReadStream)
      (what : Text), (∃ rs', readObject G holder fs target rs = .error (.exception what) rs') ↔
        FieldsThrow G holder fs target rs what) with
  | scalar w size =>
      intro target rs what
      simp only [read, read_exception_iff]
      constructor
      · rintro ⟨rs', hG, rfl, -⟩
        exact ⟨[], .pastTheEnd, ⟨rfl, rfl, hG⟩, rfl⟩
      · rintro ⟨path, cause, ⟨rfl, rfl, hG⟩, rfl⟩
        exact ⟨rs, hG, rfl, rfl⟩
  | bool =>
      intro target rs what
      simp only [read, readBool_exception_iff]
      constructor
      · rintro ⟨rs', hG, rfl, -⟩
        exact ⟨[], .pastTheEnd, ⟨rfl, rfl, hG⟩, rfl⟩
      · rintro ⟨path, cause, ⟨rfl, rfl, hG⟩, rfl⟩
        exact ⟨rs, hG, rfl, rfl⟩
  | empty =>
      intro target rs what
      constructor
      · rintro ⟨rs', h⟩
        simp [read] at h
      · rintro ⟨path, cause, h, -⟩
        exact h.elim
  | string =>
      intro target rs what
      simp only [read]
      rw [readString_exception_iff]
      constructor
      · rintro ⟨rfl, hend⟩
        exact ⟨[], .pastTheEnd, ⟨rfl, rfl, hend⟩, rfl⟩
      · rintro ⟨path, cause, ⟨rfl, rfl, hend⟩, rfl⟩
        exact ⟨rfl, hend⟩
  | array s n ih =>
      exact fun target rs what => read_array_exception_iff fun rs => ih (fresh s) rs what
  | spContainer s ih =>
      exact fun target rs what => read_spContainer_exception_iff fun rs => ih (fresh s) rs what
  | spString => exact fun target rs what => read_spString_exception_iff
  | optional s ih =>
      exact fun target rs what => read_optional_exception_iff fun rs => ih (fresh s) rs what
  | constrained s cs ih =>
      exact fun target rs what => read_constrained_exception_iff fun rs => ih target rs what
  | struct holder fs ih => exact fun target rs what => ih holder target rs what
  | last name init s ih holder target rs what => exact inField_throws_iff fun inner => ih target rs inner
  | cons name init s fs ih ihfs holder target rs what =>
      have hfirst : (∃ rs', inField holder name (read G s target.1) rs =
            .error (.exception what) rs') ↔ _ :=
        inField_throws_iff fun inner => ih target.1 rs inner
      simp only [readObject, bind_error_iff, inField_ok_iff, pure_apply, reduceCtorEq, and_false,
        exists_false, or_false]
      constructor
      · rintro ⟨rs', hfield | ⟨v, rs₁, hread, hrest⟩⟩
        · obtain ⟨path, cause, hfails, rfl⟩ := hfirst.mp ⟨rs', hfield⟩
          exact ⟨path, cause, Or.inl hfails, rfl⟩
        · obtain ⟨path, cause, hfails, rfl⟩ := (ihfs holder target.2 rs₁ what).mp ⟨rs', hrest⟩
          exact ⟨path, cause, Or.inr ⟨v, rs₁, hread, hfails⟩, rfl⟩
      · rintro ⟨path, cause, hfails | ⟨v, rs₁, hread, hfails⟩, rfl⟩
        · obtain ⟨rs', hfield⟩ := hfirst.mpr ⟨path, cause, hfails, rfl⟩
          exact ⟨rs', Or.inl hfield⟩
        · obtain ⟨rs', hrest⟩ := (ihfs holder target.2 rs₁ _).mpr ⟨path, cause, hfails, rfl⟩
          exact ⟨rs', Or.inr ⟨v, rs₁, hread, hrest⟩⟩

/-! ## What the text says -/

/-- A holder without a quote, and a name without a quote and a dot, as identifiers are. -/
structure Place.Valid (place : Place) : Prop where
  holder : (39 : UInt8) ∉ place.holder
  name : (39 : UInt8) ∉ place.name
  name_dot : (46 : UInt8) ∉ place.name

mutual

/-- The registered fields have such names at every depth. -/
def WellNamed {α : Type} : Schema α → Prop
  | .array s _ => WellNamed s
  | .spContainer s => WellNamed s
  | .optional s => WellNamed s
  | .constrained s _ => WellNamed s
  | .struct holder fs => FieldsWellNamed holder fs
  | _ => True

/-- So have the fields of an object. -/
def FieldsWellNamed (holder : Text) {α : Type} : Fields α → Prop
  | .last name _ s => Place.Valid ⟨holder, name⟩ ∧ WellNamed s
  | .cons name _ s fs => Place.Valid ⟨holder, name⟩ ∧ WellNamed s ∧ FieldsWellNamed holder fs

end

/-- A read only fails inside fields of its type. -/
theorem valid_of_failsAt {α : Type} (s : Schema α) :
    WellNamed s → ∀ (target : α) (rs : ReadStream) (path : List Place) (cause : Cause),
      FailsAt G s target rs path cause → ∀ place ∈ path, place.Valid := by
  have hnil : ∀ {path : List Place}, path = [] → ∀ place ∈ path, place.Valid := by
    rintro path rfl place hmem
    cases hmem
  induction s using @Schema.rec _ (fun _ fs => ∀ (holder : Text), FieldsWellNamed holder fs →
      ∀ target rs path cause, FieldsFailAt G holder fs target rs path cause →
        ∀ place ∈ path, place.Valid) with
  | scalar w size => exact fun _ _ _ _ _ h => hnil h.1
  | bool => exact fun _ _ _ _ _ h => hnil h.1
  | empty => exact fun _ _ _ _ _ h => h.elim
  | string => exact fun _ _ _ _ _ h => hnil h.1
  | array s n ih =>
      rintro hs target rs path cause ⟨xs, rs₁, -, -, hfails⟩
      exact ih hs _ _ _ _ hfails
  | spContainer s ih =>
      rintro hs target rs path cause (⟨hpath, -⟩ | ⟨size, rs₁, xs, rs₂, -, -, -, hfails⟩)
      · exact hnil hpath
      · exact ih hs _ _ _ _ hfails
  | spString => exact fun _ _ _ _ _ h => hnil h.1
  | optional s ih =>
      rintro hs target rs path cause ⟨has, rs₁, -, -, -, hfails⟩
      exact ih hs _ _ _ _ hfails
  | constrained s cs ih =>
      rintro hs target rs path cause (hfails | ⟨hpath, -⟩)
      · exact ih hs _ _ _ _ hfails
      · exact hnil hpath
  | struct holder fs ih => exact ih holder
  | last name init s ih holder hfs target rs path cause h place hmem =>
      obtain ⟨rest, rfl, hfails⟩ := h
      rcases List.mem_cons.mp hmem with rfl | hmem
      · exact hfs.1
      · exact ih hfs.2 _ _ _ _ hfails place hmem
  | cons name init s fs ih ihfs holder hfs target rs path cause h place hmem =>
      obtain ⟨hplace, hs, hrest⟩ := hfs
      rcases h with ⟨rest, rfl, hfails⟩ | ⟨v, rs₁, -, hfails⟩
      · rcases List.mem_cons.mp hmem with rfl | hmem
        · exact hplace
        · exact ih hs _ _ _ _ hfails place hmem
      · exact ihfs holder hrest target.2 rs₁ path cause hfails place hmem

/-- A place can be read off its label. -/
theorem label_injective {place place' : Place} (h : place.Valid) (h' : place'.Valid)
    (hlabel : place.holder ++ text "." ++ place.name = place'.holder ++ text "." ++ place'.name) :
    place = place' := by
  have hdot : text "." = [46] := rfl
  have hrev := congrArg List.reverse hlabel
  rw [hdot] at hrev
  simp only [List.reverse_append, List.reverse_cons, List.reverse_nil, List.nil_append,
    List.singleton_append] at hrev
  obtain ⟨hname, hholder⟩ := append_cons_inj_of_not_mem
    (fun hmem => h.name_dot (List.mem_reverse.mp hmem))
    (fun hmem => h'.name_dot (List.mem_reverse.mp hmem)) hrev
  obtain ⟨holder, name⟩ := place
  obtain ⟨holder', name'⟩ := place'
  obtain rfl : name = name' := List.reverse_injective hname
  obtain rfl : holder = holder' := List.reverse_injective hholder
  rfl

/-- The fields and the cause can be read off the text of an exception. -/
theorem errorText_injective {path path' : List Place} {cause cause' : Cause}
    (hpath : ∀ place ∈ path, place.Valid) (hpath' : ∀ place ∈ path', place.Valid)
    (h : errorText path cause = errorText path' cause') : path = path' ∧ cause = cause' := by
  have hclosing : text "' caught exception - " = (39 : UInt8) :: text " caught exception - " := rfl
  have hopening : ∀ cause : Cause,
      ¬ text "plakpacs::serializer.read_object: field '" <+: cause.what := by
    intro cause
    cases cause <;> decide
  have hlabel : ∀ place : Place, place.Valid →
      (39 : UInt8) ∉ place.holder ++ text "." ++ place.name := by
    intro place hplace hmem
    have hdot : (39 : UInt8) ∉ text "." := by decide
    rcases List.mem_append.mp hmem with hmem | hmem
    · rcases List.mem_append.mp hmem with hmem | hmem
      · exact hplace.holder hmem
      · exact hdot hmem
    · exact hplace.name hmem
  obtain ⟨hpaths, hwhat⟩ := render_injective hclosing hlabel (fun _ _ => label_injective) hpath
    hpath' (hopening cause) (hopening cause') h
  refine ⟨hpaths, ?_⟩
  cases cause <;> cases cause' <;> first | rfl | (revert hwhat; decide)

/-- A read throws exactly when the guard refuses some read in it, a count is too large or a
constraint does not hold, and the text of the exception names the fields on the way there, from
the outermost one in. The text determines these fields and the cause. -/
theorem exception_names_fields {α : Type} (s : Schema α) (target : α) (rs : ReadStream)
    (what : Text) :
    ((∃ rs', read canReadNum s target rs = .error (.exception what) rs') ↔
      ∃ path cause, FailsAt canReadNum s target rs path cause ∧ what = errorText path cause) ∧
    (WellNamed s → ∀ path cause, FailsAt canReadNum s target rs path cause →
      ∀ path' cause', (∀ place ∈ path', place.Valid) →
        errorText path' cause' = errorText path cause → path' = path ∧ cause' = cause) := by
  refine ⟨read_exception_iff_throws s target rs what, ?_⟩
  intro hs path cause hfails path' cause' hvalid h
  exact errorText_injective hvalid (valid_of_failsAt s hs _ _ _ _ hfails) h

/-- A note with an identifier and a length. -/
def sampleNote : Schema (List.Vector UInt8 1 × List.Vector UInt8 8) :=
  .struct (text "Note") (.cons (text "id") none (.scalar 1 (by decide))
    (.last (text "length") none (.scalar 8 (by decide))))

/-- The stream ends within the length of a note. -/
theorem exception_names_fields_note :
    (∃ rs', read canReadNum sampleNote (fresh sampleNote)
      (ofBytes [7, 1, 0, 0, 0, 0, 0, 0] (by decide)) =
        .error (.exception (errorText [⟨text "Note", text "length"⟩] .pastTheEnd)) rs') ∧
    ∀ path' cause', (∀ place ∈ path', place.Valid) →
      errorText path' cause' = errorText [⟨text "Note", text "length"⟩] .pastTheEnd →
        path' = [⟨text "Note", text "length"⟩] ∧ cause' = .pastTheEnd := by
  have hfails : FailsAt canReadNum sampleNote (fresh sampleNote)
      (ofBytes [7, 1, 0, 0, 0, 0, 0, 0] (by decide)) [⟨text "Note", text "length"⟩]
        .pastTheEnd :=
    Or.inr ⟨_, _, rfl, [], rfl, rfl, rfl, rfl⟩
  have hnamed : WellNamed sampleNote :=
    ⟨⟨by decide, by decide, by decide⟩, trivial, ⟨by decide, by decide, by decide⟩, trivial⟩
  obtain ⟨hread, htext⟩ := exception_names_fields sampleNote (fresh sampleNote)
    (ofBytes [7, 1, 0, 0, 0, 0, 0, 0] (by decide))
    (errorText [⟨text "Note", text "length"⟩] .pastTheEnd)
  exact ⟨hread.mpr ⟨_, _, hfails, rfl⟩, htext hnamed _ _ hfails⟩

end BacsEnv.Plakpacs
