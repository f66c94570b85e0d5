import BacsEnv.Model.Bpacs.Registry

/-!
# What `iterate_fields` visits

A field is visited when every index up to its own is registered (`Visited`), and these are the
fields that `iterate_fields` goes through, in the order of their indices. `Transferred` says
what an object should hold after it was written and read into another: the visited members come
over, and all the rest of the object that is read into stays, the fields that are registered
behind a missing index among it.
-/

set_option autoImplicit false

namespace BacsEnv.Bpacs

variable {Ty : Type → Type 1} {Holder : Type}

/-- The members of an object that some fields refer to. -/
abbrev membersOf (field : FieldMeta Ty Holder) (fields : List (FieldMeta Ty Holder))
    (object : Holder) : Member.Values FieldMeta.α field fields :=
  Member.project FieldMeta.member field fields object

/-- The object with these members. -/
abbrev withMembers (field : FieldMeta Ty Holder) (fields : List (FieldMeta Ty Holder))
    (v : Member.Values FieldMeta.α field fields) (object : Holder) : Holder :=
  Member.assign FieldMeta.member field fields v object

namespace Registry

variable (registry : Registry Ty Holder)

/-- Every index up to `I` is registered. -/
def Visited (I : ℕ) : Prop := ∀ J ≤ I, (registry.fieldMeta J).isSome

/-- A relation holds between any two registered fields. -/
def Pairwise (R : FieldMeta Ty Holder → FieldMeta Ty Holder → Prop) : Prop :=
  ∀ I J field field', I ≠ J → registry.fieldMeta I = some field →
    registry.fieldMeta J = some field' → R field field'

/-- No two registered fields have a part of the object in common. -/
def MembersApart : Prop :=
  registry.Pairwise fun field field' => field.member.Apart field'.member

/-- The object `b'` has the visited members of `a`, and the rest of `b`. -/
structure Transferred (a b b' : Holder) : Prop where
  visited : ∀ I field, registry.fieldMeta I = some field → registry.Visited I →
    field.member.get b' = field.member.get a
  behind : ∀ I field, registry.fieldMeta I = some field → ¬ registry.Visited I →
    field.member.get b' = field.member.get b
  rest : ∀ {γ : Type} (observe : Holder → γ),
    (∀ I field, registry.fieldMeta I = some field → registry.Visited I →
      field.member.Keeps observe) → observe b' = observe b

/-- The class with only the fields that are registered before an index. -/
def upTo (I : ℕ) : Registry Ty Holder where
  specialisations := registry.specialisations.take I

end Registry

theorem fieldIterator_take (metas : List (Option (FieldMeta Ty Holder))) (I : ℕ) :
    fieldIterator (metas.take I) = (fieldIterator metas).take I := by
  induction metas generalizing I with
  | nil => rw [List.take_nil, fieldIterator, List.take_nil]
  | cons info metas ih =>
      cases I with
      | zero => rfl
      | succ I =>
          cases info with
          | none => rfl
          | some info => exact congrArg (info :: ·) (ih I)

/-- The fields that are iterated are the registered ones before the first missing index. -/
theorem getElem?_fieldIterator {metas : List (Option (FieldMeta Ty Holder))} {I : ℕ}
    {field : FieldMeta Ty Holder} :
    (fieldIterator metas)[I]? = some field ↔
      metas[I]?.join = some field ∧ ∀ J ≤ I, (metas[J]?.join).isSome := by
  induction metas generalizing I with
  | nil => simp [fieldIterator]
  | cons info metas ih =>
      cases info with
      | none =>
          have hfirst : ¬ ∀ J ≤ I, (((none :: metas)[J]? : Option (Option _)).join).isSome := by
            intro hall
            have hzero := hall 0 (Nat.zero_le I)
            simp at hzero
          simp only [fieldIterator, List.getElem?_nil, reduceCtorEq, hfirst, and_false]
      | some info =>
          cases I with
          | zero => simp [fieldIterator]
          | succ I =>
              rw [fieldIterator, List.getElem?_cons_succ, List.getElem?_cons_succ, ih]
              refine and_congr_right fun _ => ?_
              constructor
              · intro hall J hJ
                cases J with
                | zero => rfl
                | succ J => exact hall J (Nat.le_of_succ_le_succ hJ)
              · intro hall J hJ
                exact hall (J + 1) (Nat.succ_le_succ hJ)

namespace Registry

variable {registry : Registry Ty Holder}

/-- For a symmetric relation it is enough to compare each field with the ones behind it. -/
theorem pairwise_of_specialisations {R : FieldMeta Ty Holder → FieldMeta Ty Holder → Prop}
    (hsymm : ∀ field field', R field field' → R field' field)
    (h : registry.specialisations.Pairwise fun info info' =>
      ∀ field ∈ info, ∀ field' ∈ info', R field field') : registry.Pairwise R := by
  have hlt : ∀ I J field field', I < J → registry.fieldMeta I = some field →
      registry.fieldMeta J = some field' → R field field' := by
    intro I J field field' hIJ hI hJ
    obtain ⟨hIlt, hIget⟩ := List.getElem?_eq_some_iff.mp (Option.join_eq_some_iff.mp hI)
    obtain ⟨hJlt, hJget⟩ := List.getElem?_eq_some_iff.mp (Option.join_eq_some_iff.mp hJ)
    exact List.pairwise_iff_getElem.mp h I J hIlt hJlt hIJ field hIget field' hJget
  intro I J field field' hne hI hJ
  rcases Nat.lt_or_gt_of_ne hne with hIJ | hJI
  · exact hlt I J field field' hIJ hI hJ
  · exact hsymm field' field (hlt J I field' field hJI hJ hI)

theorem membersApart_of_specialisations
    (h : registry.specialisations.Pairwise fun info info' =>
      ∀ field ∈ info, ∀ field' ∈ info', field.member.Apart field'.member) :
    registry.MembersApart :=
  pairwise_of_specialisations (fun _ _ hapart => ⟨hapart.right, hapart.left⟩) h

theorem getElem?_iterateFields {I : ℕ} {field : FieldMeta Ty Holder} :
    registry.iterateFields[I]? = some field ↔
      registry.fieldMeta I = some field ∧ registry.Visited I :=
  getElem?_fieldIterator

theorem iterateFields_upTo (I : ℕ) :
    (registry.upTo I).iterateFields = registry.iterateFields.take I :=
  fieldIterator_take registry.specialisations I

/-- What holds of the fields that are iterated. -/
theorem forall_iterateFields_iff {P : FieldMeta Ty Holder → Prop} :
    (∀ field ∈ registry.iterateFields, P field) ↔
      ∀ I field, registry.fieldMeta I = some field → registry.Visited I → P field := by
  simp only [List.mem_iff_getElem?, getElem?_iterateFields]
  constructor
  · exact fun h I field hfield hvisited => h field ⟨I, hfield, hvisited⟩
  · rintro h field ⟨I, hfield, hvisited⟩
    exact h I field hfield hvisited

/-- What holds between any two fields holds between those that are iterated. -/
theorem Pairwise.iterateFields {R : FieldMeta Ty Holder → FieldMeta Ty Holder → Prop}
    (h : registry.Pairwise R) : registry.iterateFields.Pairwise R := by
  rw [List.pairwise_iff_getElem]
  intro I J hI hJ hlt
  have hfirst := getElem?_iterateFields.mp (List.getElem?_eq_getElem hI)
  have hsecond := getElem?_iterateFields.mp (List.getElem?_eq_getElem hJ)
  exact h I J _ _ (Nat.ne_of_lt hlt) hfirst.1 hsecond.1

/-- A class is reflected when there is a first field. -/
theorem exists_iterateFields (h : registry.hasBpReflection = true) :
    ∃ field fields, registry.iterateFields = field :: fields := by
  obtain ⟨field, hfield⟩ := Option.isSome_iff_exists.mp h
  have hvisited : registry.Visited 0 := by
    intro J hJ
    rw [Nat.le_zero.mp hJ]
    exact h
  have hget := getElem?_iterateFields.mpr ⟨hfield, hvisited⟩
  cases hfields : registry.iterateFields with
  | nil =>
      rw [hfields] at hget
      cases hget
  | cons field fields => exact ⟨field, fields, rfl⟩

/-- Assigning the values that the visited members of `a` have transfers them. -/
theorem transferred_assign (h : registry.MembersApart) {field : FieldMeta Ty Holder}
    {fields : List (FieldMeta Ty Holder)} (hfields : registry.iterateFields = field :: fields)
    (a b : Holder) :
    registry.Transferred a b (withMembers field fields (membersOf field fields a) b) := by
  have hpairwise := Pairwise.iterateFields h
  rw [hfields] at hpairwise
  have hrest : ∀ {γ : Type} (observe : Holder → γ),
      (∀ I field, registry.fieldMeta I = some field → registry.Visited I →
        field.member.Keeps observe) →
      observe (withMembers field fields (membersOf field fields a) b) = observe b := by
    intro γ observe hkeeps
    have hall := forall_iterateFields_iff.mpr hkeeps
    rw [hfields] at hall
    exact Member.observe_assign hall _ b
  refine { visited := ?_, behind := ?_, rest := hrest }
  · have hsame := Member.project_eq_iff.mp (Member.project_assign hpairwise
      (Member.project FieldMeta.member field fields a) b)
    rw [← hfields] at hsame
    exact forall_iterateFields_iff.mp hsame
  · intro I behind hbehind hnot
    apply hrest behind.member.get
    intro J visited hvisited hJ
    have hne : J ≠ I := by
      intro heq
      rw [heq] at hJ
      exact hnot hJ
    exact (h J I visited behind hne hvisited hbehind).left

end Registry

end BacsEnv.Bpacs
