import BacsEnv.Analysis.Bpjson.Threaded

/-!
# What the reader accepts

With the default settings `read_to` succeeds exactly on the JSON values that `Accepted`
describes, whatever the target holds. What it accepts need not have the shape of the type:
range iteration takes an object or a primitive for a container, a `container_appender` of
a fixed size takes any number of elements, `items()` of an empty array has no key that
`at` could reject, and a struct with `json_fields_optional` is read from anything
(`rejectsWrongShape_iff`).
-/

set_option autoImplicit false

namespace BacsEnv.Bpjson

variable {α β : Type}

mutual

/-- What is read without an exception, with the default settings. -/
def Accepted {α : Type} : JType α → Json → Prop
  | .scalar codec, json => (codec.get json).isSome
  | .string, json => ∃ s, json.getString = .ok s
  | .json, _ => True
  | .sequence t, json => ∀ item ∈ json.iterate, Accepted t item
  | .array t _, json => ∀ item ∈ json.iterate, Accepted t item
  | .optional t, json => json.isNull = false → Accepted t json
  | .map t, json => (∀ pair ∈ json.items, (json.find pair.1).isSome) ∧
      ∀ pair ∈ json.items, Accepted t pair.2
  | .struct fieldsOptional fs, json => AcceptedFields fieldsOptional fs json

/-- `Accepted` for the fields of a struct: their keys are there, or they may be missing. -/
def AcceptedFields (fieldsOptional : Bool) {α : Type} : JFields α → Json → Prop
  | .last name _ t, json =>
      (∀ subkey, json.find name = some subkey → Accepted t subkey) ∧
        (json.find name = none → fieldsOptional = true)
  | .cons name _ t fs, json =>
      ((∀ subkey, json.find name = some subkey → Accepted t subkey) ∧
        (json.find name = none → fieldsOptional = true)) ∧ AcceptedFields fieldsOptional fs json

end

/-- One field of `accepted_iff`. A field that does not show in the result may be missing in a
struct with `json_fields_optional`, whatever the mode. -/
theorem acceptedField_iff {mode : MissingFields} {fieldsOptional : Bool} {t : JType α}
    {name : Text} {json : Json} {target : α} {accepted readable complete : Json → Prop}
    (h : ∀ subkey, accepted subkey ↔ readable subkey ∧ complete subkey) :
    ((∀ subkey, json.find name = some subkey → accepted subkey) ∧
        (json.find name = none → fieldsOptional = true)) ↔
      (∀ subkey, json.find name = some subkey → readable subkey) ∧
        (∀ subkey, json.find name = some subkey → complete subkey) ∧
          MayBeMissing mode true false fieldsOptional t name json target := by
  simp only [MayBeMissing, Bool.false_eq_true, false_implies, and_true, forall_const, h,
    imp_and, forall_and, and_assoc]

/-- Acceptance in two parts: every value that is there can be read, and no key is missing
that may not. -/
theorem accepted_iff {mode : MissingFields} (t : JType α) (json : Json) (target : α) :
    Accepted t json ↔ Readable t json ∧ Complete mode true false t json target := by
  induction t using @JType.rec _
    (fun {α} fs => ∀ (fieldsOptional : Bool) (json : Json) (target : α),
      AcceptedFields fieldsOptional fs json ↔
        ReadableFields fs json ∧ CompleteFields mode true false fieldsOptional fs json target)
    generalizing json with
  | scalar codec => simp only [Accepted, Readable, Complete, and_true]
  | string => simp only [Accepted, Readable, Complete, and_true]
  | json => simp only [Accepted, Readable, Complete, and_true]
  | sequence t ih => simp only [Accepted, Readable, Complete, ih _ (fresh t), imp_and, forall_and]
  | array t n ih =>
      rw [Accepted, Readable, Complete, ← List.forall_mem_append, List.take_append_drop]
      simp only [ih _ (fresh t), imp_and, forall_and]
  | optional t ih => simp only [Accepted, Readable, Complete, ih _ (fresh t), imp_and]
  | map t ih =>
      rw [Accepted, Readable, Complete, and_assoc]
      refine and_congr_right fun _ => ?_
      have hpair : ∀ pair ∈ json.items, (Accepted t pair.2 ↔ Readable t pair.2 ∧
          Complete mode true false t pair.2 (target[pair.1]?.getD (valueInit t))) :=
        fun pair _ => ih pair.2 _
      rw [forall₂_congr hpair]
      simp only [imp_and, forall_and]
  | struct fieldsOptional fs ih => exact ih fieldsOptional json target
  | last name init t ih fieldsOptional json target =>
      exact acceptedField_iff fun subkey => ih subkey target
  | cons name init t fs ih ihfs fieldsOptional json target =>
      obtain ⟨target, targets⟩ := target
      rw [AcceptedFields, ReadableFields, CompleteFields, and_and_and_comm]
      exact and_congr (acceptedField_iff fun subkey => ih subkey target)
        (ihfs fieldsOptional json targets)

/-- The reader of the source succeeds on what is accepted. -/
theorem readTo_ok_iff (t : JType α) (json : Json) (target : α) :
    (∃ v, readTo .throwException t json target = .ok v) ↔ Accepted t json := by
  have hmode : MissingFields.ignore ≠ .throwException := by decide
  have htracks := tracks_readTo hmode t true json target
  rw [accepted_iff t json target, ← readThreaded_ok_iff hmode t json target]
  constructor
  · rintro ⟨w, hw⟩
    obtain ⟨v, hv⟩ := htracks.of_ok hw
    exact ⟨⟨v, hv⟩, (htracks.ok_iff hv).mp ⟨w, hw⟩⟩
  · rintro ⟨⟨v, hv⟩, hcomplete⟩
    exact (htracks.ok_iff hv).mpr hcomplete

/-! ## The shape of a type -/

mutual

/-- The value has the shape of the type at every depth that the reader visits. -/
def HasShape {α : Type} : JType α → Json → Prop
  | .scalar codec, json => (codec.get json).isSome
  | .string, json => ∃ s, json.getString = .ok s
  | .json, _ => True
  | .sequence t, json =>
      (json.isArray ∨ json.isNull) ∧ ∀ item ∈ json.iterate, HasShape t item
  | .array t n, json =>
      (json.isArray ∨ n = 0 ∧ json.isNull) ∧ (0 < n → json.iterate.length = n) ∧
        ∀ item ∈ json.iterate, HasShape t item
  | .optional t, json => json.isNull = false → HasShape t json
  | .map t, json => (json.isObject ∨ json.isNull) ∧ ∀ pair ∈ json.items, HasShape t pair.2
  | .struct _ fs, json => json.isObject ∧ HasShapeFields fs json

/-- `HasShape` for the fields whose keys are there. -/
def HasShapeFields {α : Type} : JFields α → Json → Prop
  | .last name _ t, json => ∀ subkey, json.find name = some subkey → HasShape t subkey
  | .cons name _ t fs, json =>
      (∀ subkey, json.find name = some subkey → HasShape t subkey) ∧ HasShapeFields fs json

end

mutual

/-- The kinds and sizes that the reader does not look at are right: no object and no primitive
stands for a container, no other number of elements for a container of a fixed size, no empty
array for a map, and nothing but an object for a struct with `json_fields_optional`. -/
def UncheckedRight {α : Type} : JType α → Json → Prop
  | .scalar _, _ => True
  | .string, _ => True
  | .json, _ => True
  | .sequence t, json =>
      (json.isArray ∨ json.isNull) ∧ ∀ item ∈ json.iterate, UncheckedRight t item
  | .array t n, json =>
      (json.isArray ∨ n = 0 ∧ json.isNull) ∧ (0 < n → json.iterate.length = n) ∧
        ∀ item ∈ json.iterate, UncheckedRight t item
  | .optional t, json => json.isNull = false → UncheckedRight t json
  | .map t, json =>
      (json.isArray → json.iterate ≠ []) ∧ ∀ pair ∈ json.items, UncheckedRight t pair.2
  | .struct fieldsOptional fs, json =>
      (fieldsOptional = true → json.isObject) ∧ UncheckedRightFields fs json

/-- `UncheckedRight` for the fields whose keys are there. -/
def UncheckedRightFields {α : Type} : JFields α → Json → Prop
  | .last name _ t, json => ∀ subkey, json.find name = some subkey → UncheckedRight t subkey
  | .cons name _ t fs, json =>
      (∀ subkey, json.find name = some subkey → UncheckedRight t subkey) ∧
        UncheckedRightFields fs json

end

/-- Only an object has members. -/
theorem isObject_of_find {json subkey : Json} {key : Text} (h : json.find key = some subkey) :
    json.isObject = true := by
  cases json with
  | object fields => rfl
  | _ => cases h

/-- What is accepted for a map is an object, `null` or an empty array. -/
theorem isObject_or_isNull_iff {json : Json}
    (hfound : ∀ pair ∈ json.items, (json.find pair.1).isSome) :
    (json.isObject = true ∨ json.isNull = true) ↔ (json.isArray → json.iterate ≠ []) := by
  cases json with
  | null => simp [Json.isNull, Json.isArray]
  | object fields => simp [Json.isObject, Json.isArray]
  | array items =>
      cases items with
      | nil => simp [Json.isObject, Json.isNull, Json.isArray, Json.iterate]
      | cons item items =>
          have hfirst := hfound (text (toString 0), item) List.mem_cons_self
          cases hfirst
  | _ => simp [Json.items, Json.find] at hfound

/-- A struct without `json_fields_optional` is accepted from an object only. -/
theorem isObject_of_acceptedFields {fs : JFields α} {json : Json}
    (h : AcceptedFields false fs json) : json.isObject = true := by
  have hfield : ∀ name, (json.find name = none → false = true) → json.isObject = true := by
    intro name hpresent
    cases hfind : json.find name with
    | none => cases hpresent hfind
    | some subkey => exact isObject_of_find hfind
  cases fs with
  | last name => exact hfield name h.2
  | cons name => exact hfield name h.1.2

/-- The shape of what is accepted, in what the reader does not look at. -/
theorem hasShape_iff_of_accepted {t : JType α} {json : Json} (h : Accepted t json) :
    HasShape t json ↔ UncheckedRight t json := by
  induction t using @JType.rec _
    (fun {_} fs => ∀ (fieldsOptional : Bool) (json : Json),
      AcceptedFields fieldsOptional fs json →
        (HasShapeFields fs json ↔ UncheckedRightFields fs json))
    generalizing json with
  | scalar codec => exact iff_true_intro h
  | string => exact iff_true_intro h
  | json => exact Iff.rfl
  | sequence t ih =>
      exact and_congr_right fun _ => forall₂_congr fun item hitem => ih (h item hitem)
  | array t n ih =>
      exact and_congr_right fun _ => and_congr_right fun _ =>
        forall₂_congr fun item hitem => ih (h item hitem)
  | optional t ih => exact imp_congr_right fun hnull => ih (h hnull)
  | map t ih =>
      exact and_congr (isObject_or_isNull_iff h.1)
        (forall₂_congr fun pair hpair => ih (h.2 pair hpair))
  | struct fieldsOptional fs ih =>
      refine and_congr ?_ (ih fieldsOptional json h)
      cases fieldsOptional with
      | true => simp
      | false => simp [isObject_of_acceptedFields h]
  | last name init t ih fieldsOptional json h =>
      exact forall₂_congr fun subkey hfind => ih (h.1 subkey hfind)
  | cons name init t fs ih ihfs fieldsOptional json h =>
      exact and_congr (forall₂_congr fun subkey hfind => ih (h.1.1 subkey hfind))
        (ihfs fieldsOptional json h.2)

/-- What reading a value should be: what is not of the shape of the type is rejected. -/
def RejectsWrongShape (t : JType α) (json : Json) : Prop :=
  ∀ w, read .throwException t json = .ok w → HasShape t json

/-- Values of a wrong shape are rejected, if and only if what is accepted is right where the
reader does not look. -/
theorem rejectsWrongShape_iff (t : JType α) (json : Json) :
    RejectsWrongShape t json ↔ (Accepted t json → UncheckedRight t json) := by
  have hread := readTo_ok_iff t json (fresh t)
  constructor
  · intro hrejects haccepted
    obtain ⟨w, hw⟩ := hread.mpr haccepted
    exact (hasShape_iff_of_accepted haccepted).mp (hrejects w hw)
  · intro hright w hw
    have haccepted := hread.mp ⟨w, hw⟩
    exact (hasShape_iff_of_accepted haccepted).mpr (hright haccepted)

/-- A list of flags is read from an object and from a single flag. -/
theorem object_read_as_vector :
    read .throwException (.sequence (.scalar boolCodec))
        (.object [([107], .boolean true)]) = .ok [true] ∧
      read .throwException (.sequence (.scalar boolCodec)) (.boolean true) = .ok [true] ∧
      ¬ RejectsWrongShape (.sequence (.scalar boolCodec)) (.boolean true) := by
  have hread : read .throwException (.sequence (.scalar boolCodec)) (.boolean true) =
      .ok [true] := rfl
  refine ⟨rfl, hread, ?_⟩
  intro hrejects
  obtain ⟨hkind, -⟩ := hrejects _ hread
  simp [Json.isArray, Json.isNull] at hkind

end BacsEnv.Bpjson
