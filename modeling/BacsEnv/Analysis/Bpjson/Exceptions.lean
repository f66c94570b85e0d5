import BacsEnv.Analysis.Bpjson.Objects
import BacsEnv.Library.ErrorPath

/-!
# The exceptions of `json_serializer::read_to`

Where a read throws, and what. `FailsAt` follows the walkers to the first value that cannot be
converted, or to the first key that is missing, and collects the fields on the way there: the
items of a container and the members of a map go by in their order, and are not named. What is
read into does not matter. The text of the exception names the fields, from the outermost one
in, and they can be read off it.
-/

set_option autoImplicit false

namespace BacsEnv.Bpjson

open Collect ErrorPath

variable {α β : Type}

/-- The exception that came through the fields of a path. -/
def nest : List Text → JsonError → Exception
  | [], cause => .json cause
  | name :: path, cause => .field .read name (nest path cause)

/-- An exception shows where it came from. -/
theorem nest_injective {path path' : List Text} {cause cause' : JsonError}
    (h : nest path cause = nest path' cause') : path = path' ∧ cause = cause' := by
  induction path generalizing path' with
  | nil =>
      cases path' with
      | nil => exact ⟨rfl, Exception.json.inj h⟩
      | cons name' path' => cases h
  | cons name path ih =>
      cases path' with
      | nil => cases h
      | cons name' path' =>
          obtain ⟨-, rfl, hinner⟩ := Exception.field.inj h
          obtain ⟨rfl, rfl⟩ := ih hinner
          exact ⟨rfl, rfl⟩

/-! ## Where a read fails -/

/-- The first of some items that fails does so for a cause, inside the fields of a path. -/
def FirstFails {ι : Type} (fails : ι → List Text → JsonError → Prop) (items : List ι)
    (path : List Text) (cause : JsonError) : Prop :=
  ∃ before item after, items = before ++ item :: after ∧
    (∀ earlier ∈ before, ∀ path cause, ¬ fails earlier path cause) ∧ fails item path cause

/-- A field fails: the value of its key does, or the key is missing where it may not. -/
def FieldFails (mode : MissingFields) (fieldsOptional : Bool) (name : Text) (json : Json)
    (fails : Json → List Text → JsonError → Prop) (path : List Text) (cause : JsonError) : Prop :=
  ∃ rest, path = name :: rest ∧
    ((∃ subkey, json.find name = some subkey ∧ fails subkey rest cause) ∨
      (json.find name = none ∧ mode = .throwException ∧ fieldsOptional = false ∧ rest = [] ∧
        json.atKey name = .error (.json cause)))

mutual

/-- A read fails for a cause, inside the fields of a path. -/
def FailsAt {α : Type} : JType α → MissingFields → Json → List Text → JsonError → Prop
  | .scalar codec, _, json, path, cause =>
      path = [] ∧ cause = .typeMustBe codec.kind json.kind ∧ codec.get json = none
  | .string, _, json, path, cause => path = [] ∧ json.getString = .error (.json cause)
  | .json, _, _, _, _ => False
  | .sequence t, _, json, path, cause =>
      FirstFails (FailsAt t .throwException) json.iterate path cause
  | .array t _, _, json, path, cause =>
      FirstFails (FailsAt t .throwException) json.iterate path cause
  | .optional t, _, json, path, cause =>
      json.isNull = false ∧ FailsAt t .throwException json path cause
  | .map t, _, json, path, cause =>
      FirstFails (fun (pair : Text × Json) path cause =>
          (path = [] ∧ json.atKey pair.1 = .error (.json cause)) ∨
            ((json.find pair.1).isSome ∧ FailsAt t .throwException pair.2 path cause))
        json.items path cause
  | .struct fieldsOptional fs, mode, json, path, cause =>
      FieldsFailAt fs mode fieldsOptional json path cause

/-- The first field that fails. -/
def FieldsFailAt {α : Type} :
    JFields α → MissingFields → Bool → Json → List Text → JsonError → Prop
  | .last name _ t, mode, fieldsOptional, json, path, cause =>
      FieldFails mode fieldsOptional name json (FailsAt t mode) path cause
  | .cons name _ t fs, mode, fieldsOptional, json, path, cause =>
      FieldFails mode fieldsOptional name json (FailsAt t mode) path cause ∨
        ((∀ path cause, ¬ FieldFails mode fieldsOptional name json (FailsAt t mode) path cause) ∧
          FieldsFailAt fs mode fieldsOptional json path cause)

end

/-! ## Computations that throw -/

/-- A computation throws just where it fails. -/
def Throws (a : Result α) (fails : List Text → JsonError → Prop) : Prop :=
  ∀ e, a = .error e ↔ ∃ path cause, fails path cause ∧ e = nest path cause

variable {a : Result α} {fails fails' : List Text → JsonError → Prop}

/-- What does not fail returns. -/
theorem Throws.exists_ok_iff (h : Throws a fails) :
    (∃ v, a = .ok v) ↔ ∀ path cause, ¬ fails path cause := by
  cases a with
  | ok v =>
      constructor
      · intro _ path cause hfails
        have herror := (h (nest path cause)).mpr ⟨path, cause, hfails, rfl⟩
        cases herror
      · exact fun _ => ⟨v, rfl⟩
  | error e =>
      constructor
      · rintro ⟨v, hv⟩
        cases hv
      · intro hnone
        obtain ⟨path, cause, hfails, -⟩ := (h e).mp rfl
        exact (hnone path cause hfails).elim

theorem throws_ok (v : α) : Throws (.ok v) fun _ _ => False := by
  intro e
  constructor
  · intro h
    cases h
  · rintro ⟨path, cause, hfalse, -⟩
    exact hfalse.elim

theorem Throws.congr (h : Throws a fails)
    (hiff : ∀ path cause, fails path cause ↔ fails' path cause) : Throws a fails' := by
  intro e
  rw [h e]
  simp only [hiff]

/-- A sequence fails where its first part does, or where the second one does after it. -/
theorem Throws.bind {f : α → Result β} (h : Throws a fails)
    (hf : ∀ v, a = .ok v → Throws (f v) fails') :
    Throws (a >>= f) fun path cause =>
      fails path cause ∨ ((∀ path cause, ¬ fails path cause) ∧ fails' path cause) := by
  intro e
  cases hrun : a with
  | ok v =>
      have hnone := h.exists_ok_iff.mp ⟨v, hrun⟩
      simp only [hnone, false_or, not_false_eq_true, implies_true, true_and]
      exact hf v hrun e
  | error e' =>
      obtain ⟨path, cause, hfails, rfl⟩ := (h e').mp hrun
      have hsome : ¬ ∀ path cause, ¬ fails path cause := fun hnone => hnone path cause hfails
      simp only [hsome, false_and, or_false]
      rw [← h e, hrun]
      constructor
      · intro heq
        exact congrArg Except.error (Except.error.inj heq)
      · intro heq
        exact congrArg Except.error (Except.error.inj heq)

/-- What is done with the result does not throw. -/
theorem Throws.map {g : α → β} (h : Throws a fails) :
    Throws (a >>= fun v => pure (g v)) fails :=
  (h.bind fun v _ => throws_ok (g v)).congr fun path cause => by simp

/-- The `catch` clauses of `read_object`. -/
theorem Throws.inField (h : Throws a fails) (name : Text) :
    Throws (inField .read name a) fun path cause => ∃ rest, path = name :: rest ∧
      fails rest cause := by
  intro e
  cases hrun : a with
  | ok v =>
      have hnone := h.exists_ok_iff.mp ⟨v, hrun⟩
      constructor
      · intro herror
        cases herror
      · rintro ⟨path, cause, ⟨rest, -, hfails⟩, -⟩
        exact (hnone rest cause hfails).elim
  | error e' =>
      constructor
      · intro herror
        obtain ⟨rest, cause, hfails, rfl⟩ := (h e').mp hrun
        cases herror
        exact ⟨name :: rest, cause, ⟨rest, rfl, hfails⟩, rfl⟩
      · rintro ⟨path, cause, ⟨rest, rfl, hfails⟩, rfl⟩
        have herror := (h (nest rest cause)).mpr ⟨rest, cause, hfails, rfl⟩
        rw [hrun] at herror
        cases herror
        rfl

/-- A loop over independent computations. -/
theorem throws_collect {σ ι : Type} {compute : σ → ι → Result α} {store : σ → ι → α → σ}
    {items : List ι} (hindep : Independent compute store items) {s : σ}
    {fails : ι → List Text → JsonError → Prop} (h : ∀ item, Throws (compute s item) (fails item)) :
    Throws (collect compute store items s) (FirstFails fails items) := by
  intro e
  rw [collect_eq_error_iff hindep]
  simp only [(h _).exists_ok_iff]
  constructor
  · rintro ⟨before, item, after, hitems, hbefore, herror⟩
    obtain ⟨path, cause, hfails, rfl⟩ := (h item e).mp herror
    exact ⟨path, cause, ⟨before, item, after, hitems, hbefore, hfails⟩, rfl⟩
  · rintro ⟨path, cause, ⟨before, item, after, hitems, hbefore, hfails⟩, rfl⟩
    exact ⟨before, item, after, hitems, hbefore, (h item _).mpr ⟨path, cause, hfails, rfl⟩⟩

theorem throws_atKey (json : Json) (key : Text) :
    Throws (json.atKey key) fun path cause =>
      path = [] ∧ json.atKey key = .error (.json cause) := by
  intro e
  constructor
  · intro h
    have hcause : ∃ cause, e = .json cause := by
      unfold Json.atKey at h
      split at h
      · split at h
        · exact ⟨_, (Except.error.inj h).symm⟩
        · cases h
      · exact ⟨_, (Except.error.inj h).symm⟩
    obtain ⟨cause, rfl⟩ := hcause
    exact ⟨[], cause, ⟨rfl, h⟩, rfl⟩
  · rintro ⟨path, cause, ⟨rfl, h⟩, rfl⟩
    exact h

/-- The reads of a field. -/
theorem throws_readField {mode : MissingFields} {fieldsOptional : Bool} {t : JType α}
    {name : Text} {json : Json} {target : α} {readSubkey : Json → Result α}
    {fails : Json → List Text → JsonError → Prop}
    (h : ∀ subkey, Throws (readSubkey subkey) (fails subkey)) :
    Throws (readField mode false fieldsOptional t name json target readSubkey)
      (FieldFails mode fieldsOptional name json fails) := by
  cases hfind : json.find name with
  | some subkey =>
      rw [readField_of_find hfind]
      refine ((h subkey).inField name).congr fun path cause => ?_
      simp only [FieldFails, hfind, Option.some.injEq, exists_eq_left', reduceCtorEq, false_and,
        or_false]
  | none =>
      by_cases hinsists : mode = .throwException ∧ fieldsOptional = false
      · obtain ⟨rfl, rfl⟩ := hinsists
        have hmissing : readField .throwException false false t name json target readSubkey =
            inField .read name (json.atKey name >>= readSubkey) := by
          unfold readField
          rw [if_pos (Or.inl ⟨rfl, by decide, by decide⟩)]
        have hnone : ∀ v, json.atKey name ≠ .ok v := by
          intro v hv
          rw [atKey_eq_ok_iff, hfind] at hv
          cases hv
        have hnever : ∀ v, json.atKey name = .ok v → Throws (readSubkey v) fun _ _ => False :=
          fun v hv => (hnone v hv).elim
        rw [hmissing]
        refine (((throws_atKey json name).bind hnever).inField name).congr fun path cause => ?_
        simp only [FieldFails, hfind, reduceCtorEq, false_and, exists_false, false_or, and_false,
          or_false, true_and]
      · have hreturns : ∃ v, readField mode false fieldsOptional t name json target readSubkey =
            .ok v := by
          refine ⟨_, (readField_of_missing hfind).mpr ⟨?_, rfl⟩⟩
          rintro ⟨hmode, -, hoptional⟩
          exact hinsists ⟨hmode, Bool.not_eq_true _ ▸ hoptional⟩
        obtain ⟨v, hv⟩ := hreturns
        rw [hv]
        refine (throws_ok v).congr fun path cause => ?_
        simp only [FieldFails, hfind, reduceCtorEq, false_and, exists_false, false_or, true_and,
          false_iff, not_exists, not_and]
        intro rest _ hmode hoptional
        exact (hinsists ⟨hmode, hoptional⟩).elim

/-- A read throws just where it fails, whatever it reads into. -/
theorem throws_readTo (t : JType α) (mode : MissingFields) (json : Json) (target : α) :
    Throws (readTo mode t json target) (FailsAt t mode json) := by
  induction t using @JType.rec _
    (fun {α} fs => ∀ (mode : MissingFields) (fieldsOptional : Bool) (json : Json) (target : α),
      Throws (readObject mode false fieldsOptional fs json target)
        (FieldsFailAt fs mode fieldsOptional json)) generalizing mode json with
  | scalar codec =>
      intro e
      rw [readTo]
      cases hget : codec.get json with
      | none =>
          constructor
          · intro h
            cases h
            exact ⟨[], _, ⟨rfl, rfl, hget⟩, rfl⟩
          · rintro ⟨path, cause, ⟨rfl, rfl, -⟩, rfl⟩
            rfl
      | some v =>
          constructor
          · intro h
            cases h
          · rintro ⟨path, cause, ⟨-, -, hnone⟩, -⟩
            rw [hget] at hnone
            cases hnone
  | string =>
      intro e
      rw [readTo]
      constructor
      · intro h
        have hcause : ∃ cause, e = .json cause := by
          unfold Json.getString at h
          split at h
          · cases h
          · exact ⟨_, (Except.error.inj h).symm⟩
        obtain ⟨cause, rfl⟩ := hcause
        exact ⟨[], cause, ⟨rfl, h⟩, rfl⟩
      · rintro ⟨path, cause, ⟨rfl, h⟩, rfl⟩
        exact h
  | json =>
      rw [readTo]
      exact throws_ok json
  | sequence t ih =>
      rw [readTo_sequence]
      exact throws_collect (independent_of_const _ _ _) fun item =>
        ih .throwException item (fresh t)
  | array t n ih =>
      rw [readTo_array]
      exact (throws_collect (independent_of_const _ _ _) fun item =>
        ih .throwException item (fresh t)).map
  | optional t ih =>
      rw [readTo_optional, readOptional]
      cases hnull : json.isNull with
      | true =>
          rw [if_pos rfl]
          refine (throws_ok none).congr fun path cause => ?_
          simp only [FailsAt, hnull, Bool.true_eq_false, false_and]
      | false =>
          rw [if_neg Bool.false_ne_true]
          refine ((ih .throwException json (fresh t)).map).congr fun path cause => ?_
          simp only [FailsAt, hnull, true_and]
  | map t ih =>
      rw [readTo_map, readMap]
      refine throws_collect (independent_items _ _ _) fun pair => ?_
      refine ((throws_atKey json pair.1).bind fun _ _ =>
        ih .throwException pair.2 (target[pair.1]?.getD (valueInit t))).congr fun path cause => ?_
      apply or_congr_right
      apply and_congr_left'
      rw [← (throws_atKey json pair.1).exists_ok_iff]
      simp only [atKey_eq_ok_iff, Option.isSome_iff_exists]
  | struct fieldsOptional fs ih =>
      rw [readTo]
      exact ih mode fieldsOptional json target
  | last name init t ih mode fieldsOptional json target =>
      rw [readObject]
      exact throws_readField fun subkey => ih mode subkey target
  | cons name init t fs ih ihfs mode fieldsOptional json target =>
      obtain ⟨target, targets⟩ := target
      rw [readObject]
      exact (throws_readField fun subkey => ih mode subkey target).bind fun v _ =>
        (ihfs mode fieldsOptional json targets).map

/-! ## The texts -/

/-- The text that `read_object` puts in front of the name of a field. -/
def opening : Text := text "bpjson::json_serializer.read_object: field '"

theorem what_nest (whatJson : JsonError → Text) (path : List Text) (cause : JsonError) :
    (nest path cause).what whatJson =
      render opening (text "' caught exception - ") id whatJson path cause := by
  induction path with
  | nil => rfl
  | cons name path ih =>
      rw [nest, Exception.what, ih]
      rfl

/-- The text shows the fields and the library's own text, and nothing else. -/
theorem what_nest_congr {whatJson : JsonError → Text} {path : List Text} {cause cause' : JsonError}
    (h : whatJson cause = whatJson cause') :
    (nest path cause).what whatJson = (nest path cause').what whatJson := by
  induction path with
  | nil => exact h
  | cons name path ih =>
      rw [nest, nest, Exception.what, Exception.what, ih]

mutual

/-- No name of a field has an apostrophe. -/
def PlainNames {α : Type} : JType α → Prop
  | .scalar _ => True
  | .string => True
  | .json => True
  | .sequence t => PlainNames t
  | .array t _ => PlainNames t
  | .optional t => PlainNames t
  | .map t => PlainNames t
  | .struct _ fs => PlainNamesFields fs

def PlainNamesFields {α : Type} : JFields α → Prop
  | .last name _ t => (39 : UInt8) ∉ name ∧ PlainNames t
  | .cons name _ t fs => ((39 : UInt8) ∉ name ∧ PlainNames t) ∧ PlainNamesFields fs

end

theorem plain_of_fieldFails {mode : MissingFields} {fieldsOptional : Bool} {name : Text}
    {json : Json} {fails : Json → List Text → JsonError → Prop} {path : List Text}
    {cause : JsonError} (hname : (39 : UInt8) ∉ name)
    (h : ∀ subkey rest, fails subkey rest cause → ∀ place ∈ rest, (39 : UInt8) ∉ place)
    (hfails : FieldFails mode fieldsOptional name json fails path cause) :
    ∀ place ∈ path, (39 : UInt8) ∉ place := by
  obtain ⟨rest, rfl, ⟨subkey, -, hsubkey⟩ | ⟨-, -, -, rfl, -⟩⟩ := hfails
  · exact List.forall_mem_cons.mpr ⟨hname, h subkey rest hsubkey⟩
  · exact List.forall_mem_cons.mpr ⟨hname, nofun⟩

/-- The path of a failure is made of the names of fields. -/
theorem plain_of_failsAt (t : JType α) (hplain : PlainNames t) (mode : MissingFields)
    (json : Json) (path : List Text) (cause : JsonError) (hfails : FailsAt t mode json path cause) :
    ∀ place ∈ path, (39 : UInt8) ∉ place := by
  induction t using @JType.rec _
    (fun {α} fs => PlainNamesFields fs → ∀ (mode : MissingFields) (fieldsOptional : Bool)
      (json : Json) (path : List Text) (cause : JsonError),
        FieldsFailAt fs mode fieldsOptional json path cause →
          ∀ place ∈ path, (39 : UInt8) ∉ place) generalizing mode json path cause with
  | scalar codec =>
      obtain ⟨rfl, -⟩ := hfails
      exact nofun
  | string =>
      obtain ⟨rfl, -⟩ := hfails
      exact nofun
  | json => exact hfails.elim
  | sequence t ih =>
      obtain ⟨before, item, after, -, -, hitem⟩ := hfails
      exact ih hplain .throwException item path cause hitem
  | array t n ih =>
      obtain ⟨before, item, after, -, -, hitem⟩ := hfails
      exact ih hplain .throwException item path cause hitem
  | optional t ih => exact ih hplain .throwException json path cause hfails.2
  | map t ih =>
      obtain ⟨before, pair, after, -, -, ⟨rfl, -⟩ | ⟨-, hvalue⟩⟩ := hfails
      · exact nofun
      · exact ih hplain .throwException pair.2 path cause hvalue
  | struct fieldsOptional fs ih => exact ih hplain mode fieldsOptional json path cause hfails
  | last name init t ih hplain mode fieldsOptional json path cause hfails place hmem =>
      exact plain_of_fieldFails hplain.1
        (fun subkey rest => ih hplain.2 mode subkey rest cause) hfails place hmem
  | cons name init t fs ih ihfs hplain mode fieldsOptional json path cause hfails place hmem =>
      rcases hfails with hfirst | ⟨-, hrest⟩
      · exact plain_of_fieldFails hplain.1.1
          (fun subkey rest => ih hplain.1.2 mode subkey rest cause) hfirst place hmem
      · exact ihfs hplain.2 mode fieldsOptional json path cause hrest place hmem

/-- The fields and the library's own text can be read off the text of an exception. -/
theorem what_nest_injective {whatJson : JsonError → Text}
    (hopening : ∀ cause, ¬ opening <+: whatJson cause) {path path' : List Text}
    {cause cause' : JsonError} (hpath : ∀ place ∈ path, (39 : UInt8) ∉ place)
    (hpath' : ∀ place ∈ path', (39 : UInt8) ∉ place)
    (h : (nest path cause).what whatJson = (nest path' cause').what whatJson) :
    path = path' ∧ whatJson cause = whatJson cause' := by
  have hclosing : text "' caught exception - " = (39 : UInt8) :: text " caught exception - " := rfl
  rw [what_nest, what_nest] at h
  exact render_injective hclosing (fun place hplace => hplace) (fun _ _ _ _ hlabel => hlabel)
    hpath hpath' (hopening cause) (hopening cause') h

/-- A read throws exactly when a value cannot be converted or a key is missing where it may
not, and the exception nests the fields on the way to the first such place, whatever is read
into. The text of the exception determines these fields and the library's own text. -/
theorem exception_names_keys (t : JType α) (mode : MissingFields) (json : Json) (target : α) :
    (∀ e, readTo mode t json target = .error e ↔
      ∃ path cause, FailsAt t mode json path cause ∧ e = nest path cause) ∧
    (∀ whatJson : JsonError → Text, (∀ cause, ¬ opening <+: whatJson cause) → PlainNames t →
        ∀ path cause, FailsAt t mode json path cause →
          ∀ path' cause', (∀ place ∈ path', (39 : UInt8) ∉ place) →
            (nest path' cause').what whatJson = (nest path cause).what whatJson →
              path' = path ∧ whatJson cause' = whatJson cause) := by
  refine ⟨throws_readTo t mode json target, ?_⟩
  intro whatJson hopening hplain path cause hfails path' cause' hpath' h
  exact what_nest_injective hopening hpath'
    (plain_of_failsAt t hplain mode json path cause hfails) h

/-- The names that `type_name()` gives. -/
def JsonKind.name : JsonKind → Text
  | .null => text "null"
  | .boolean => text "boolean"
  | .number => text "number"
  | .string => text "string"
  | .array => text "array"
  | .object => text "object"

/-- What stands behind `[json.exception.` in the texts of `nlohmann::json`. -/
def JsonError.detail : JsonError → Text
  | .typeMustBe expected actual =>
      text "type_error.302] type must be " ++ expected.name ++ text ", but is " ++ actual.name
  | .cannotUse (.atKey _) actual => text "type_error.304] cannot use at() with " ++ actual.name
  | .cannotUse (.subscript _) actual =>
      text "type_error.305] cannot use operator[] with a string argument with " ++ actual.name
  | .cannotUse .pushBack actual =>
      text "type_error.308] cannot use push_back() with " ++ actual.name
  | .keyNotFound key => text "out_of_range.403] key '" ++ key ++ text "' not found"

/-- The texts of `nlohmann::json`. -/
def JsonError.what (cause : JsonError) : Text := text "[json.exception." ++ cause.detail

theorem what_opening (cause : JsonError) : ¬ opening <+: cause.what := by
  intro h
  have hfirst : (98 : UInt8) = 91 := (List.cons_prefix_cons.mp h).1
  exact absurd hfirst (by decide)

/-- A struct with one key `f`. -/
def sampleFlag : JType Bool := .struct false (.last [102] none (.scalar boolCodec))

/-- The second struct of a list has no key `f`, and so says the text. -/
theorem exception_names_keys_list :
    readTo .throwException (.sequence sampleFlag)
        (.array [.object [([102], .boolean true)], .object []]) [] =
      .error (nest [[102]] (.keyNotFound [102])) ∧
    ∀ path' cause', (∀ place ∈ path', (39 : UInt8) ∉ place) →
      (nest path' cause').what JsonError.what =
          (nest [[102]] (.keyNotFound [102])).what JsonError.what →
        path' = [[102]] ∧
          cause'.what = text "[json.exception.out_of_range.403] key 'f' not found" := by
  obtain ⟨hread, htext⟩ := exception_names_keys (.sequence sampleFlag) .throwException
    (.array [.object [([102], .boolean true)], .object []]) []
  have hfails : FailsAt (.sequence sampleFlag) .throwException
      (.array [.object [([102], .boolean true)], .object []]) [[102]] (.keyNotFound [102]) := by
    refine ⟨[.object [([102], .boolean true)]], .object [], [], rfl, ?_, [], rfl,
      Or.inr ⟨rfl, rfl, rfl, rfl, rfl⟩⟩
    rw [List.forall_mem_singleton]
    exact (throws_readTo sampleFlag _ _ false).exists_ok_iff.mp ⟨true, rfl⟩
  have hplain : PlainNames (.sequence sampleFlag) := ⟨by decide, trivial⟩
  refine ⟨(hread _).mpr ⟨_, _, hfails, rfl⟩, ?_⟩
  intro path' cause' hpath' hsame
  exact htext JsonError.what what_opening hplain _ _ hfails path' cause' hpath' hsame

end BacsEnv.Bpjson
