import BacsEnv.Analysis.Bpacs.Registry
import BacsEnv.Analysis.Bpjson.RoundTrip
import BacsEnv.Model.Bpjson.Registered

/-!
# Objects of a registered class as JSON

`write_object` and `read_object` on an object are those of the `struct` of the fields that
`bpacs` visits (`writeRegistered_eq`, `readRegistered_ok_iff`). So a document that was
written from one object fills another as the round trip of a `struct` does: the visited
members come over, when the target is clean and no engaged optional is written as `null`,
and nothing else of the target is touched.
-/

set_option autoImplicit false

namespace BacsEnv.Bpjson

open Bpacs Collect

variable {Holder α : Type}

/-- The fields as those of a `struct`. -/
def toFields : (field : FieldMeta JType Holder) → (fields : List (FieldMeta JType Holder)) →
    JFields (Member.Values FieldMeta.α field fields)
  | field, [] => .last field.name none field.type
  | field, next :: fields => .cons field.name none field.type (toFields next fields)

/-! ## Refinement -/

theorem foldlM_writeMember_eq (field : FieldMeta JType Holder)
    (fields : List (FieldMeta JType Holder)) (object : Holder) (json : Json) :
    (field :: fields).foldlM (writeMember object) json =
      writeObject (toFields field fields) (membersOf field fields object) json := by
  induction fields generalizing field json with
  | nil =>
      rw [List.foldlM_cons]
      exact bind_pure _
  | cons next fields ih =>
      rw [List.foldlM_cons]
      show writeMember object json field >>= (fun json => _) = _
      simp only [ih]
      rfl

/-- Writing an object is writing the `struct` of its members. -/
theorem writeRegistered_eq {registry : Registry JType Holder} {field : FieldMeta JType Holder}
    {fields : List (FieldMeta JType Holder)}
    (hfields : registry.iterateFields = field :: fields) (fieldsOptional : Bool)
    (object : Holder) (json : Json) :
    writeRegistered registry object json =
      writeFrom (.struct fieldsOptional (toFields field fields)) (membersOf field fields object)
        json := by
  rw [writeRegistered, hfields]
  exact foldlM_writeMember_eq field fields object json

theorem readMember_ok_iff {mode : MissingFields} {fieldsOptional : Bool} {json : Json}
    {field : FieldMeta JType Holder} {object object' : Holder} :
    readMember mode fieldsOptional json object field = .ok object' ↔
      ∃ value, readField mode false fieldsOptional field.type field.name json
          (field.member.get object)
          (fun subkey => readTo mode field.type subkey (field.member.get object)) = .ok value ∧
        object' = field.member.set value object := by
  rw [readMember, bind_eq_ok_iff]
  constructor
  · rintro ⟨value, hvalue, hset⟩
    exact ⟨value, hvalue, (Except.ok.inj hset).symm⟩
  · rintro ⟨value, hvalue, rfl⟩
    exact ⟨value, hvalue, rfl⟩

theorem foldlM_readMember_ok_iff {mode : MissingFields} {fieldsOptional : Bool} {json : Json}
    {field : FieldMeta JType Holder} {fields : List (FieldMeta JType Holder)}
    (hapart : (field :: fields).Pairwise fun f g => f.member.Apart g.member)
    {object object' : Holder} :
    (field :: fields).foldlM (readMember mode fieldsOptional json) object = .ok object' ↔
      ∃ v, readObject mode false fieldsOptional (toFields field fields) json
          (membersOf field fields object) = .ok v ∧
        object' = withMembers field fields v object := by
  induction fields generalizing field object with
  | nil =>
      rw [List.foldlM_cons, bind_eq_ok_iff]
      simp only [readMember_ok_iff, List.foldlM_nil]
      constructor
      · rintro ⟨next, ⟨value, hvalue, rfl⟩, hpure⟩
        exact ⟨value, hvalue, (Except.ok.inj hpure).symm⟩
      · rintro ⟨value, hvalue, rfl⟩
        exact ⟨_, ⟨value, hvalue, rfl⟩, rfl⟩
  | cons next fields ih =>
      obtain ⟨hfirst, hrest⟩ := List.pairwise_cons.mp hapart
      rw [List.foldlM_cons, bind_eq_ok_iff]
      simp only [readMember_ok_iff, ih hrest]
      constructor
      · rintro ⟨middle, ⟨value, hvalue, rfl⟩, v, hv, rfl⟩
        -- The members behind the first are as they were before it was assigned.
        rw [membersOf, Member.project_set hfirst] at hv
        exact ⟨(value, v), pair_eq_ok_iff.mpr ⟨hvalue, hv⟩, rfl⟩
      · rintro ⟨v, hread, rfl⟩
        obtain ⟨hvalue, hv⟩ := pair_eq_ok_iff.mp hread
        refine ⟨_, ⟨v.1, hvalue, rfl⟩, v.2, ?_, rfl⟩
        rw [membersOf, Member.project_set hfirst]
        exact hv

/-- A read into an object returns when one of the `struct` of its members does, and assigns
what that one returns. -/
theorem readRegistered_ok_iff {mode : MissingFields} {fieldsOptional : Bool}
    {registry : Registry JType Holder} (hapart : registry.MembersApart)
    {field : FieldMeta JType Holder} {fields : List (FieldMeta JType Holder)}
    (hfields : registry.iterateFields = field :: fields) {json : Json} {object object' : Holder} :
    readRegistered mode fieldsOptional registry json object = .ok object' ↔
      ∃ v, readTo mode (.struct fieldsOptional (toFields field fields)) json
          (membersOf field fields object) = .ok v ∧
        object' = withMembers field fields v object := by
  have hpairwise := Registry.Pairwise.iterateFields hapart
  rw [hfields] at hpairwise
  rw [readRegistered, hfields]
  exact foldlM_readMember_ok_iff hpairwise

/-! ## What is asked of the members -/

theorem fieldNames_toFields (field : FieldMeta JType Holder)
    (fields : List (FieldMeta JType Holder)) :
    fieldNames (toFields field fields) = (field :: fields).map FieldMeta.name := by
  induction fields generalizing field with
  | nil => rfl
  | cons next fields ih =>
      show field.name :: fieldNames (toFields next fields) = _
      rw [ih]
      rfl

theorem distinctNames_toFields {field : FieldMeta JType Holder}
    {fields : List (FieldMeta JType Holder)}
    (h : ∀ f ∈ field :: fields, DistinctNames f.type) :
    DistinctNamesFields (toFields field fields) := by
  induction fields generalizing field with
  | nil => exact h field (List.mem_singleton_self field)
  | cons next fields ih =>
      obtain ⟨hfirst, hrest⟩ := List.forall_mem_cons.mp h
      exact ⟨hfirst, ih hrest⟩

theorem mergeFields_toFields_iff {field : FieldMeta JType Holder}
    {fields : List (FieldMeta JType Holder)} {a b : Holder} :
    mergeFields (toFields field fields) (membersOf field fields b) (membersOf field fields a) =
        membersOf field fields a ↔
      ∀ f ∈ field :: fields,
        merge f.type (f.member.get b) (f.member.get a) = f.member.get a := by
  induction fields generalizing field with
  | nil =>
      rw [List.forall_mem_singleton]
      exact Iff.rfl
  | cons next fields ih =>
      rw [List.forall_mem_cons, ← ih]
      exact Prod.ext_iff

/-- What is read from its image into a target is the value itself only if nothing is lost. -/
theorem disengage_eq_of_merge_eq {t : JType α} {target v : α} (h : merge t target v = v) :
    disengage t v = v := by
  induction t using @JType.rec _
    (fun {α} fs => ∀ target v : α, mergeFields fs target v = v → disengageFields fs v = v) with
  | scalar codec => rfl
  | string => rfl
  | json => rfl
  | sequence t ih =>
      rw [merge] at h
      have hlen := congrArg List.length h
      simp only [List.length_append, List.length_map] at hlen
      obtain rfl : target = [] := List.length_eq_zero_iff.mp (by omega)
      rw [List.nil_append, map_eq_self_iff] at h
      exact map_eq_self_iff.mpr fun x hx => ih (h x hx)
  | array t n ih =>
      rw [merge, vector_map_eq_self_iff] at h
      exact vector_map_eq_self_iff.mpr fun x hx => ih (h x hx)
  | optional t ih =>
      cases v with
      | none => rfl
      | some v =>
          rw [merge] at h
          rw [disengage]
          cases hnull : writtenNull t v with
          | true =>
              rw [hnull, if_pos rfl] at h
              cases h
          | false =>
              rw [hnull, if_neg Bool.false_ne_true] at h
              rw [if_neg Bool.false_ne_true, ih (Option.some.inj h)]
  | map t ih =>
      have hself : (v.map fun _ => id) = v := stringMap_map_eq_self_iff.mpr fun _ _ => rfl
      have hstored := (insertMany_eq_map_iff (g := id)
        (f := fun key => merge t (target[key]?.getD (valueInit t)))).mp (h.trans hself.symm)
      exact stringMap_map_eq_self_iff.mpr fun pair hpair => ih (hstored.2 pair hpair)
  | struct fieldsOptional fs ih => exact ih target v h
  | last name init t ih target v h => exact ih h
  | cons name init t fs ih ihfs target v h =>
      obtain ⟨hfirst, hrest⟩ := Prod.ext_iff.mp h
      exact Prod.ext (ih hfirst) (ihfs target.2 v.2 hrest)

/-- A value is what is read from its image exactly when the target is clean and no engaged
optional of it is written as `null`. -/
theorem merge_eq_self_iff (t : JType α) (target v : α) :
    merge t target v = v ↔ Clean t target v ∧ ¬ HasNullPayload t v := by
  rw [← merge_eq_disengage_iff, ← disengage_eq_self_iff]
  constructor
  · intro h
    have hkept := disengage_eq_of_merge_eq h
    exact ⟨h.trans hkept.symm, hkept⟩
  · rintro ⟨hmerge, hkept⟩
    exact hmerge.trans hkept

/-! ## From one object to another -/

/-- The document of an object, read into another one, transfers the visited members and
nothing else, exactly when each of these is clean in the object that is read into and has no
engaged optional whose payload is written as `null`. -/
theorem document_transferred_iff {registry : Registry JType Holder}
    (hreflected : registry.hasBpReflection = true) (hapart : registry.MembersApart)
    (hnames : registry.Pairwise fun field field' => field.name ≠ field'.name)
    (hdistinct : ∀ I field, registry.fieldMeta I = some field → registry.Visited I →
      DistinctNames field.type) (fieldsOptional : Bool) (a b : Holder) :
    ∃ json, writeRegistered registry a .null = .ok json ∧
      ((∃ b', readRegistered .throwException fieldsOptional registry json b = .ok b' ∧
          registry.Transferred a b b') ↔
        ∀ I field, registry.fieldMeta I = some field → registry.Visited I →
          Clean field.type (field.member.get b) (field.member.get a) ∧
            ¬ HasNullPayload field.type (field.member.get a)) := by
  obtain ⟨field, fields, hfields⟩ := Registry.exists_iterateFields hreflected
  have hpairwise := Registry.Pairwise.iterateFields hapart
  have hnodup := List.pairwise_map.mpr (Registry.Pairwise.iterateFields hnames)
  rw [← Registry.forall_iterateFields_iff] at hdistinct
  rw [hfields] at hpairwise hnodup hdistinct
  rw [← fieldNames_toFields] at hnodup
  have htype : DistinctNames (.struct fieldsOptional (toFields field fields)) :=
    ⟨hnodup, distinctNames_toFields hdistinct⟩
  refine ⟨image (.struct fieldsOptional (toFields field fields)) (membersOf field fields a),
    ?_, ?_⟩
  · rw [writeRegistered_eq hfields fieldsOptional]
    exact writeFrom_eq_image htype _
  · simp only [← merge_eq_self_iff]
    rw [← Registry.forall_iterateFields_iff, hfields, ← mergeFields_toFields_iff]
    have hread := readTo_image htype (membersOf field fields a) (membersOf field fields b)
    constructor
    · rintro ⟨b', hb', htransferred⟩
      obtain ⟨v, hv, rfl⟩ := (readRegistered_ok_iff hapart hfields).mp hb'
      have hvisited := Registry.forall_iterateFields_iff.mpr htransferred.visited
      rw [hfields] at hvisited
      have hsame : v = membersOf field fields a :=
        (Member.project_assign hpairwise v b).symm.trans (Member.project_eq_iff.mpr hvisited)
      have hmerge := Except.ok.inj (hread.symm.trans hv)
      exact hmerge.trans hsame
    · intro hmerge
      exact ⟨_, (readRegistered_ok_iff hapart hfields).mpr
        ⟨_, hread.trans (congrArg Except.ok hmerge), rfl⟩,
        Registry.transferred_assign hapart hfields a b⟩

/-- A class with a `std::optional<bool>`, a `std::list<bool>` and a `bool`. -/
structure Options where
  verbose : Option Bool
  levels : List Bool
  secret : Bool

/-- `verbose` and `levels` are registered at `0` and `1`, and `secret` at `3`. -/
def optionsRegistry : Registry JType Options where
  specialisations :=
    [some ⟨text "Options", text "verbose", Option Bool, .optional (.scalar boolCodec),
        ⟨Options.verbose, fun v o => { o with verbose := v }, fun _ _ => rfl⟩⟩,
      some ⟨text "Options", text "levels", List Bool, .sequence (.scalar boolCodec),
        ⟨Options.levels, fun v o => { o with levels := v }, fun _ _ => rfl⟩⟩,
      none,
      some ⟨text "Options", text "secret", Bool, .scalar boolCodec,
        ⟨Options.secret, fun v o => { o with secret := v }, fun _ _ => rfl⟩⟩]

theorem optionsRegistry_membersApart : optionsRegistry.MembersApart := by
  apply Registry.membersApart_of_specialisations
  simp only [optionsRegistry, List.pairwise_cons, List.mem_cons, List.not_mem_nil, or_false,
    forall_eq_or_imp, forall_eq, Option.mem_def, Option.some.injEq, forall_eq',
    reduceCtorEq, false_implies, implies_true, and_true, true_and, List.Pairwise.nil]
  exact ⟨⟨⟨fun _ _ => rfl, fun _ _ => rfl⟩, ⟨fun _ _ => rfl, fun _ _ => rfl⟩⟩,
    ⟨fun _ _ => rfl, fun _ _ => rfl⟩⟩

theorem optionsRegistry_names :
    optionsRegistry.Pairwise fun field field' => field.name ≠ field'.name := by
  refine Registry.pairwise_of_specialisations (fun _ _ hne => Ne.symm hne) ?_
  simp only [optionsRegistry, List.pairwise_cons, List.mem_cons, List.not_mem_nil, or_false,
    forall_eq_or_imp, forall_eq, Option.mem_def, Option.some.injEq, forall_eq',
    reduceCtorEq, false_implies, implies_true, and_true, true_and, List.Pairwise.nil]
  decide

/-- The engaged flag and the list come over; the secret does not. -/
theorem document_transferred_options :
    ∃ json, writeRegistered optionsRegistry ⟨some true, [false, true], true⟩ .null = .ok json ∧
      ∃ b', readRegistered .throwException false optionsRegistry json ⟨none, [], false⟩ =
          .ok b' ∧
        optionsRegistry.Transferred ⟨some true, [false, true], true⟩ ⟨none, [], false⟩ b' := by
  obtain ⟨json, hwrite, hiff⟩ := document_transferred_iff rfl optionsRegistry_membersApart
    optionsRegistry_names
    (by
      rw [← Registry.forall_iterateFields_iff]
      simp [optionsRegistry, Registry.iterateFields, fieldIterator, DistinctNames])
    false ⟨some true, [false, true], true⟩ ⟨none, [], false⟩
  refine ⟨json, hwrite, hiff.mpr ?_⟩
  rw [← Registry.forall_iterateFields_iff]
  simp [optionsRegistry, Registry.iterateFields, fieldIterator, Clean, HasNullPayload,
    writtenNull]

end BacsEnv.Bpjson
