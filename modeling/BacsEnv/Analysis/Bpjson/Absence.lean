import BacsEnv.Analysis.Bpjson.Image

/-!
# Where `null` stands in what is written

The writer makes an array by `push_back` and an object by `operator[]`, so a container or
map without elements stays the `null` that the node was. `Shows` is what the JSON value of
a value should look like, with `null` for disengaged optionals only, and `NoneEmpty` says
when it does.
-/

set_option autoImplicit false

namespace BacsEnv.Bpjson

variable {α β : Type}

mutual

/-- The JSON value shows the value: arrays for containers, with their elements in order,
objects for maps and structs, with just their keys, and `null` exactly for disengaged
optionals. -/
def Shows {α : Type} : JType α → α → Json → Prop
  | .scalar _, _, json => json.isNull = false
  | .string, _, json => json.isNull = false
  | .json, v, json => json = v
  | .sequence t, v, json => ∃ items, json = .array items ∧ List.Forall₂ (Shows t) v items
  | .array t _, v, json => ∃ items, json = .array items ∧ List.Forall₂ (Shows t) v.toList items
  | .optional _, none, json => json = .null
  | .optional t, some v, json => Shows t v json
  | .map t, v, json =>
      json.isObject = true ∧ ∀ key : Text, Option.Rel (Shows t) v[key]? (json.find key)
  | .struct _ fs, v, json =>
      json.isObject = true ∧ (∀ key, (json.find key).isSome ↔ key ∈ fieldNames fs) ∧
        ShowsFields fs v json

/-- The members of the object show the fields. -/
def ShowsFields {α : Type} : JFields α → α → Json → Prop
  | .last name _ t, v, json => ∃ subkey, json.find name = some subkey ∧ Shows t v subkey
  | .cons name _ t fs, (v, vs), json =>
      (∃ subkey, json.find name = some subkey ∧ Shows t v subkey) ∧ ShowsFields fs vs json

end

mutual

/-- No container and no map is empty, at any depth. -/
def NoneEmpty {α : Type} : JType α → α → Prop
  | .scalar _, _ => True
  | .string, _ => True
  | .json, _ => True
  | .sequence t, v => v ≠ [] ∧ ∀ x ∈ v, NoneEmpty t x
  | .array t _, v => v.toList ≠ [] ∧ ∀ x ∈ v.toList, NoneEmpty t x
  | .optional _, none => True
  | .optional t, some v => NoneEmpty t v
  | .map t, v => v.isEmpty = false ∧ ∀ pair ∈ v.toList, NoneEmpty t pair.2
  | .struct _ fs, v => NoneEmptyFields fs v

/-- `NoneEmpty` in each field. -/
def NoneEmptyFields {α : Type} : JFields α → α → Prop
  | .last _ _ t, v => NoneEmpty t v
  | .cons _ _ t fs, (v, vs) => NoneEmpty t v ∧ NoneEmptyFields fs vs

end

/-- An array is what elements that were pushed make, if there are any. -/
theorem exists_arrayOf_eq_array_iff {items : List Json} {p : List Json → Prop} :
    (∃ items', arrayOf items = .array items' ∧ p items') ↔ items ≠ [] ∧ p items := by
  cases items with
  | nil => simp [arrayOf]
  | cons item items => simp [arrayOf]

/-- The members of a map that was written. -/
theorem rel_map_iff {r : α → Json → Prop} {g : α → Json} {v : StringMap α} :
    (∀ key : Text, Option.Rel r v[key]? (v.map fun _ => g)[key]?) ↔
      ∀ pair ∈ v.toList, r pair.2 (g pair.2) := by
  simp only [Std.ExtTreeMap.getElem?_map]
  constructor
  · intro h pair hpair
    have hkey := h pair.1
    rw [Std.ExtTreeMap.mem_toList_iff_getElem?_eq_some.mp hpair] at hkey
    cases hkey with
    | some hr => exact hr
  · intro h key
    cases hkey : v[key]? with
    | none => exact .none
    | some x =>
        exact .some (h (key, x) (Std.ExtTreeMap.mem_toList_iff_getElem?_eq_some.mpr hkey))

/-- What is written shows the value, unless a container or a map is empty. -/
theorem shows_image_iff {t : JType α} (hnames : DistinctNames t) (v : α) :
    Shows t v (image t v) ↔ NoneEmpty t v := by
  induction t using @JType.rec _
    (fun {α} fs => DistinctNamesFields fs → ∀ (v : α) (m : StringMap Json),
      (∀ pair ∈ fieldImages fs v, m[pair.1]? = some pair.2) →
        (ShowsFields fs v (objectOf m) ↔ NoneEmptyFields fs v)) with
  | scalar codec => exact iff_true_intro (codec.put_not_null v)
  | string => exact iff_true_intro rfl
  | json => exact iff_true_intro rfl
  | sequence t ih =>
      rw [Shows, image, NoneEmpty, exists_arrayOf_eq_array_iff, List.forall₂_map_right_iff,
        List.forall₂_same]
      exact and_congr List.map_eq_nil_iff.not (forall₂_congr fun x _ => ih hnames x)
  | array t n ih =>
      rw [Shows, image, NoneEmpty, exists_arrayOf_eq_array_iff, List.forall₂_map_right_iff,
        List.forall₂_same]
      exact and_congr List.map_eq_nil_iff.not (forall₂_congr fun x _ => ih hnames x)
  | optional t ih =>
      cases v with
      | none => exact iff_true_intro rfl
      | some v => exact ih hnames v
  | map t ih =>
      rw [Shows, image, NoneEmpty, isObject_objectOf]
      simp only [find_objectOf, rel_map_iff]
      rw [isEmpty_map, Bool.not_eq_true']
      exact and_congr_right fun _ => forall₂_congr fun pair _ => ih hnames pair.2
  | struct fieldsOptional fs ih =>
      have hkeys : ∀ key, ((objectOf ((∅ : StringMap Json).insertMany (fieldImages fs v))).find
          key).isSome ↔ key ∈ fieldNames fs := by
        intro key
        rw [find_objectOf, Std.ExtTreeMap.isSome_getElem?_iff_mem,
          Std.ExtTreeMap.mem_insertMany_list, List.contains_iff_mem, map_fst_fieldImages]
        simp
      have hobject : (objectOf ((∅ : StringMap Json).insertMany (fieldImages fs v))).isObject =
          true := by
        rw [isObject_objectOf, isEmpty_fieldImages]
        rfl
      rw [Shows, image, NoneEmpty, and_iff_right hobject, and_iff_right hkeys]
      exact ih hnames.2 v _ fun pair hpair => getElem?_fieldImages hnames.1 hpair
  | last name init t ih hnames v m hm =>
      have hfind := hm (name, image t v) (List.mem_singleton.mpr rfl)
      rw [ShowsFields, NoneEmptyFields, find_objectOf, hfind]
      simp only [Option.some.injEq, exists_eq_left']
      exact ih hnames v
  | cons name init t fs ih ihfs hnames v m hm =>
      obtain ⟨v, vs⟩ := v
      have hfind := hm (name, image t v) List.mem_cons_self
      rw [ShowsFields, NoneEmptyFields, find_objectOf, hfind]
      simp only [Option.some.injEq, exists_eq_left']
      exact and_congr (ih hnames.1 v)
        (ihfs hnames.2 vs m fun pair hpair => hm pair (List.mem_cons_of_mem _ hpair))

/-- What writing a value should be: `null` means a disengaged optional. -/
def NullMeansAbsent (t : JType α) (v : α) : Prop :=
  ∃ json, write t v = .ok json ∧ Shows t v json

/-- `null` means a disengaged optional, if and only if no container and no map is empty. -/
theorem nullMeansAbsent_iff {t : JType α} (hnames : DistinctNames t) (v : α) :
    NullMeansAbsent t v ↔ NoneEmpty t v := by
  have hwrite : write t v = .ok (image t v) := writeFrom_eq_image hnames v
  rw [← shows_image_iff hnames]
  constructor
  · rintro ⟨json, hjson, hshows⟩
    obtain rfl := Except.ok.inj (hwrite.symm.trans hjson)
    exact hshows
  · intro hshows
    exact ⟨_, hwrite, hshows⟩

theorem sampleFlags_nullMeansAbsent :
    NullMeansAbsent sampleFlags [some true, none] ↔ NoneEmpty sampleFlags [some true, none] :=
  nullMeansAbsent_iff sampleFlags_distinctNames [some true, none]

/-- The lists without elements in `{{}, {false}}` are written as `null`. -/
theorem empty_vector_null :
    write (.sequence (.sequence (.scalar boolCodec))) [[], [false]] =
        .ok (.array [.null, .array [.boolean false]]) ∧
      ¬ NullMeansAbsent (.sequence (.sequence (.scalar boolCodec))) [[], [false]] := by
  have hwrite : write (.sequence (.sequence (.scalar boolCodec))) [[], [false]] =
      .ok (.array [.null, .array [.boolean false]]) := rfl
  refine ⟨hwrite, ?_⟩
  rintro ⟨json, hjson, items, rfl, hitems⟩
  rw [hwrite] at hjson
  cases hjson
  cases hitems with
  | cons hfirst _ =>
      obtain ⟨items, hkind, -⟩ := hfirst
      cases hkind

end BacsEnv.Bpjson
