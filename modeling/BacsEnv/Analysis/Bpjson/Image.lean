import BacsEnv.Analysis.Bpjson.Objects

/-!
# What the writer makes of a value

`image` is the JSON value of a value, without loops or exceptions: `null` for an empty
sequence, an empty map and a disengaged optional, otherwise an array, an object or the
image of the payload. `write_eq_image` connects it to the writer.
-/

set_option autoImplicit false

namespace BacsEnv.Bpjson

variable {α β : Type}

mutual

/-- The JSON value of a value. -/
def image {α : Type} : JType α → α → Json
  | .scalar codec, v => codec.put v
  | .string, v => .string v
  | .json, v => v
  | .sequence t, v => arrayOf (v.map (image t))
  | .array t _, v => arrayOf (v.toList.map (image t))
  | .optional _, none => .null
  | .optional t, some v => image t v
  | .map t, v => objectOf (v.map fun _ => image t)
  | .struct _ fs, v => objectOf ((∅ : StringMap Json).insertMany (fieldImages fs v))

/-- The names and the JSON values of the fields of a struct. -/
def fieldImages {α : Type} : JFields α → α → List (Text × Json)
  | .last name _ t, v => [(name, image t v)]
  | .cons name _ t fs, (v, vs) => (name, image t v) :: fieldImages fs vs

end

/-- The names of the fields of a struct. -/
def fieldNames {α : Type} : JFields α → List Text
  | .last name _ _ => [name]
  | .cons name _ _ fs => name :: fieldNames fs

mutual

/-- The fields of every struct have distinct names. -/
def DistinctNames {α : Type} : JType α → Prop
  | .scalar _ => True
  | .string => True
  | .json => True
  | .sequence t => DistinctNames t
  | .array t _ => DistinctNames t
  | .optional t => DistinctNames t
  | .map t => DistinctNames t
  | .struct _ fs => (fieldNames fs).Nodup ∧ DistinctNamesFields fs

/-- `DistinctNames` of the types of the fields. -/
def DistinctNamesFields {α : Type} : JFields α → Prop
  | .last _ _ t => DistinctNames t
  | .cons _ _ t fs => DistinctNames t ∧ DistinctNamesFields fs

end

theorem map_fst_fieldImages (fs : JFields α) (v : α) :
    (fieldImages fs v).map Prod.fst = fieldNames fs := by
  induction fs using @JFields.rec (fun {_} _ => True) _ with
  | last name init t => rfl
  | cons name init t fs _ ih =>
      obtain ⟨v, vs⟩ := v
      rw [fieldImages, List.map_cons, ih vs, fieldNames]
  | _ => trivial

/-- The member of a field that was written. -/
theorem getElem?_fieldImages {fs : JFields α} (hnodup : (fieldNames fs).Nodup) {v : α}
    {pair : Text × Json} (h : pair ∈ fieldImages fs v) :
    ((∅ : StringMap Json).insertMany (fieldImages fs v))[pair.1]? = some pair.2 := by
  rw [← map_fst_fieldImages fs v] at hnodup
  exact getElem?_insertMany_of_mem hnodup h ∅

/-- A struct has a field. -/
theorem isEmpty_fieldImages (fs : JFields α) (v : α) :
    ((∅ : StringMap Json).insertMany (fieldImages fs v)).isEmpty = false := by
  rw [Std.ExtTreeMap.isEmpty_insertMany_list]
  cases fs with
  | last => simp [fieldImages]
  | cons =>
      obtain ⟨v, vs⟩ := v
      simp [fieldImages]

/-- A struct `{ std::vector<std::optional<bool>> f; }`. -/
def sampleFlags : JType (List (Option Bool)) :=
  .struct false (.last [102] none (.sequence (.optional (.scalar boolCodec))))

theorem sampleFlags_distinctNames : DistinctNames sampleFlags :=
  ⟨List.nodup_singleton _, trivial⟩

/-! ## The loops of the writer -/

/-- The loop of the container walker's `write`. -/
theorem foldlM_pushBack {f : α → Result Json} {g : α → Json} (items : List α)
    (h : ∀ item ∈ items, f item = .ok (g item)) (written : List Json) :
    items.foldlM (fun json item => f item >>= fun element => json.pushBack element)
        (arrayOf written) = .ok (arrayOf (written ++ items.map g)) := by
  induction items generalizing written with
  | nil => simp [pure, Except.pure]
  | cons item items ih =>
      have hfirst := h item List.mem_cons_self
      have hrest := ih (fun i hi => h i (List.mem_cons_of_mem _ hi)) (written ++ [g item])
      rw [List.foldlM_cons, hfirst]
      show ((arrayOf written).pushBack (g item) >>= _) = _
      rw [pushBack_arrayOf]
      show items.foldlM _ (arrayOf (written ++ [g item])) = _
      rw [hrest, List.append_assoc]
      rfl

/-- The loop of the map walker's `write`. -/
theorem foldlM_updateSubkey {f : Text × α → Json → Result Json} {g : Text × α → Json}
    (pairs : List (Text × α)) {m : StringMap Json}
    (h : ∀ pair ∈ pairs, f pair (m[pair.1]?.getD .null) = .ok (g pair))
    (hkeys : pairs.Pairwise fun earlier later => earlier.1 ≠ later.1) :
    pairs.foldlM (fun json pair => json.updateSubkey pair.1 (f pair)) (objectOf m) =
      .ok (objectOf (m.insertMany (pairs.map fun pair => (pair.1, g pair)))) := by
  induction pairs generalizing m with
  | nil => simp [pure, Except.pure]
  | cons pair pairs ih =>
      obtain ⟨hfirst, hkeys⟩ := List.pairwise_cons.mp hkeys
      have hlater : ∀ later ∈ pairs,
          f later ((m.insert pair.1 (g pair))[later.1]?.getD .null) = .ok (g later) := by
        intro later hmem
        rw [getElem?_insert_of_ne (hfirst later hmem)]
        exact h later (List.mem_cons_of_mem _ hmem)
      rw [List.foldlM_cons, updateSubkey_objectOf (h pair List.mem_cons_self)]
      show pairs.foldlM _ (objectOf (m.insert pair.1 (g pair))) = _
      rw [ih hlater hkeys, List.map_cons, Std.ExtTreeMap.insertMany_cons]

/-- A map is written member by member. -/
theorem insertMany_map_toList (v : StringMap α) (g : α → Json) :
    (∅ : StringMap Json).insertMany (v.toList.map fun pair => (pair.1, g pair.2)) =
      v.map fun _ => g := by
  apply Std.ExtTreeMap.ext_getElem?
  intro key
  rw [getElem?_insertMany_toList v (fun _ => g), Std.ExtTreeMap.getElem?_map]
  cases v[key]? <;> simp

/-- Writing the only field of a struct. -/
theorem writeObject_last {name : Text} {init : Option α} {t : JType α} {v : α}
    {m : StringMap Json} {value : Json}
    (hwrite : writeFrom t v (m[name]?.getD .null) = .ok value) :
    writeObject (.last name init t) v (objectOf m) = .ok (objectOf (m.insert name value)) := by
  rw [writeObject, updateSubkey_objectOf hwrite]
  rfl

/-- Writing the first field of a struct, and then the others. -/
theorem writeObject_cons {name : Text} {init : Option α} {t : JType α} {fs : JFields β} {v : α}
    {vs : β} {m : StringMap Json} {value : Json}
    (hwrite : writeFrom t v (m[name]?.getD .null) = .ok value) :
    writeObject (.cons name init t fs) (v, vs) (objectOf m) =
      writeObject fs vs (objectOf (m.insert name value)) := by
  rw [writeObject, updateSubkey_objectOf hwrite]
  rfl

/-- Writing into a value that is `null` gives the image. -/
theorem writeFrom_eq_image {t : JType α} (hnames : DistinctNames t) (v : α) :
    writeFrom t v .null = .ok (image t v) := by
  induction t using @JType.rec _
    (fun {α} fs => DistinctNamesFields fs → (fieldNames fs).Nodup →
      ∀ (v : α) (m : StringMap Json), (∀ name ∈ fieldNames fs, m[name]? = none) →
        writeObject fs v (objectOf m) =
          .ok (objectOf (m.insertMany (fieldImages fs v)))) with
  | scalar codec => rfl
  | string => rfl
  | json => rfl
  | sequence t ih =>
      have hloop := foldlM_pushBack v (fun item _ => ih hnames item) []
      rw [writeFrom, image]
      exact hloop
  | array t n ih =>
      have hloop := foldlM_pushBack v.toList (fun item _ => ih hnames item) []
      rw [writeFrom, image]
      exact hloop
  | optional t ih =>
      cases v with
      | none => rfl
      | some v =>
          rw [writeFrom, image]
          exact ih hnames v
  | map t ih =>
      have hloop := foldlM_updateSubkey (f := fun pair => writeFrom t pair.2)
        (g := fun pair => image t pair.2) (m := ∅) v.toList
        (fun pair _ => by simpa using ih hnames pair.2) (pairwise_toList v)
      rw [insertMany_map_toList] at hloop
      rw [writeFrom, image]
      exact hloop
  | struct fieldsOptional fs ih =>
      rw [writeFrom, image]
      exact ih hnames.2 hnames.1 v ∅ (fun name _ => by simp)
  | last name init t ih hnames hnodup v m hnew =>
      have hkey := hnew name (List.mem_singleton.mpr rfl)
      have hwrite : writeFrom t v (m[name]?.getD .null) = .ok (image t v) := by
        rw [hkey]
        exact ih hnames v
      rw [writeObject_last hwrite, fieldImages, Std.ExtTreeMap.insertMany_list_singleton]
  | cons name init t fs ih ihfs hnames hnodup v m hnew =>
      obtain ⟨v, vs⟩ := v
      obtain ⟨hfirst, hrest⟩ := List.nodup_cons.mp hnodup
      have hkey := hnew name List.mem_cons_self
      have hwrite : writeFrom t v (m[name]?.getD .null) = .ok (image t v) := by
        rw [hkey]
        exact ih hnames.1 v
      rw [writeObject_cons hwrite, fieldImages, Std.ExtTreeMap.insertMany_cons]
      apply ihfs hnames.2 hrest vs (m.insert name (image t v))
      intro later hlater
      have hne : name ≠ later := fun heq => hfirst (heq ▸ hlater)
      rw [getElem?_insert_of_ne hne]
      exact hnew later (List.mem_cons_of_mem _ hlater)

end BacsEnv.Bpjson
