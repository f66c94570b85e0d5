import BacsEnv.Analysis.Bpjson.Image

/-!
# Writing into a value that was written before

`write_from` goes on with what it finds: `push_back` behind the elements of an array,
`operator[]` beside the members of an object. `overlay t u v` is the JSON value after
writing `v` into the image of `u`; `writeFrom_image_eq` connects it to the writer. It is the
image of `v` exactly when nothing of `u` is left (`Replaceable`).
-/

set_option autoImplicit false

namespace BacsEnv.Bpjson

variable {α β : Type}

mutual

/-- The JSON value after writing the second value into the image of the first. -/
def overlay {α : Type} : JType α → α → α → Json
  | .scalar codec, _, v => codec.put v
  | .string, _, v => .string v
  | .json, _, v => v
  | .sequence t, u, v => arrayOf (u.map (image t) ++ v.map (image t))
  | .array t _, u, v => arrayOf (u.toList.map (image t) ++ v.toList.map (image t))
  | .optional _, _, none => .null
  | .optional t, none, some v => image t v
  | .optional t, some u, some v => overlay t u v
  | .map t, u, v => objectOf ((u.map fun _ => image t).insertMany (v.toList.map fun pair =>
      (pair.1, u[pair.1]?.elim (image t pair.2) fun x => overlay t x pair.2)))
  | .struct _ fs, u, v => objectOf (((∅ : StringMap Json).insertMany
      (fieldImages fs u)).insertMany (fieldOverlays fs u v))

/-- The names and the JSON values of the fields after writing the second struct into the
image of the first. -/
def fieldOverlays {α : Type} : JFields α → α → α → List (Text × Json)
  | .last name _ t, u, v => [(name, overlay t u v)]
  | .cons name _ t fs, (u, us), (v, vs) => (name, overlay t u v) :: fieldOverlays fs us vs

end

theorem map_fst_fieldOverlays (fs : JFields α) (u v : α) :
    (fieldOverlays fs u v).map Prod.fst = fieldNames fs := by
  induction fs using @JFields.rec (fun {_} _ => True) _ with
  | last name init t => rfl
  | cons name init t fs _ ih =>
      obtain ⟨u, us⟩ := u
      obtain ⟨v, vs⟩ := v
      rw [fieldOverlays, List.map_cons, ih us vs, fieldNames]
  | _ => trivial

/-- What the writer makes of the image of an earlier value. -/
theorem writeFrom_image_eq {t : JType α} (hnames : DistinctNames t) (u v : α) :
    writeFrom t v (image t u) = .ok (overlay t u v) := by
  induction t using @JType.rec _
    (fun {α} fs => DistinctNamesFields fs → (fieldNames fs).Nodup →
      ∀ (u v : α) (m : StringMap Json), (∀ pair ∈ fieldImages fs u, m[pair.1]? = some pair.2) →
        writeObject fs v (objectOf m) =
          .ok (objectOf (m.insertMany (fieldOverlays fs u v)))) with
  | scalar codec => rfl
  | string => rfl
  | json => rfl
  | sequence t ih =>
      have helement : DistinctNames t := hnames
      rw [writeFrom, image, overlay]
      exact foldlM_pushBack v (fun item _ => writeFrom_eq_image helement item) (u.map (image t))
  | array t n ih =>
      have helement : DistinctNames t := hnames
      rw [writeFrom, image, overlay]
      exact foldlM_pushBack v.toList (fun item _ => writeFrom_eq_image helement item)
        (u.toList.map (image t))
  | optional t ih =>
      cases v with
      | none =>
          rw [writeFrom, overlay]
      | some v =>
          cases u with
          | none =>
              rw [writeFrom, image, overlay]
              exact writeFrom_eq_image hnames v
          | some u =>
              rw [writeFrom, image, overlay]
              exact ih hnames u v
  | map t ih =>
      have helement : DistinctNames t := hnames
      rw [writeFrom, image, overlay]
      apply foldlM_updateSubkey (f := fun pair => writeFrom t pair.2)
        (g := fun pair => u[pair.1]?.elim (image t pair.2) fun x => overlay t x pair.2)
        v.toList ?_ (pairwise_toList v)
      intro pair _
      rw [Std.ExtTreeMap.getElem?_map]
      cases u[pair.1]? with
      | none => exact writeFrom_eq_image helement pair.2
      | some x => exact ih hnames x pair.2
  | struct fieldsOptional fs ih =>
      rw [writeFrom, image, overlay]
      exact ih hnames.2 hnames.1 u v _ fun pair hpair => getElem?_fieldImages hnames.1 hpair
  | last name init t ih hnames hnodup u v m hm =>
      have hkey := hm (name, image t u) (List.mem_singleton.mpr rfl)
      have hwrite : writeFrom t v (m[name]?.getD .null) = .ok (overlay t u v) := by
        rw [hkey]
        exact ih hnames u v
      rw [writeObject_last hwrite, fieldOverlays, Std.ExtTreeMap.insertMany_list_singleton]
  | cons name init t fs ih ihfs hnames hnodup u v m hm =>
      obtain ⟨u, us⟩ := u
      obtain ⟨v, vs⟩ := v
      obtain ⟨hfirst, hrest⟩ := List.nodup_cons.mp hnodup
      have hkey := hm (name, image t u) List.mem_cons_self
      have hwrite : writeFrom t v (m[name]?.getD .null) = .ok (overlay t u v) := by
        rw [hkey]
        exact ih hnames.1 u v
      rw [writeObject_cons hwrite, fieldOverlays, Std.ExtTreeMap.insertMany_cons]
      apply ihfs hnames.2 hrest us vs (m.insert name (overlay t u v))
      intro pair hpair
      have hlater : pair.1 ∈ fieldNames fs := by
        rw [← map_fst_fieldImages fs us]
        exact List.mem_map_of_mem hpair
      have hne : name ≠ pair.1 := fun heq => hfirst (heq ▸ hlater)
      rw [getElem?_insert_of_ne hne]
      exact hm pair (List.mem_cons_of_mem _ hpair)

/-! ## When nothing of the earlier value is left -/

mutual

/-- Writing the second value leaves nothing of the first: no container that is written again
has elements, and no map has a key that the later one lacks. -/
def Replaceable {α : Type} : JType α → α → α → Prop
  | .scalar _, _, _ => True
  | .string, _, _ => True
  | .json, _, _ => True
  | .sequence _, u, _ => u = []
  | .array _ n, _, _ => n = 0
  | .optional _, _, none => True
  | .optional _, none, some _ => True
  | .optional t, some u, some v => Replaceable t u v
  | .map t, u, v => (∀ key : Text, v[key]? = none → u[key]? = none) ∧
      ∀ pair ∈ v.toList, ∀ x, u[pair.1]? = some x → Replaceable t x pair.2
  | .struct _ fs, u, v => ReplaceableFields fs u v

/-- `Replaceable` in each field. -/
def ReplaceableFields {α : Type} : JFields α → α → α → Prop
  | .last _ _ t, u, v => Replaceable t u v
  | .cons _ _ t fs, (u, us), (v, vs) => Replaceable t u v ∧ ReplaceableFields fs us vs

end

/-- Elements in front of those of an array are there afterwards. -/
theorem arrayOf_append_eq_iff {before items : List Json} :
    arrayOf (before ++ items) = arrayOf items ↔ before = [] := by
  constructor
  · intro h
    have hitems := congrArg Json.iterate h
    rw [iterate_arrayOf, iterate_arrayOf] at hitems
    exact List.append_left_eq_self.mp hitems
  · rintro rfl
    rfl

theorem objectOf_inj {m m' : StringMap Json} : objectOf m = objectOf m' ↔ m = m' := by
  constructor
  · intro h
    apply Std.ExtTreeMap.ext_getElem?
    intro key
    rw [← find_objectOf, h, find_objectOf]
  · rintro rfl
    rfl

/-- The JSON value is that of the later value exactly when nothing of the earlier is left. -/
theorem overlay_eq_image_iff {t : JType α} (hnames : DistinctNames t) (u v : α) :
    overlay t u v = image t v ↔ Replaceable t u v := by
  induction t using @JType.rec _
    (fun {α} fs => DistinctNamesFields fs → ∀ u v : α,
      fieldOverlays fs u v = fieldImages fs v ↔ ReplaceableFields fs u v) with
  | scalar codec => exact iff_true_intro rfl
  | string => exact iff_true_intro rfl
  | json => exact iff_true_intro rfl
  | sequence t ih =>
      rw [overlay, image, Replaceable, arrayOf_append_eq_iff, List.map_eq_nil_iff]
  | array t n ih =>
      rw [overlay, image, Replaceable, arrayOf_append_eq_iff, List.map_eq_nil_iff,
        ← List.length_eq_zero_iff, List.Vector.toList_length]
  | optional t ih =>
      cases v with
      | none => exact iff_true_intro rfl
      | some v =>
          cases u with
          | none => exact iff_true_intro rfl
          | some u => exact ih hnames u v
  | map t ih =>
      rw [overlay, image, Replaceable, objectOf_inj, insertMany_eq_map_iff
        (f := fun key x => u[key]?.elim (image t x) fun y => overlay t y x)]
      refine and_congr ?_ (forall₂_congr fun pair _ => ?_)
      · simp only [Std.ExtTreeMap.getElem?_map, Option.map_eq_none_iff]
      · cases u[pair.1]? with
        | none => simp
        | some x =>
            simp only [Option.elim_some, Option.some.injEq, forall_eq']
            exact ih hnames x pair.2
  | struct fieldsOptional fs ih =>
      have hkeys : ((fieldOverlays fs u v).map Prod.fst).Nodup := by
        rw [map_fst_fieldOverlays]
        exact hnames.1
      have hbefore : (fieldImages fs u).map Prod.fst = (fieldOverlays fs u v).map Prod.fst := by
        rw [map_fst_fieldOverlays, map_fst_fieldImages]
      have hafter : (fieldImages fs v).map Prod.fst = (fieldOverlays fs u v).map Prod.fst := by
        rw [map_fst_fieldOverlays, map_fst_fieldImages]
      rw [overlay, image, Replaceable, objectOf_inj, insertMany_insertMany_of_keys hkeys hbefore,
        ← ih hnames.2]
      constructor
      · intro h
        exact (insertMany_inj hkeys hafter h.symm).symm
      · intro h
        rw [h]
  | last name init t ih hnames u v =>
      rw [fieldOverlays, fieldImages, ReplaceableFields, ← ih hnames]
      simp
  | cons name init t fs ih ihfs hnames u v =>
      obtain ⟨u, us⟩ := u
      obtain ⟨v, vs⟩ := v
      rw [fieldOverlays, fieldImages, ReplaceableFields, ← ih hnames.1, ← ihfs hnames.2]
      simp

/-- What writing a value should be: what the JSON value held for another one is replaced. -/
def WriteOverwrites (t : JType α) (u v : α) : Prop :=
  ∃ json json', write t u = .ok json ∧ write t v = .ok json' ∧ writeFrom t v json = .ok json'

/-- The later value replaces the earlier one, if and only if no container is written again
that had elements and no map had a key that it now lacks. -/
theorem writeOverwrites_iff {t : JType α} (hnames : DistinctNames t) (u v : α) :
    WriteOverwrites t u v ↔ Replaceable t u v := by
  have hu : write t u = .ok (image t u) := writeFrom_eq_image hnames u
  have hv : write t v = .ok (image t v) := writeFrom_eq_image hnames v
  have hover := writeFrom_image_eq hnames u v
  rw [← overlay_eq_image_iff hnames]
  constructor
  · rintro ⟨json, json', hjson, hjson', hwrite⟩
    obtain rfl := Except.ok.inj (hu.symm.trans hjson)
    obtain rfl := Except.ok.inj (hv.symm.trans hjson')
    exact Except.ok.inj (hover.symm.trans hwrite)
  · intro heq
    refine ⟨_, _, hu, hv, ?_⟩
    rw [hover, heq]

theorem sampleFlags_writeOverwrites :
    WriteOverwrites sampleFlags [] [some true] ↔ Replaceable sampleFlags [] [some true] :=
  writeOverwrites_iff sampleFlags_distinctNames [] [some true]

/-- A list that is written twice has its elements twice. -/
theorem vector_written_twice :
    write (.sequence (.scalar boolCodec)) [true] = .ok (.array [.boolean true]) ∧
      writeFrom (.sequence (.scalar boolCodec)) [true] (.array [.boolean true]) =
        .ok (.array [.boolean true, .boolean true]) ∧
      ¬ WriteOverwrites (.sequence (.scalar boolCodec)) [true] [true] := by
  have hwrite : write (.sequence (.scalar boolCodec)) [true] = .ok (.array [.boolean true]) :=
    rfl
  have htwice : writeFrom (.sequence (.scalar boolCodec)) [true] (.array [.boolean true]) =
      .ok (.array [.boolean true, .boolean true]) := rfl
  refine ⟨hwrite, htwice, ?_⟩
  rintro ⟨json, json', hjson, hjson', hover⟩
  obtain rfl := Except.ok.inj (hwrite.symm.trans hjson)
  obtain rfl := Except.ok.inj (hwrite.symm.trans hjson')
  rw [htwice] at hover
  cases hover

end BacsEnv.Bpjson
