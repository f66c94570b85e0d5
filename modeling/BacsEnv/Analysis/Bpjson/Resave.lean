import BacsEnv.Analysis.Bpjson.RoundTrip

/-!
# Loading a document and saving it again

A value with engaged optionals that are written as `null` does not come back from its document,
but the document does: the value that comes back is written as the same document
(`image_disengage`). So a document stays as it is however often it is loaded and saved, exactly
when the initial values of the type do not show in what is read.
-/

set_option autoImplicit false

namespace BacsEnv.Bpjson

variable {α : Type}

/-- A document is loaded, and what was loaded is saved. -/
def resave (t : JType α) (json : Json) : Result Json :=
  read .throwException t json >>= write t

theorem arrayOf_injective : Function.Injective arrayOf := by
  intro items items' h
  have hiterate := congrArg Json.iterate h
  rwa [iterate_arrayOf, iterate_arrayOf] at hiterate

theorem objectOf_injective : Function.Injective objectOf := by
  intro m m' h
  have hitems := congrArg Json.items h
  rw [items_objectOf, items_objectOf] at hitems
  exact Std.ExtTreeMap.toList_inj.mp hitems

/-- What comes back from a document is written as the same document. -/
theorem image_disengage (t : JType α) (v : α) : image t (disengage t v) = image t v := by
  induction t using @JType.rec _
    (fun {α} fs => ∀ v : α, fieldImages fs (disengageFields fs v) = fieldImages fs v) with
  | scalar codec => rfl
  | string => rfl
  | json => rfl
  | sequence t ih =>
      have hsame : image t ∘ disengage t = image t := funext ih
      rw [disengage, image, image, List.map_map, hsame]
  | array t n ih =>
      have hsame : image t ∘ disengage t = image t := funext ih
      rw [disengage, image, image, List.Vector.toList_map, List.map_map, hsame]
  | optional t ih =>
      cases v with
      | none => rfl
      | some v =>
          rw [disengage, image]
          cases hnull : writtenNull t v with
          | true =>
              have himage : (image t v).isNull = true := (isNull_image t v).trans hnull
              rw [if_pos rfl, image]
              cases himage' : image t v with
              | null => rfl
              | _ =>
                  rw [himage'] at himage
                  cases himage
          | false =>
              rw [if_neg Bool.false_ne_true, image]
              exact ih v
  | map t ih =>
      rw [disengage, image, image]
      apply congrArg objectOf
      apply Std.ExtTreeMap.ext_getElem?
      intro key
      rw [Std.ExtTreeMap.getElem?_map, Std.ExtTreeMap.getElem?_map, Std.ExtTreeMap.getElem?_map,
        Option.map_map]
      exact congrArg (fun f => Option.map f v[key]?) (funext ih)
  | struct fieldsOptional fs ih =>
      rw [disengage, image, image, ih]
  | last name init t ih v =>
      rw [disengageFields, fieldImages, fieldImages, ih]
  | cons name init t fs ih ihfs v =>
      obtain ⟨v, vs⟩ := v
      rw [disengageFields, fieldImages, fieldImages, ih, ihfs]

/-- When what is read into a target is written as the document again, the target is clean. -/
theorem clean_of_image_merge {t : JType α} (hnames : DistinctNames t) (target v : α)
    (h : image t (merge t target v) = image t v) : Clean t target v := by
  induction t using @JType.rec _
    (fun {α} fs => DistinctNamesFields fs → ∀ target v : α,
      fieldImages fs (mergeFields fs target v) = fieldImages fs v → CleanFields fs target v) with
  | scalar codec => trivial
  | string => trivial
  | json => trivial
  | sequence t ih =>
      rw [merge, image, image] at h
      have hitems := arrayOf_injective h
      have hlen := congrArg List.length hitems
      simp only [List.length_append, List.length_map] at hlen
      obtain rfl : target = [] := List.length_eq_zero_iff.mp (by omega)
      rw [List.nil_append, List.map_map, List.map_inj_left] at hitems
      exact ⟨rfl, fun x hx => ih hnames _ x (hitems x hx)⟩
  | array t n ih =>
      rw [merge, image, image, List.Vector.toList_map, List.map_map] at h
      have hitems := List.map_inj_left.mp (arrayOf_injective h)
      exact fun x hx => ih hnames _ x (hitems x hx)
  | optional t ih =>
      cases v with
      | none => trivial
      | some v =>
          rw [merge, image] at h
          cases hnull : writtenNull t v with
          | true => exact Or.inl hnull
          | false =>
              rw [hnull, if_neg Bool.false_ne_true, image] at h
              exact Or.inr (ih hnames _ v h)
  | map t ih =>
      rw [image, image] at h
      have hget : ∀ key : Text, Option.map (image t) (merge (.map t) target v)[key]? =
          Option.map (image t) v[key]? := by
        intro key
        have hkey := congrArg (fun m : StringMap Json => m[key]?) (objectOf_injective h)
        simpa only [Std.ExtTreeMap.getElem?_map] using hkey
      have hmerged := getElem?_insertMany_toList v
        (fun key => merge t (target[key]?.getD (valueInit t))) target
      constructor
      · intro key hnone
        have hkey := hget key
        rw [merge, hmerged, hnone] at hkey
        exact Option.map_eq_none_iff.mp hkey
      · intro pair hpair
        have hkey := hget pair.1
        rw [merge, hmerged, Std.ExtTreeMap.mem_toList_iff_getElem?_eq_some.mp hpair] at hkey
        exact ih hnames _ pair.2 (Option.some.inj hkey)
  | struct fieldsOptional fs ih =>
      rw [merge, image, image] at h
      have hnodup : ((fieldImages fs v).map Prod.fst).Nodup := by
        rw [map_fst_fieldImages]
        exact hnames.1
      have hkeys : (fieldImages fs (mergeFields fs target v)).map Prod.fst =
          (fieldImages fs v).map Prod.fst := by
        rw [map_fst_fieldImages, map_fst_fieldImages]
      exact ih hnames.2 target v (insertMany_inj hnodup hkeys (objectOf_injective h))
  | last name init t ih hnames target v h =>
      exact ih hnames target v (Prod.mk.inj (List.cons.inj h).1).2
  | cons name init t fs ih ihfs hnames target v h =>
      obtain ⟨target, targets⟩ := target
      obtain ⟨v, vs⟩ := v
      obtain ⟨hfirst, hrest⟩ := List.cons.inj h
      exact ⟨ih hnames.1 target v (Prod.mk.inj hfirst).2, ihfs hnames.2 targets vs hrest⟩

/-- The document of a value is saved again as it is exactly when the initial values of the type
do not show. -/
theorem resave_image_iff {t : JType α} (hnames : DistinctNames t) (v : α) :
    resave t (image t v) = .ok (image t v) ↔ Clean t (fresh t) v := by
  have hread : read .throwException t (image t v) = .ok (merge t (fresh t) v) :=
    readTo_image hnames v (fresh t)
  have hresave : resave t (image t v) = .ok (image t (merge t (fresh t) v)) := by
    unfold resave
    rw [hread]
    exact writeFrom_eq_image hnames _
  rw [hresave]
  constructor
  · intro h
    exact clean_of_image_merge hnames _ v (Except.ok.inj h)
  · intro hclean
    rw [(merge_eq_disengage_iff t _ v).mpr hclean, image_disengage]

/-- A saved document stays as it is, however often it is loaded and saved, exactly when the
initial values of the type do not show in what is read. -/
theorem saved_document_stable_iff {t : JType α} (hnames : DistinctNames t) (v : α) :
    (∀ n, (fun saved => saved >>= resave t)^[n] (write t v) = write t v) ↔
      Clean t (fresh t) v := by
  have hwrite : write t v = .ok (image t v) := writeFrom_eq_image hnames v
  rw [hwrite, ← resave_image_iff hnames v]
  constructor
  · exact fun h => h 1
  · exact fun h n => Function.iterate_fixed h n

/-- The document of `[some true, none]` is the same after three loads and saves. -/
theorem saved_document_stable_sampleFlags :
    (fun saved => saved >>= resave sampleFlags)^[3] (write sampleFlags [some true, none]) =
      write sampleFlags [some true, none] := by
  have hplain : NoInitialisers sampleFlags := ⟨rfl, trivial⟩
  have hclean : Clean sampleFlags (fresh sampleFlags) [some true, none] :=
    clean_of_noInitialisers hplain .defaultInit _
  exact (saved_document_stable_iff sampleFlags_distinctNames [some true, none]).mpr hclean 3

end BacsEnv.Bpjson
