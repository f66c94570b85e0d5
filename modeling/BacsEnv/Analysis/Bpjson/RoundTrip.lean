import BacsEnv.Analysis.Bpjson.Image

/-!
# Reading back a written value

`null` stands for a disengaged optional, an empty sequence, an empty map and the `null` of
the JSON type, and the reader goes by the static type. So an engaged optional whose payload
is written as `null` comes back disengaged. And the walkers of sequences and maps read into
what the target holds: a field whose default member initialiser is not empty keeps it.
The round trip of a value is the one that `disengage` describes exactly when no initialiser
shows through (`Clean`).
-/

set_option autoImplicit false

namespace BacsEnv.Bpjson

variable {α β : Type}

/-! ## What is lost -/

/-- The value is written as `null`. -/
def writtenNull {α : Type} : JType α → α → Bool
  | .scalar _, _ => false
  | .string, _ => false
  | .json, v => v.isNull
  | .sequence _, v => v.isEmpty
  | .array _ _, v => v.toList.isEmpty
  | .optional _, none => true
  | .optional t, some v => writtenNull t v
  | .map _, v => v.isEmpty
  | .struct _ _, _ => false

mutual

/-- The value with the outermost of the engaged optionals whose payload is written as `null`
disengaged. -/
def disengage {α : Type} : JType α → α → α
  | .scalar _, v => v
  | .string, v => v
  | .json, v => v
  | .sequence t, v => v.map (disengage t)
  | .array t _, v => v.map (disengage t)
  | .optional _, none => none
  | .optional t, some v => if writtenNull t v then none else some (disengage t v)
  | .map t, v => v.map fun _ => disengage t
  | .struct _ fs, v => disengageFields fs v

/-- `disengage` in each field. -/
def disengageFields {α : Type} : JFields α → α → α
  | .last _ _ t, v => disengage t v
  | .cons _ _ t fs, (v, vs) => (disengage t v, disengageFields fs vs)

end

mutual

/-- The value has, at some depth, an engaged optional whose payload is written as `null`. -/
def HasNullPayload {α : Type} : JType α → α → Prop
  | .scalar _, _ => False
  | .string, _ => False
  | .json, _ => False
  | .sequence t, v => ∃ x ∈ v, HasNullPayload t x
  | .array t _, v => ∃ x ∈ v.toList, HasNullPayload t x
  | .optional _, none => False
  | .optional t, some v => writtenNull t v = true ∨ HasNullPayload t v
  | .map t, v => ∃ pair ∈ v.toList, HasNullPayload t pair.2
  | .struct _ fs, v => HasNullPayloadFields fs v

/-- `HasNullPayload` in some field. -/
def HasNullPayloadFields {α : Type} : JFields α → α → Prop
  | .last _ _ t, v => HasNullPayload t v
  | .cons _ _ t fs, (v, vs) => HasNullPayload t v ∨ HasNullPayloadFields fs vs

end

/-- What is written as `null` is `null`. -/
theorem isNull_image (t : JType α) (v : α) : (image t v).isNull = writtenNull t v := by
  induction t using @JType.rec _ (fun {_} _ => True) with
  | scalar codec => exact codec.put_not_null v
  | string => rfl
  | json => rfl
  | sequence t ih =>
      rw [image, isNull_arrayOf, writtenNull]
      cases v <;> rfl
  | array t n ih =>
      rw [image, isNull_arrayOf, writtenNull]
      cases v.toList <;> rfl
  | optional t ih =>
      cases v with
      | none => rfl
      | some v =>
          rw [image, writtenNull]
          exact ih v
  | map t ih =>
      rw [image, isNull_objectOf, writtenNull, isEmpty_map]
  | struct fieldsOptional fs ih =>
      rw [image, isNull_objectOf, writtenNull, isEmpty_fieldImages]
  | _ => trivial

theorem map_eq_self_iff {f : α → α} {items : List α} :
    items.map f = items ↔ ∀ x ∈ items, f x = x := by
  conv_lhs => rhs; rw [← List.map_id items]
  rw [List.map_inj_left]
  rfl

theorem vector_map_eq_self_iff {n : ℕ} {f : α → α} {v : List.Vector α n} :
    v.map f = v ↔ ∀ x ∈ v.toList, f x = x := by
  rw [← List.Vector.toList_injective.eq_iff, List.Vector.toList_map, map_eq_self_iff]

theorem stringMap_map_eq_self_iff {f : α → α} {v : StringMap α} :
    (v.map fun _ => f) = v ↔ ∀ pair ∈ v.toList, f pair.2 = pair.2 := by
  rw [← Std.ExtTreeMap.toList_inj, Std.ExtTreeMap.toList_map, map_eq_self_iff]
  apply forall₂_congr
  intro pair _
  rw [Prod.ext_iff]
  exact and_iff_right rfl

/-- Nothing is lost exactly when no engaged optional has a payload written as `null`. -/
theorem disengage_eq_self_iff (t : JType α) (v : α) :
    disengage t v = v ↔ ¬ HasNullPayload t v := by
  induction t using @JType.rec _
    (fun {α} fs => ∀ v : α, disengageFields fs v = v ↔ ¬ HasNullPayloadFields fs v) with
  | scalar codec => simp [disengage, HasNullPayload]
  | string => simp [disengage, HasNullPayload]
  | json => simp [disengage, HasNullPayload]
  | sequence t ih =>
      rw [disengage, HasNullPayload, map_eq_self_iff]
      simp only [ih, not_exists, not_and]
  | array t n ih =>
      rw [disengage, HasNullPayload, vector_map_eq_self_iff]
      simp only [ih, not_exists, not_and]
  | optional t ih =>
      cases v with
      | none => simp [disengage, HasNullPayload]
      | some v =>
          rw [disengage, HasNullPayload]
          cases writtenNull t v with
          | true => simp
          | false => simp [ih]
  | map t ih =>
      rw [disengage, HasNullPayload, stringMap_map_eq_self_iff]
      simp only [ih, not_exists, not_and]
  | struct fieldsOptional fs ih =>
      rw [disengage, HasNullPayload]
      exact ih v
  | last name init t ih v =>
      rw [disengageFields, HasNullPayloadFields]
      exact ih v
  | cons name init t fs ih ihfs v =>
      obtain ⟨v, vs⟩ := v
      rw [disengageFields, HasNullPayloadFields, Prod.mk.injEq, ih, ihfs, not_or]

/-! ## What the reader makes of an image -/

mutual

/-- What reading the image of a value into a target gives. -/
def merge {α : Type} : JType α → α → α → α
  | .scalar _, _, v => v
  | .string, _, v => v
  | .json, _, v => v
  | .sequence t, target, v => target ++ v.map (merge t (fresh t))
  | .array t _, _, v => v.map (merge t (fresh t))
  | .optional _, _, none => none
  | .optional t, _, some v => if writtenNull t v then none else some (merge t (fresh t) v)
  | .map t, target, v => target.insertMany (v.toList.map fun pair =>
      (pair.1, merge t (target[pair.1]?.getD (valueInit t)) pair.2))
  | .struct _ fs, target, v => mergeFields fs target v

/-- `merge` in each field. -/
def mergeFields {α : Type} : JFields α → α → α → α
  | .last _ _ t, target, v => merge t target v
  | .cons _ _ t fs, (target, targets), (v, vs) => (merge t target v, mergeFields fs targets vs)

end

/-- Reading an image gives the merged value. -/
theorem readTo_image {t : JType α} (hnames : DistinctNames t) (v target : α) :
    readTo .throwException t (image t v) target = .ok (merge t target v) := by
  induction t using @JType.rec _
    (fun {α} fs => DistinctNamesFields fs →
      ∀ (v target : α) (b fieldsOptional : Bool) (m : StringMap Json),
        (∀ pair ∈ fieldImages fs v, m[pair.1]? = some pair.2) →
          readObject .throwException b fieldsOptional fs (objectOf m) target =
            .ok (mergeFields fs target v)) with
  | scalar codec =>
      rw [readTo, image, merge, codec.get_put]
  | string => rfl
  | json => rfl
  | sequence t ih =>
      rw [readTo_sequence, readSequence_eq_ok_iff]
      refine ⟨v.map (merge t (fresh t)), ?_, by rw [merge]⟩
      rw [image, iterate_arrayOf, List.forall₂_map_left_iff, List.forall₂_map_right_iff,
        List.forall₂_same]
      exact fun x _ => ih hnames x (fresh t)
  | array t n ih =>
      rw [readTo_array, readArray_eq_ok_iff]
      refine ⟨v.toList.map (merge t (fresh t)), ?_, ?_⟩
      · rw [image, iterate_arrayOf, List.forall₂_map_left_iff, List.forall₂_map_right_iff,
          List.forall₂_same]
        exact fun x _ => ih hnames x (fresh t)
      · have hlen : (v.toList.map (merge t (fresh t))).length = n := by simp
        rw [merge, List.Vector.toList_map, List.take_of_length_le hlen.le,
          List.drop_of_length_le (by simp), List.append_nil]
  | optional t ih =>
      rw [readTo_optional, readOptional_eq_ok_iff]
      cases v with
      | none => exact Or.inl ⟨rfl, rfl⟩
      | some v =>
          rw [image, isNull_image, merge]
          cases writtenNull t v with
          | true => exact Or.inl ⟨rfl, rfl⟩
          | false => exact Or.inr ⟨rfl, _, ih hnames v (fresh t), rfl⟩
  | map t ih =>
      rw [readTo_map, readMap_eq_ok_iff, image, items_objectOf]
      refine ⟨?_, v.toList.map fun pair =>
        merge t (target[pair.1]?.getD (valueInit t)) pair.2, ?_, ?_⟩
      · intro pair hpair
        rw [find_objectOf, Std.ExtTreeMap.mem_toList_iff_getElem?_eq_some.mp hpair]
        rfl
      · rw [Std.ExtTreeMap.toList_map, List.forall₂_map_left_iff, List.forall₂_map_right_iff,
          List.forall₂_same]
        exact fun pair _ => ih hnames pair.2 _
      · rw [merge, Std.ExtTreeMap.toList_map, List.map_map, ← List.zip_map']
        rfl
  | struct fieldsOptional fs ih =>
      rw [readTo, image, merge]
      apply ih hnames.2 v target _ _ _
      exact fun pair hpair => getElem?_fieldImages hnames.1 hpair
  | last name init t ih hnames v target b fieldsOptional m hm =>
      have hfind := hm (name, image t v) (List.mem_singleton.mpr rfl)
      rw [← find_objectOf] at hfind
      rw [readObject, mergeFields]
      rw [readField_of_find hfind, inField_eq_ok_iff]
      exact ih hnames v target
  | cons name init t fs ih ihfs hnames v target b fieldsOptional m hm =>
      obtain ⟨v, vs⟩ := v
      obtain ⟨target, targets⟩ := target
      have hfind := hm (name, image t v) List.mem_cons_self
      rw [← find_objectOf] at hfind
      have hrest := ihfs hnames.2 vs targets b fieldsOptional m
        fun pair hpair => hm pair (List.mem_cons_of_mem _ hpair)
      rw [readObject, pair_eq_ok_iff, readField_of_find hfind, inField_eq_ok_iff]
      exact ⟨ih hnames.1 v target, hrest⟩

/-! ## The exact domain of the round trip -/

mutual

/-- What the target holds before does not show in what reading the image of a value leaves:
the sequences that are met in it are empty, and its maps have no keys but the value's. -/
def Clean {α : Type} : JType α → α → α → Prop
  | .scalar _, _, _ => True
  | .string, _, _ => True
  | .json, _, _ => True
  | .sequence t, target, v => target = [] ∧ ∀ x ∈ v, Clean t (fresh t) x
  | .array t _, _, v => ∀ x ∈ v.toList, Clean t (fresh t) x
  | .optional _, _, none => True
  | .optional t, _, some v => writtenNull t v = true ∨ Clean t (fresh t) v
  | .map t, target, v => (∀ key : Text, v[key]? = none → target[key]? = none) ∧
      ∀ pair ∈ v.toList, Clean t (target[pair.1]?.getD (valueInit t)) pair.2
  | .struct _ fs, target, v => CleanFields fs target v

/-- `Clean` in each field. -/
def CleanFields {α : Type} : JFields α → α → α → Prop
  | .last _ _ t, target, v => Clean t target v
  | .cons _ _ t fs, (target, targets), (v, vs) => Clean t target v ∧ CleanFields fs targets vs

end

theorem vector_map_congr_iff {n : ℕ} {f g : α → β} {v : List.Vector α n} :
    v.map f = v.map g ↔ ∀ x ∈ v.toList, f x = g x := by
  rw [← List.Vector.toList_injective.eq_iff, List.Vector.toList_map, List.Vector.toList_map,
    List.map_inj_left]

/-- Reading back loses just the outermost null payloads exactly when the target is clean. -/
theorem merge_eq_disengage_iff (t : JType α) (target v : α) :
    merge t target v = disengage t v ↔ Clean t target v := by
  induction t using @JType.rec _
    (fun {α} fs => ∀ target v : α,
      mergeFields fs target v = disengageFields fs v ↔ CleanFields fs target v) with
  | scalar codec => simp [merge, disengage, Clean]
  | string => simp [merge, disengage, Clean]
  | json => simp [merge, disengage, Clean]
  | sequence t ih =>
      rw [merge, disengage, Clean]
      constructor
      · intro heq
        have hlen := congrArg List.length heq
        simp only [List.length_append, List.length_map] at hlen
        obtain rfl : target = [] := List.length_eq_zero_iff.mp (by omega)
        rw [List.nil_append, List.map_inj_left] at heq
        exact ⟨rfl, fun x hx => (ih _ x).mp (heq x hx)⟩
      · rintro ⟨rfl, hall⟩
        rw [List.nil_append, List.map_inj_left]
        exact fun x hx => (ih _ x).mpr (hall x hx)
  | array t n ih =>
      rw [merge, disengage, Clean, vector_map_congr_iff]
      exact forall₂_congr fun x _ => ih _ x
  | optional t ih =>
      cases v with
      | none => simp [merge, disengage, Clean]
      | some v =>
          rw [merge, disengage, Clean]
          cases writtenNull t v with
          | true => simp
          | false => simp [ih]
  | map t ih =>
      rw [merge, disengage, Clean, insertMany_eq_map_iff
        (f := fun key => merge t (target[key]?.getD (valueInit t)))]
      exact and_congr_right fun _ => forall₂_congr fun pair _ => ih _ pair.2
  | struct fieldsOptional fs ih =>
      rw [merge, disengage, Clean]
      exact ih target v
  | last name init t ih target v =>
      rw [mergeFields, disengageFields, CleanFields]
      exact ih target v
  | cons name init t fs ih ihfs target v =>
      obtain ⟨v, vs⟩ := v
      obtain ⟨target, targets⟩ := target
      rw [mergeFields, disengageFields, CleanFields, Prod.mk.injEq, ih, ihfs]

/-- What the round trip of a value should be: the value comes back exactly when it has no
engaged optional whose payload is written as `null`, and otherwise it comes back with the
outermost of these disengaged. -/
def RoundTrips (t : JType α) (v : α) : Prop :=
  ∃ json w, write t v = .ok json ∧ read .throwException t json = .ok w ∧
    (w = v ↔ ¬ HasNullPayload t v) ∧ (HasNullPayload t v → w = disengage t v)

/-- The round trip is what it should be, if and only if the initial values of the type do
not show in what is read. -/
theorem roundTrips_iff_clean {t : JType α} (hnames : DistinctNames t) (v : α) :
    RoundTrips t v ↔ Clean t (fresh t) v := by
  have hwrite : write t v = .ok (image t v) := writeFrom_eq_image hnames v
  have hread : read .throwException t (image t v) = .ok (merge t (fresh t) v) :=
    readTo_image hnames v (fresh t)
  rw [← merge_eq_disengage_iff]
  constructor
  · rintro ⟨json, w, hjson, hw, hsame, hlost⟩
    rw [hwrite] at hjson
    cases hjson
    rw [hread] at hw
    cases hw
    by_cases hnull : HasNullPayload t v
    · exact hlost hnull
    · rw [hsame.mpr hnull, (disengage_eq_self_iff t v).mpr hnull]
  · intro hclean
    refine ⟨_, _, hwrite, hread, ?_, fun _ => hclean⟩
    rw [hclean]
    exact disengage_eq_self_iff t v

theorem sampleFlags_roundTrips :
    RoundTrips sampleFlags [some true, none] ↔
      Clean sampleFlags (fresh sampleFlags) [some true, none] :=
  roundTrips_iff_clean sampleFlags_distinctNames [some true, none]

/-- A struct `{ std::list<bool> f = {true}; }`. -/
def presetFlags : JType (List Bool) :=
  .struct false (.last [102] (some [true]) (.sequence (.scalar boolCodec)))

/-- The list `{false}` is written as `[false]` and read back as `{true, false}`. -/
theorem presetFlags_not_roundTrips :
    write presetFlags [false] = .ok (.object [([102], .array [.boolean false])]) ∧
      read .throwException presetFlags (.object [([102], .array [.boolean false])]) =
        .ok [true, false] ∧
      ¬ RoundTrips presetFlags [false] := by
  have hwrite : write presetFlags [false] =
      .ok (.object [([102], .array [.boolean false])]) := rfl
  have hread : read .throwException presetFlags
      (.object [([102], .array [.boolean false])]) = .ok [true, false] := rfl
  refine ⟨hwrite, hread, ?_⟩
  rintro ⟨json, w, hjson, hw, hsame, -⟩
  obtain rfl := Except.ok.inj (hwrite.symm.trans hjson)
  obtain rfl := Except.ok.inj (hread.symm.trans hw)
  have hnothing : ¬ HasNullPayload presetFlags [false] := by
    rintro ⟨x, -, hx⟩
    exact hx
  cases hsame.mpr hnothing

mutual

/-- No field has a default member initialiser. -/
def NoInitialisers {α : Type} : JType α → Prop
  | .scalar _ => True
  | .string => True
  | .json => True
  | .sequence t => NoInitialisers t
  | .array t _ => NoInitialisers t
  | .optional t => NoInitialisers t
  | .map t => NoInitialisers t
  | .struct _ fs => NoInitialisersFields fs

/-- `NoInitialisers` in each field. -/
def NoInitialisersFields {α : Type} : JFields α → Prop
  | .last _ init t => init = none ∧ NoInitialisers t
  | .cons _ init t fs => (init = none ∧ NoInitialisers t) ∧ NoInitialisersFields fs

end

/-- Without default member initialisers nothing can show through. -/
theorem clean_of_noInitialisers {t : JType α} (h : NoInitialisers t) (c : Creation) (v : α) :
    Clean t (initial c t) v := by
  induction t using @JType.rec _
    (fun {α} fs => NoInitialisersFields fs → ∀ (c : Creation) (v : α),
      CleanFields fs (initialFields c fs) v) generalizing c with
  | scalar codec => trivial
  | string => trivial
  | json => trivial
  | sequence t ih => exact ⟨rfl, fun x _ => ih h .defaultInit x⟩
  | array t n ih => exact fun x _ => ih h .defaultInit x
  | optional t ih =>
      cases v with
      | none => trivial
      | some v => exact Or.inr (ih h .defaultInit v)
  | map t ih =>
      refine ⟨fun key _ => by simp [initial], ?_⟩
      intro pair _
      have hmade : (initial c (.map t))[pair.1]?.getD (valueInit t) = valueInit t := by
        simp [initial]
      rw [hmade]
      exact ih h .valueInit pair.2
  | struct fieldsOptional fs ih => exact ih h c v
  | last name init t ih h c v =>
      obtain ⟨rfl, ht⟩ := h
      exact ih ht c v
  | cons name init t fs ih ihfs h c v =>
      obtain ⟨⟨rfl, ht⟩, hfs⟩ := h
      obtain ⟨v, vs⟩ := v
      exact ⟨ih ht c v, ihfs hfs c vs⟩

/-- For a type without default member initialisers the round trip of every value is what it
should be. -/
theorem roundTrips_of_noInitialisers {t : JType α} (hnames : DistinctNames t)
    (h : NoInitialisers t) (v : α) : RoundTrips t v :=
  (roundTrips_iff_clean hnames v).mpr (clean_of_noInitialisers h .defaultInit v)

end BacsEnv.Bpjson
