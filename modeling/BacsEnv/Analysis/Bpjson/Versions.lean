import BacsEnv.Analysis.Bpjson.RoundTrip

/-!
# Reading what another version of a type wrote

The program that writes a JSON value and the one that reads it may have different versions
of the structs in it: with fields in another order, and with fields that the other version
does not have, at any depth. `Versions` relates the type of the writer to the type of the
reader. When the reader accepts the value, and what it makes of it, is read off from that:
it finds each field that the writer has too, and passes over the others of the writer.
-/

set_option autoImplicit false

namespace BacsEnv.Bpjson

variable {α β : Type}

/-- The place of a field among the fields of a struct. -/
inductive FieldOf {α : Type} (name : Text) (t : JType α) : {β : Type} → JFields β → Type 1
  | last (init : Option α) : FieldOf name t (.last name init t)
  | head {β : Type} (init : Option α) (fs : JFields β) : FieldOf name t (.cons name init t fs)
  | tail {β γ : Type} (other : Text) (init : Option γ) (u : JType γ) {fs : JFields β}
      (i : FieldOf name t fs) : FieldOf name t (.cons other init u fs)

/-- The value of the field. -/
def FieldOf.get {name : Text} {t : JType α} {β : Type} {fs : JFields β} :
    FieldOf name t fs → β → α
  | .last _, v => v
  | .head _ _, v => v.1
  | .tail _ _ _ i, v => i.get v.2

mutual

/-- A type of a writer, and another version of it for a reader. -/
inductive Versions : {β α : Type} → JType β → JType α → Type 1
  | scalar {α : Type} (codec : ScalarCodec α) : Versions (.scalar codec) (.scalar codec)
  | string : Versions .string .string
  | json : Versions .json .json
  | sequence {β α : Type} {tw : JType β} {tr : JType α} (d : Versions tw tr) :
      Versions (.sequence tw) (.sequence tr)
  | array {β α : Type} {tw : JType β} {tr : JType α} (d : Versions tw tr) (n : ℕ) :
      Versions (.array tw n) (.array tr n)
  | optional {β α : Type} {tw : JType β} {tr : JType α} (d : Versions tw tr) :
      Versions (.optional tw) (.optional tr)
  | map {β α : Type} {tw : JType β} {tr : JType α} (d : Versions tw tr) :
      Versions (.map tw) (.map tr)
  | struct {β α : Type} {fsw : JFields β} {fsr : JFields α} (written fieldsOptional : Bool)
      (d : FieldsVersions fsw fsr) : Versions (.struct written fsw) (.struct fieldsOptional fsr)

/-- A field of the reader: the writer has it too, perhaps in another version, or has not. -/
inductive FieldVersions : {β α : Type} → JFields β → Text → JType α → Type 1
  | kept {β γ α : Type} {fsw : JFields β} {name : Text} {tw : JType γ} {tr : JType α}
      (i : FieldOf name tw fsw) (d : Versions tw tr) : FieldVersions fsw name tr
  | added {β α : Type} {fsw : JFields β} {name : Text} (tr : JType α)
      (h : name ∉ fieldNames fsw) : FieldVersions fsw name tr

/-- The fields of the reader, each with its place in the struct of the writer. -/
inductive FieldsVersions : {β α : Type} → JFields β → JFields α → Type 1
  | last {β α : Type} {fsw : JFields β} {name : Text} {tr : JType α} (init : Option α)
      (f : FieldVersions fsw name tr) : FieldsVersions fsw (.last name init tr)
  | cons {β α γ : Type} {fsw : JFields β} {name : Text} {tr : JType α} {fsr : JFields γ}
      (init : Option α) (f : FieldVersions fsw name tr) (fs : FieldsVersions fsw fsr) :
      FieldsVersions fsw (.cons name init tr fsr)

end

mutual

/-- The reader accepts the value of a writer: wherever a field is added, a missing key is
put up with. Below a container, an optional and a map the mode is the default one. -/
def Versions.Accepts {β α : Type} {tw : JType β} {tr : JType α} (mode : MissingFields) :
    Versions tw tr → β → Prop
  | .scalar _, _ => True
  | .string, _ => True
  | .json, _ => True
  | .sequence d, v => ∀ x ∈ v, d.Accepts .throwException x
  | .array d _, v => ∀ x ∈ v.toList, d.Accepts .throwException x
  | .optional _, none => True
  | @Versions.optional _ _ tw _ d, some v => writtenNull tw v = true ∨ d.Accepts .throwException v
  | .map d, v => ∀ pair ∈ v.toList, d.Accepts .throwException pair.2
  | .struct _ fieldsOptional d, v => d.Accepts mode fieldsOptional v

/-- `Accepts` for one field. -/
def FieldVersions.Accepts {β α : Type} {fsw : JFields β} {name : Text} {tr : JType α}
    (mode : MissingFields) (fieldsOptional : Bool) : FieldVersions fsw name tr → β → Prop
  | .kept i d, v => d.Accepts mode (i.get v)
  | .added _ _, _ => mode ≠ .throwException ∨ fieldsOptional = true

/-- `Accepts` for each field. -/
def FieldsVersions.Accepts {β α : Type} {fsw : JFields β} {fsr : JFields α}
    (mode : MissingFields) (fieldsOptional : Bool) : FieldsVersions fsw fsr → β → Prop
  | .last _ f, v => f.Accepts mode fieldsOptional v
  | .cons _ f fs, v => f.Accepts mode fieldsOptional v ∧ fs.Accepts mode fieldsOptional v

end

mutual

/-- What the reader makes of the value of a writer. -/
def Versions.result {β α : Type} {tw : JType β} {tr : JType α} (mode : MissingFields) :
    Versions tw tr → α → β → α
  | .scalar _, _, v => v
  | .string, _, v => v
  | .json, _, v => v
  | @Versions.sequence _ _ _ tr d, target, v =>
      target ++ v.map (d.result .throwException (fresh tr))
  | @Versions.array _ _ _ tr d _, _, v => v.map (d.result .throwException (fresh tr))
  | .optional _, _, none => none
  | @Versions.optional _ _ tw tr d, _, some v =>
      if writtenNull tw v then none else some (d.result .throwException (fresh tr) v)
  | @Versions.map _ _ _ tr d, target, v => target.insertMany (v.toList.map fun pair =>
      (pair.1, d.result .throwException (target[pair.1]?.getD (valueInit tr)) pair.2))
  | .struct _ _ d, target, v => d.result mode target v

/-- What becomes of one field. -/
def FieldVersions.result {β α : Type} {fsw : JFields β} {name : Text} {tr : JType α}
    (mode : MissingFields) : FieldVersions fsw name tr → α → β → α
  | .kept i d, target, v => d.result mode target (i.get v)
  | .added tr _, target, _ => if mode = .defaultInitialize then valueInit tr else target

/-- What becomes of each field. -/
def FieldsVersions.result {β α : Type} {fsw : JFields β} {fsr : JFields α}
    (mode : MissingFields) : FieldsVersions fsw fsr → α → β → α
  | .last _ f, target, v => f.result mode target v
  | .cons _ f fs, (target, targets), v => (f.result mode target v, fs.result mode targets v)

end

/-! ## The fields of the writer -/

/-- The image of a field is among those of its struct. -/
theorem FieldOf.mem_fieldImages {name : Text} {t : JType α} {fs : JFields β}
    (i : FieldOf name t fs) (v : β) : (name, image t (i.get v)) ∈ fieldImages fs v := by
  induction i with
  | last init => exact List.mem_singleton.mpr rfl
  | head init fs => exact List.mem_cons_self
  | tail other init u i ih => exact List.mem_cons_of_mem _ (ih v.2)

theorem FieldOf.distinctNames {name : Text} {t : JType α} {fs : JFields β}
    (i : FieldOf name t fs) (h : DistinctNamesFields fs) : DistinctNames t := by
  induction i with
  | last init => exact h
  | head init fs => exact h.1
  | tail other init u i ih => exact ih h.2

/-- The key of a field of the writer is there. -/
theorem FieldOf.find_eq {name : Text} {t : JType α} {fs : JFields β} (i : FieldOf name t fs)
    (hnodup : (fieldNames fs).Nodup) (v : β) :
    (objectOf ((∅ : StringMap Json).insertMany (fieldImages fs v))).find name =
      some (image t (i.get v)) := by
  rw [find_objectOf]
  exact getElem?_fieldImages hnodup (i.mem_fieldImages v)

/-- The keys of other fields are not. -/
theorem find_fieldImages_of_notMem {name : Text} {fs : JFields β} (h : name ∉ fieldNames fs)
    (v : β) :
    (objectOf ((∅ : StringMap Json).insertMany (fieldImages fs v))).find name = none := by
  rw [find_objectOf, getElem?_insertMany_of_notMem (by rwa [map_fst_fieldImages])]
  exact Std.ExtTreeMap.getElem?_empty

/-- The keys that `items` visits are there. -/
theorem isSome_find_objectOf {m : StringMap Json} {pair : Text × Json} (h : pair ∈ m.toList) :
    ((objectOf m).find pair.1).isSome := by
  rw [find_objectOf, Std.ExtTreeMap.mem_toList_iff_getElem?_eq_some.mp h]
  rfl

/-! ## The reader -/

/-- Values that are computed from the items that qualify. -/
theorem forall₂_and_eq_iff {p : β → Prop} {g : β → α} {items : List β} {values : List α} :
    List.Forall₂ (fun item value => p item ∧ value = g item) items values ↔
      (∀ item ∈ items, p item) ∧ values = items.map g := by
  have hvalues : List.Forall₂ (fun item value => value = g item) items values ↔
      values = items.map g := by
    rw [eq_comm (a := values), ← List.forall₂_eq_eq_eq, List.forall₂_map_left_iff]
    simp only [eq_comm]
  rw [List.forall₂_and_left, hvalues]

/-- The reader accepts what another version of it wrote as `Accepts` says, and makes of it what
`result` says. -/
theorem readTo_version {tw : JType β} {tr : JType α} (d : Versions tw tr)
    (hnames : DistinctNames tw) (mode : MissingFields) (v : β) (target w : α) :
    readTo mode tr (image tw v) target = .ok w ↔
      d.Accepts mode v ∧ w = d.result mode target v := by
  induction d using @Versions.rec _
    (fun {β α} {fsw} {name} {tr} f => (fieldNames fsw).Nodup → DistinctNamesFields fsw →
      ∀ (mode : MissingFields) (fieldsOptional : Bool) (v : β) (target w : α),
        readField mode false fieldsOptional tr name
            (objectOf ((∅ : StringMap Json).insertMany (fieldImages fsw v))) target
            (fun subkey => readTo mode tr subkey target) = .ok w ↔
          f.Accepts mode fieldsOptional v ∧ w = f.result mode target v)
    (fun {β α} {fsw} {fsr} fs => (fieldNames fsw).Nodup → DistinctNamesFields fsw →
      ∀ (mode : MissingFields) (fieldsOptional : Bool) (v : β) (target w : α),
        readObject mode false fieldsOptional fsr
            (objectOf ((∅ : StringMap Json).insertMany (fieldImages fsw v))) target = .ok w ↔
          fs.Accepts mode fieldsOptional v ∧ w = fs.result mode target v) generalizing mode with
  | scalar codec =>
      rw [readTo, image, codec.get_put]
      simp [Versions.Accepts, Versions.result, eq_comm]
  | string => simp [readTo, image, Json.getString, Versions.Accepts, Versions.result, eq_comm]
  | json => simp [readTo, image, Versions.Accepts, Versions.result, eq_comm]
  | sequence d ih =>
      rw [readTo_sequence, readSequence_eq_ok_iff, image, iterate_arrayOf]
      simp only [List.forall₂_map_left_iff, ih hnames, forall₂_and_eq_iff, Versions.Accepts,
        Versions.result]
      constructor
      · rintro ⟨values, ⟨haccepts, rfl⟩, hw⟩
        exact ⟨haccepts, hw⟩
      · rintro ⟨haccepts, hw⟩
        exact ⟨_, ⟨haccepts, rfl⟩, hw⟩
  | array d n ih =>
      rw [readTo_array, readArray_eq_ok_iff, image, iterate_arrayOf]
      simp only [List.forall₂_map_left_iff, ih hnames, forall₂_and_eq_iff, Versions.Accepts,
        Versions.result, and_assoc, exists_and_left, exists_eq_left]
      refine and_congr_right fun _ => ?_
      rw [List.take_of_length_le (by simp), List.drop_of_length_le (by simp), List.append_nil,
        ← List.Vector.toList_map, List.Vector.toList_injective.eq_iff]
  | optional d ih =>
      rw [readTo_optional, readOptional_eq_ok_iff]
      cases v with
      | none => simp [image, Json.isNull, Versions.Accepts, Versions.result]
      | some v =>
          rw [image, isNull_image, Versions.Accepts, Versions.result]
          cases writtenNull _ v with
          | true => simp
          | false => simp [ih hnames]
  | map d ih =>
      rw [readTo_map, readMap_eq_ok_iff, image, items_objectOf,
        and_iff_right fun pair hpair => isSome_find_objectOf hpair]
      simp only [Std.ExtTreeMap.toList_map, List.forall₂_map_left_iff, ih hnames,
        forall₂_and_eq_iff, Versions.Accepts, Versions.result, and_assoc, exists_and_left,
        exists_eq_left]
      refine and_congr_right fun _ => ?_
      rw [List.map_map, ← List.zip_map']
      rfl
  | struct written fieldsOptional d ih =>
      rw [readTo, image, Versions.Accepts, Versions.result]
      exact ih hnames.1 hnames.2 mode fieldsOptional v target w
  | kept i d ih hnodup hnames mode fieldsOptional v target w =>
      rw [readField_of_find (i.find_eq hnodup v), inField_eq_ok_iff]
      exact ih (i.distinctNames hnames) mode (i.get v) target w
  | added tr h hnodup hnames mode fieldsOptional v target w =>
      rw [readField_of_missing (find_fieldImages_of_notMem h v)]
      refine and_congr ?_ Iff.rfl
      simp only [FieldVersions.Accepts]
      cases fieldsOptional <;> simp
  | last init f ih hnodup hnames mode fieldsOptional v target w =>
      rw [readObject]
      exact ih hnodup hnames mode fieldsOptional v target w
  | cons init f fs ih ihfs hnodup hnames mode fieldsOptional v target w =>
      obtain ⟨target, targets⟩ := target
      rw [readObject, pair_eq_ok_iff, ih hnodup hnames, ihfs hnodup hnames]
      simp only [FieldsVersions.Accepts, FieldsVersions.result, Prod.ext_iff]
      exact and_and_and_comm

/-- A value is written, and another version of its type reads it back if and only if each
missing key on the way is put up with. A field that both versions have then holds what was
written in it, behind what its containers held before, and a field that was added is as the
mode says. -/
theorem other_version_reads {tw : JType β} {tr : JType α} (d : Versions tw tr)
    (hnames : DistinctNames tw) (v : β) :
    ∃ json, write tw v = .ok json ∧ ∀ (mode : MissingFields) (target w : α),
      readTo mode tr json target = .ok w ↔ d.Accepts mode v ∧ w = d.result mode target v :=
  ⟨image tw v, writeFrom_eq_image hnames v, fun mode => readTo_version d hnames mode v⟩

/-- A struct `{ std::list<bool> flags; std::string note; }`. -/
def sampleReport : JType (List Bool × Text) :=
  .struct false (.cons (text "flags") none (.sequence (.scalar boolCodec))
    (.last (text "note") none .string))

/-- Another version of it, `{ std::string note; bool urgent; }`. -/
def sampleSummary : JType (Text × Bool) :=
  .struct false (.cons (text "note") none .string
    (.last (text "urgent") none (.scalar boolCodec)))

/-- The note is in both versions. -/
def reportSummary : Versions sampleReport sampleSummary :=
  .struct false false (.cons none (.kept (.tail _ _ _ (.last none)) .string)
    (.last none (.added _ (by decide))))

/-- The summary of a report, with the mode for missing keys that leaves a field alone. -/
theorem other_version_reads_report :
    ∃ json, write sampleReport ([true], [104, 105]) = .ok json ∧
      readTo .ignore sampleSummary json ([], true) = .ok ([104, 105], true) ∧
      ∀ target w, readTo .throwException sampleSummary json target ≠ .ok w := by
  have hnames : DistinctNames sampleReport := ⟨by decide, trivial, trivial⟩
  obtain ⟨json, hwrite, hread⟩ := other_version_reads reportSummary hnames ([true], [104, 105])
  refine ⟨json, hwrite, ?_, ?_⟩
  · exact (hread .ignore ([], true) _).mpr ⟨⟨trivial, Or.inl (by decide)⟩, rfl⟩
  · intro target w h
    obtain ⟨⟨-, hurgent⟩, -⟩ := (hread .throwException target w).mp h
    rcases hurgent with hmode | hoptional
    · exact hmode rfl
    · cases hoptional

end BacsEnv.Bpjson
