import BacsEnv.Analysis.Bpjson.Overwrite

/-!
# Missing keys of optional fields

With the default settings the keys of optional fields may be missing, and every other field
should be what its own key gives (`Gives`). The reader insists on the keys of optionals too,
and it reads a field into what the struct's initialiser put there: `OwnKeysOnly` says when
neither shows.
-/

set_option autoImplicit false

namespace BacsEnv.Bpjson

variable {α β : Type}

/-! ## What should be read -/

/-- What the key of a field gives. The key of an optional may be missing, which leaves it
disengaged. -/
def FieldGives {α : Type} (t : JType α) (name : Text) (json : Json) (gives : Json → α → Prop)
    (v : α) : Prop :=
  (∃ subkey, json.find name = some subkey ∧ gives subkey v) ∨
    (json.find name = none ∧ forceOptional t = true ∧ v = valueInit t)

mutual

/-- What a JSON value gives when at every depth the keys of all fields but the optional ones are
there, each value that is there can be read, and structs are objects. -/
def Gives {α : Type} : JType α → Json → α → Prop
  | .scalar codec, json, v => codec.get json = some v
  | .string, json, v => json.getString = .ok v
  | .json, json, v => v = json
  | .sequence t, json, v => List.Forall₂ (Gives t) json.iterate v
  | .array t n, json, v =>
      ∃ values, List.Forall₂ (Gives t) json.iterate values ∧
        v.toList = values.take n ++ (fresh (.array t n)).toList.drop values.length
  | .optional _, json, none => json.isNull = true
  | .optional t, json, some x => json.isNull = false ∧ Gives t json x
  | .map t, json, v =>
      (∀ pair ∈ json.items, (json.find pair.1).isSome ∧
        ∃ x, Gives t pair.2 x ∧ v[pair.1]? = some x) ∧
          ∀ key : Text, (∀ pair ∈ json.items, pair.1 ≠ key) → v[key]? = none
  | .struct _ fs, json, v => json.isObject = true ∧ GivesFields fs json v

/-- `Gives` for the fields of a struct. -/
def GivesFields {α : Type} : JFields α → Json → α → Prop
  | .last name _ t, json, v => FieldGives t name json (Gives t) v
  | .cons name _ t fs, json, v =>
      FieldGives t name json (Gives t) v.1 ∧ GivesFields fs json v.2

end

mutual

/-- Somewhere the key of a field is missing that is not optional, in a struct without
`json_fields_optional`. -/
def MissingRequired {α : Type} : JType α → Json → Prop
  | .scalar _, _ => False
  | .string, _ => False
  | .json, _ => False
  | .sequence t, json => ∃ item ∈ json.iterate, MissingRequired t item
  | .array t _, json => ∃ item ∈ json.iterate, MissingRequired t item
  | .optional t, json => json.isNull = false ∧ MissingRequired t json
  | .map t, json => ∃ pair ∈ json.items, MissingRequired t pair.2
  | .struct fieldsOptional fs, json => MissingRequiredFields fieldsOptional fs json

/-- `MissingRequired` for the fields of a struct. -/
def MissingRequiredFields (fieldsOptional : Bool) {α : Type} : JFields α → Json → Prop
  | .last name _ t, json =>
      (∃ subkey, json.find name = some subkey ∧ MissingRequired t subkey) ∨
        (json.find name = none ∧ fieldsOptional = false ∧ forceOptional t = false)
  | .cons name _ t fs, json =>
      ((∃ subkey, json.find name = some subkey ∧ MissingRequired t subkey) ∨
        (json.find name = none ∧ fieldsOptional = false ∧ forceOptional t = false)) ∨
        MissingRequiredFields fieldsOptional fs json

end

/-- What does not show in a field: the key is there, or `json_fields_optional` puts up with it
for an optional that starts disengaged. -/
def FieldOwnKeyOnly (fieldsOptional : Bool) {α : Type} (t : JType α) (name : Text) (json : Json)
    (target : α) (only : Json → Prop) : Prop :=
  (∀ subkey, json.find name = some subkey → only subkey) ∧
    (json.find name = none → fieldsOptional = true ∧ target = valueInit t)

mutual

/-- No key of an optional is missing that the reader insists on, and nothing of what it reads
into shows: containers are empty, maps have no other keys, and the elements of a container of a
fixed size behind those that are read are like new ones. -/
def OwnKeysOnly {α : Type} : JType α → Json → α → Prop
  | .scalar _, _, _ => True
  | .string, _, _ => True
  | .json, _, _ => True
  | .sequence t, json, target =>
      target = [] ∧ ∀ item ∈ json.iterate, OwnKeysOnly t item (fresh t)
  | .array t n, json, target =>
      target.toList.drop json.iterate.length =
          (fresh (.array t n)).toList.drop json.iterate.length ∧
        -- The items that do not fit are read and thrown away.
        (∀ item ∈ json.iterate.take n, OwnKeysOnly t item (fresh t)) ∧
          ∀ item ∈ json.iterate.drop n, Accepted t item
  | .optional t, json, _ => json.isNull = false → OwnKeysOnly t json (fresh t)
  | .map t, json, target =>
      (∀ key : Text, (∀ pair ∈ json.items, pair.1 ≠ key) → target[key]? = none) ∧
        ∀ pair ∈ json.items, OwnKeysOnly t pair.2 (target[pair.1]?.getD (valueInit t))
  | .struct fieldsOptional fs, json, target => OwnKeysOnlyFields fieldsOptional fs json target

/-- `OwnKeysOnly` for the fields of a struct. -/
def OwnKeysOnlyFields (fieldsOptional : Bool) {α : Type} : JFields α → Json → α → Prop
  | .last name _ t, json, target =>
      FieldOwnKeyOnly fieldsOptional t name json target fun subkey => OwnKeysOnly t subkey target
  | .cons name _ t fs, json, target =>
      FieldOwnKeyOnly fieldsOptional t name json target.1
          (fun subkey => OwnKeysOnly t subkey target.1) ∧
        OwnKeysOnlyFields fieldsOptional fs json target.2

end

/-! ## When it is read -/

/-- Items that give the values are read as them exactly when nothing else shows. -/
theorem forall₂_ok_iff {gives : β → α → Prop} {f : β → Result α} {only : β → Prop}
    {items : List β} {values : List α} (hgives : List.Forall₂ gives items values)
    (h : ∀ item value, gives item value → (f item = .ok value ↔ only item)) :
    List.Forall₂ (fun item value => f item = .ok value) items values ↔
      ∀ item ∈ items, only item := by
  induction hgives with
  | nil => simp
  | cons hfirst _ ih => rw [List.forall₂_cons, ih, h _ _ hfirst, List.forall_mem_cons]

theorem readSequence_gives_iff {gives : Json → α → Prop} {f : Json → Result α} {only : Json → Prop}
    {json : Json} {target v : List α} (hgives : List.Forall₂ gives json.iterate v)
    (h : ∀ item value, gives item value → (f item = .ok value ↔ only item)) :
    readSequence f json target = .ok v ↔ target = [] ∧ ∀ item ∈ json.iterate, only item := by
  rw [readSequence_eq_ok_iff, ← forall₂_ok_iff hgives h]
  constructor
  · rintro ⟨values, hvalues, rfl⟩
    have hlen := hgives.length_eq.symm.trans hvalues.length_eq
    rw [List.length_append] at hlen
    have hnil : target = [] := List.eq_nil_of_length_eq_zero (by omega)
    refine ⟨hnil, ?_⟩
    rwa [hnil, List.nil_append]
  · rintro ⟨rfl, hv⟩
    exact ⟨v, hv, rfl⟩

theorem readArray_gives_iff {gives : Json → α → Prop} {f : Json → Result α} {only : Json → Prop}
    {json : Json} {n : ℕ} {target v : List.Vector α n} {values kept : List α}
    (hgives : List.Forall₂ gives json.iterate values)
    (hv : v.toList = values.take n ++ kept.drop values.length)
    (h : ∀ item value, gives item value → (f item = .ok value ↔ only item)) :
    readArray f json target = .ok v ↔
      target.toList.drop json.iterate.length = kept.drop json.iterate.length ∧
        (∀ item ∈ json.iterate.take n, only item) ∧
          ∀ item ∈ json.iterate.drop n, ∃ w, f item = .ok w := by
  have htake := forall₂_ok_iff (List.forall₂_take n hgives) h
  rw [readArray_eq_ok_iff, ← htake, ← exists_forall₂_iff_forall, hv, hgives.length_eq]
  constructor
  · rintro ⟨ws, hws, heq⟩
    have hlen : ws.length = values.length := hws.length_eq.symm.trans hgives.length_eq
    rw [hlen] at heq
    obtain ⟨hread, hleft⟩ := List.append_inj heq (by simp [hlen])
    rw [hread]
    exact ⟨hleft.symm, List.forall₂_take n hws, _, List.forall₂_drop n hws⟩
  · rintro ⟨hleft, hread, ws, hws⟩
    have hall : List.Forall₂ (fun item w => f item = .ok w)
        (json.iterate.take n ++ json.iterate.drop n) (values.take n ++ ws) :=
      List.rel_append hread hws
    rw [List.take_append_drop] at hall
    have hlen := hall.length_eq.symm.trans hgives.length_eq
    refine ⟨_, hall, ?_⟩
    have hthrown := hws.length_eq
    have hitems := hgives.length_eq
    -- What was thrown away does not come back, since the elements kept fill the container.
    have hrest : ws.take (n - (values.take n).length) = [] := by
      apply List.eq_nil_of_length_eq_zero
      simp only [List.length_take, List.length_drop] at hthrown ⊢
      omega
    rw [hlen, hleft, List.take_append, List.take_take, Nat.min_self, hrest, List.append_nil]

theorem readMap_gives_iff {gives : Json → α → Prop} {f : Json → α → Result α} {made : α}
    {only : Json → α → Prop} {json : Json} {target v : StringMap α}
    (hgives : ∀ pair ∈ json.items, (json.find pair.1).isSome ∧
      ∃ x, gives pair.2 x ∧ v[pair.1]? = some x)
    (hother : ∀ key : Text, (∀ pair ∈ json.items, pair.1 ≠ key) → v[key]? = none)
    (h : ∀ item element value, gives item value →
      (f item element = .ok value ↔ only item element)) :
    readMap f made json target = .ok v ↔
      (∀ key : Text, (∀ pair ∈ json.items, pair.1 ≠ key) → target[key]? = none) ∧
        ∀ pair ∈ json.items, only pair.2 (target[pair.1]?.getD made) := by
  constructor
  · intro hread
    refine ⟨?_, ?_⟩
    · intro key hkey
      rw [← getElem?_readMap_of_notMem hread hkey]
      exact hother key hkey
    · intro pair hpair
      obtain ⟨-, x, hx, hvx⟩ := hgives pair hpair
      obtain ⟨value, hvalue, hv⟩ := getElem?_readMap_of_mem hread hpair
      obtain rfl := Option.some.inj (hvx.symm.trans hv)
      exact (h _ _ _ hx).mp hvalue
  · rintro ⟨hkeys, honly⟩
    have hok : ∃ w, readMap f made json target = .ok w := by
      rw [exists_readMap_iff, exists_forall₂_iff_forall]
      refine ⟨fun pair hpair => (hgives pair hpair).1, ?_⟩
      intro pair hpair
      obtain ⟨-, x, hx, -⟩ := hgives pair hpair
      exact ⟨x, (h _ _ _ hx).mpr (honly pair hpair)⟩
    obtain ⟨w, hw⟩ := hok
    rw [hw]
    refine congrArg Except.ok (Std.ExtTreeMap.ext_getElem? fun key => ?_)
    by_cases hkey : ∃ pair ∈ json.items, pair.1 = key
    · obtain ⟨pair, hpair, rfl⟩ := hkey
      obtain ⟨-, x, hx, hvx⟩ := hgives pair hpair
      obtain ⟨value, hvalue, hwx⟩ := getElem?_readMap_of_mem hw hpair
      rw [(h _ _ _ hx).mpr (honly pair hpair)] at hvalue
      obtain rfl := Except.ok.inj hvalue
      rw [hwx, hvx]
    · have hnot : ∀ pair ∈ json.items, pair.1 ≠ key :=
        fun pair hpair heq => hkey ⟨pair, hpair, heq⟩
      rw [getElem?_readMap_of_notMem hw hnot, hkeys key hnot, hother key hnot]

theorem readField_gives_iff {fieldsOptional : Bool} {t : JType α} {name : Text} {json : Json}
    {target v : α} {gives : Json → α → Prop} {f : Json → Result α} {only : Json → Prop}
    (hgives : FieldGives t name json gives v)
    (h : ∀ subkey, gives subkey v → (f subkey = .ok v ↔ only subkey)) :
    readField .throwException false fieldsOptional t name json target f = .ok v ↔
      FieldOwnKeyOnly fieldsOptional t name json target only := by
  unfold FieldOwnKeyOnly
  rw [readField_eq_ok_iff]
  rcases hgives with ⟨subkey, hfind, hsubkey⟩ | ⟨hfind, -, rfl⟩
  · simp [hfind, h subkey hsubkey]
  · simp [hfind, eq_comm]

/-- A value that gives `v` is read as `v` exactly when nothing but its keys shows. -/
theorem readTo_gives_iff {t : JType α} {json : Json} {v : α} (target : α) (h : Gives t json v) :
    readTo .throwException t json target = .ok v ↔ OwnKeysOnly t json target := by
  induction t using @JType.rec _
    (fun {α} fs => ∀ (fieldsOptional : Bool) (json : Json) (v target : α), GivesFields fs json v →
      (readObject .throwException false fieldsOptional fs json target = .ok v ↔
        OwnKeysOnlyFields fieldsOptional fs json target)) generalizing json with
  | scalar codec =>
      have hget : codec.get json = some v := h
      rw [readTo, hget]
      exact iff_of_true rfl trivial
  | string => exact iff_of_true h trivial
  | json =>
      obtain rfl : v = json := h
      exact iff_of_true rfl trivial
  | sequence t ih =>
      rw [readTo_sequence, OwnKeysOnly]
      exact readSequence_gives_iff h fun item value hvalue => ih (fresh t) hvalue
  | array t n ih =>
      obtain ⟨values, hvalues, hv⟩ := h
      rw [readTo_array, OwnKeysOnly, readArray_gives_iff hvalues hv fun item value hvalue =>
        ih (fresh t) hvalue]
      simp only [readTo_ok_iff]
  | optional t ih =>
      rw [readTo_optional, readOptional_eq_ok_iff, OwnKeysOnly]
      cases v with
      | none =>
          have hnull : json.isNull = true := h
          simp [hnull]
      | some x =>
          obtain ⟨hnull, hx⟩ := h
          simp [hnull, ← ih (fresh t) hx]
  | map t ih =>
      rw [readTo_map, OwnKeysOnly]
      exact readMap_gives_iff h.1 h.2 fun item element value hvalue => ih element hvalue
  | struct fieldsOptional fs ih =>
      rw [readTo, OwnKeysOnly]
      exact ih fieldsOptional json v target h.2
  | last name init t ih fieldsOptional json v target h =>
      rw [readObject, OwnKeysOnlyFields]
      exact readField_gives_iff h fun subkey hsubkey => ih target hsubkey
  | cons name init t fs ih ihfs fieldsOptional json v target h =>
      obtain ⟨target, targets⟩ := target
      rw [readObject, OwnKeysOnlyFields, pair_eq_ok_iff]
      exact and_congr (readField_gives_iff h.1 fun subkey hsubkey => ih target hsubkey)
        (ihfs fieldsOptional json v.2 targets h.2)

/-- Where a required key is missing nothing is accepted. -/
theorem not_accepted_of_missingRequired {t : JType α} {json : Json}
    (h : MissingRequired t json) : ¬ Accepted t json := by
  induction t using @JType.rec _
    (fun {_} fs => ∀ (fieldsOptional : Bool) (json : Json),
      MissingRequiredFields fieldsOptional fs json → ¬ AcceptedFields fieldsOptional fs json)
    generalizing json with
  | scalar codec => exact h.elim
  | string => exact h.elim
  | json => exact h.elim
  | sequence t ih =>
      obtain ⟨item, hitem, hmissing⟩ := h
      exact fun haccepted => ih hmissing (haccepted item hitem)
  | array t n ih =>
      obtain ⟨item, hitem, hmissing⟩ := h
      exact fun haccepted => ih hmissing (haccepted item hitem)
  | optional t ih => exact fun haccepted => ih h.2 (haccepted h.1)
  | map t ih =>
      obtain ⟨pair, hpair, hmissing⟩ := h
      exact fun haccepted => ih hmissing (haccepted.2 pair hpair)
  | struct fieldsOptional fs ih => exact ih fieldsOptional json h
  | last name init t ih fieldsOptional json h =>
      rintro ⟨hvalue, habsent⟩
      rcases h with ⟨subkey, hfind, hmissing⟩ | ⟨hfind, hrequired, -⟩
      · exact ih hmissing (hvalue subkey hfind)
      · rw [habsent hfind] at hrequired
        cases hrequired
  | cons name init t fs ih ihfs fieldsOptional json h =>
      rintro ⟨⟨hvalue, habsent⟩, hrest⟩
      rcases h with (⟨subkey, hfind, hmissing⟩ | ⟨hfind, hrequired, -⟩) | h
      · exact ih hmissing (hvalue subkey hfind)
      · rw [habsent hfind] at hrequired
        cases hrequired
      · exact ihfs fieldsOptional json h hrest

/-! ## Optional fields -/

/-- What reading with the default settings should be. When all but keys of optional fields are
there, the reader returns what the keys give. When a required key is missing it throws. -/
def OptionalMayBeMissing (t : JType α) (json : Json) : Prop :=
  (∀ v, Gives t json v → read .throwException t json = .ok v) ∧
  (MissingRequired t json → ∃ e, read .throwException t json = .error e)

/-- Keys of optional fields may be missing, if and only if none is, outside of structs with
`json_fields_optional` whose missing optionals start disengaged, and no initialiser of a field
that is read shows. -/
theorem optionalMayBeMissing_iff (t : JType α) (json : Json) :
    OptionalMayBeMissing t json ↔
      ((∃ v, Gives t json v) → OwnKeysOnly t json (fresh t)) := by
  constructor
  · rintro ⟨hgiven, -⟩ ⟨v, hv⟩
    exact (readTo_gives_iff (fresh t) hv).mp (hgiven v hv)
  · intro honly
    refine ⟨?_, ?_⟩
    · intro v hv
      exact (readTo_gives_iff (fresh t) hv).mpr (honly ⟨v, hv⟩)
    · intro hmissing
      cases hread : read .throwException t json with
      | error e => exact ⟨e, rfl⟩
      | ok w =>
          have haccepted := (readTo_ok_iff t json (fresh t)).mp ⟨w, hread⟩
          exact absurd haccepted (not_accepted_of_missingRequired hmissing)

/-- A struct with one optional flag. -/
def optionalFlagStruct : JType (Option Bool) :=
  .struct false (.last [102] none (.optional (.scalar boolCodec)))

/-- The key of the only field, an optional, is missing, and the reader throws. -/
theorem optional_key_required :
    Gives optionalFlagStruct (.object []) none ∧
      read .throwException optionalFlagStruct (.object []) =
        .error (.field .read [102] (.json (.keyNotFound [102]))) ∧
      ¬ OptionalMayBeMissing optionalFlagStruct (.object []) := by
  have hread : read .throwException optionalFlagStruct (.object []) =
      .error (.field .read [102] (.json (.keyNotFound [102]))) := rfl
  have hgives : Gives optionalFlagStruct (.object []) none := ⟨rfl, .inr ⟨rfl, rfl, rfl⟩⟩
  refine ⟨hgives, hread, ?_⟩
  rintro ⟨hmay, -⟩
  have hv := hmay none hgives
  rw [hread] at hv
  cases hv

end BacsEnv.Bpjson
