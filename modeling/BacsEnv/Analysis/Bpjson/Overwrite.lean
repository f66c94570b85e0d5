import BacsEnv.Analysis.Bpjson.Acceptance

/-!
# Reading into an object that is not fresh

The walkers of containers and maps read into what the target holds: a container grows, a
container of a fixed size keeps the elements behind the last one read, and a map keeps the
members whose keys do not occur. `RestAgrees` says that two targets are the same in what a
read leaves alone, and `AppendsNothing` that no container grows in the object that is read
into. From them follows exactly when `read_to` overwrites its target, and when reading a
second time changes nothing.
-/

set_option autoImplicit false

namespace BacsEnv.Bpjson

open Collect

variable {α β : Type}

/-! ## What is left of a target -/

mutual

/-- Two targets are the same in what a read of the JSON value leaves alone. -/
def RestAgrees {α : Type} : JType α → Json → α → α → Prop
  | .scalar _, _, _, _ => True
  | .string, _, _, _ => True
  | .json, _, _, _ => True
  | .sequence _, _, a, b => a = b
  | .array _ _, json, a, b =>
      a.toList.drop json.iterate.length = b.toList.drop json.iterate.length
  | .optional _, _, _, _ => True
  | .map t, json, a, b =>
      (∀ key : Text, (∀ pair ∈ json.items, pair.1 ≠ key) → a[key]? = b[key]?) ∧
        ∀ pair ∈ json.items, RestAgrees t pair.2 (a[pair.1]?.getD (valueInit t))
          (b[pair.1]?.getD (valueInit t))
  | .struct _ fs, json, a, b => RestAgreesFields fs json a b

/-- `RestAgrees` in each field; one without a key is left alone as a whole. -/
def RestAgreesFields {α : Type} : JFields α → Json → α → α → Prop
  | .last name _ t, json, a, b =>
      (∀ subkey, json.find name = some subkey → RestAgrees t subkey a b) ∧
        (json.find name = none → a = b)
  | .cons name _ t fs, json, (a, as), (b, bs) =>
      ((∀ subkey, json.find name = some subkey → RestAgrees t subkey a b) ∧
        (json.find name = none → a = b)) ∧ RestAgreesFields fs json as bs

end

mutual

/-- No container of the object that is read into gets an element. Elements of containers and
the payloads of optionals are new objects. -/
def AppendsNothing {α : Type} : JType α → Json → Prop
  | .scalar _, _ => True
  | .string, _ => True
  | .json, _ => True
  | .sequence _, json => json.iterate = []
  | .array _ _, _ => True
  | .optional _, _ => True
  | .map t, json => ∀ pair ∈ json.items, AppendsNothing t pair.2
  | .struct _ fs, json => AppendsNothingFields fs json

/-- `AppendsNothing` in each field. -/
def AppendsNothingFields {α : Type} : JFields α → Json → Prop
  | .last name _ t, json => ∀ subkey, json.find name = some subkey → AppendsNothing t subkey
  | .cons name _ t fs, json =>
      (∀ subkey, json.find name = some subkey → AppendsNothing t subkey) ∧
        AppendsNothingFields fs json

end

/-! ## Two reads of the same value -/

section Walkers

variable {json : Json}

/-- The items determine the elements. -/
theorem forall₂_ok_unique {f : β → Result α} {items : List β} {vs ws : List α}
    (hvs : List.Forall₂ (fun item v => f item = .ok v) items vs)
    (hws : List.Forall₂ (fun item v => f item = .ok v) items ws) : vs = ws :=
  List.right_unique_forall₂' (fun _ _ _ hv hw => Except.ok.inj (hv.symm.trans hw)) hvs hws

/-- What a map holds for a key that was read. -/
theorem getElem?_readMap_of_mem {f : Json → α → Result α} {made : α} {target w : StringMap α}
    (h : readMap f made json target = .ok w) {pair : Text × Json} (hpair : pair ∈ json.items) :
    ∃ value, f pair.2 (target[pair.1]?.getD made) = .ok value ∧ w[pair.1]? = some value := by
  obtain ⟨hfound, values, hvalues, rfl⟩ := readMap_eq_ok_iff.mp h
  obtain ⟨hlen, hzip⟩ := List.forall₂_iff_zip.mp hvalues
  have hmem : pair ∈ (json.items.zip values).map Prod.fst := by
    rw [List.map_fst_zip hlen.le]
    exact hpair
  obtain ⟨⟨_, value⟩, hentry, rfl⟩ := List.mem_map.mp hmem
  refine ⟨value, hzip hentry, ?_⟩
  have hkeys : ((json.items.map Prod.fst).zip values).map Prod.fst = json.items.map Prod.fst :=
    List.map_fst_zip (by rw [List.length_map]; exact hlen.le)
  refine getElem?_insertMany_of_mem ?_ ?_ target
  · rw [hkeys]
    exact nodup_keys_of_found hfound
  · rw [List.zip_map_left]
    exact List.mem_map.mpr ⟨_, hentry, rfl⟩

/-- What a map holds for any other key. -/
theorem getElem?_readMap_of_notMem {f : Json → α → Result α} {made : α} {target w : StringMap α}
    (h : readMap f made json target = .ok w) {key : Text}
    (hkey : ∀ pair ∈ json.items, pair.1 ≠ key) : w[key]? = target[key]? := by
  obtain ⟨-, values, hvalues, rfl⟩ := readMap_eq_ok_iff.mp h
  apply getElem?_insertMany_of_notMem
  rw [List.map_fst_zip (by rw [List.length_map]; exact hvalues.length_eq.le)]
  intro hmem
  obtain ⟨pair, hpair, hfst⟩ := List.mem_map.mp hmem
  exact hkey pair hpair hfst

/-- Two maps that were read from the same value. -/
theorem readMap_eq_iff {f : Json → α → Result α} {made : α} {a b v w : StringMap α}
    (hv : readMap f made json a = .ok v) (hw : readMap f made json b = .ok w)
    {same : Text × Json → Prop}
    (hsame : ∀ pair ∈ json.items, ∀ x y, f pair.2 (a[pair.1]?.getD made) = .ok x →
      f pair.2 (b[pair.1]?.getD made) = .ok y → (x = y ↔ same pair)) :
    v = w ↔ (∀ key : Text, (∀ pair ∈ json.items, pair.1 ≠ key) → a[key]? = b[key]?) ∧
      ∀ pair ∈ json.items, same pair := by
  constructor
  · rintro rfl
    refine ⟨?_, ?_⟩
    · intro key hkey
      rw [← getElem?_readMap_of_notMem hv hkey, getElem?_readMap_of_notMem hw hkey]
    · intro pair hpair
      obtain ⟨x, hx, hvx⟩ := getElem?_readMap_of_mem hv hpair
      obtain ⟨y, hy, hwy⟩ := getElem?_readMap_of_mem hw hpair
      exact (hsame pair hpair x y hx hy).mp (Option.some.inj (hvx.symm.trans hwy))
  · rintro ⟨hother, hall⟩
    apply Std.ExtTreeMap.ext_getElem?
    intro key
    by_cases hkey : ∃ pair ∈ json.items, pair.1 = key
    · obtain ⟨pair, hpair, rfl⟩ := hkey
      obtain ⟨x, hx, hvx⟩ := getElem?_readMap_of_mem hv hpair
      obtain ⟨y, hy, hwy⟩ := getElem?_readMap_of_mem hw hpair
      rw [hvx, hwy, (hsame pair hpair x y hx hy).mpr (hall pair hpair)]
    · have hnot : ∀ pair ∈ json.items, pair.1 ≠ key :=
        fun pair hpair heq => hkey ⟨pair, hpair, heq⟩
      rw [getElem?_readMap_of_notMem hv hnot, getElem?_readMap_of_notMem hw hnot]
      exact hother key hnot

end Walkers

/-- With the default settings a field is read from its key, or left alone in a struct with
`json_fields_optional`. -/
theorem readField_eq_ok_iff {fieldsOptional : Bool} {t : JType α} {name : Text} {json : Json}
    {target v : α} {f : Json → Result α} :
    readField .throwException false fieldsOptional t name json target f = .ok v ↔
      (∃ subkey, json.find name = some subkey ∧ f subkey = .ok v) ∨
        (json.find name = none ∧ fieldsOptional = true ∧ v = target) := by
  cases hfind : json.find name with
  | some subkey =>
      rw [readField_of_find hfind, inField_eq_ok_iff]
      simp
  | none =>
      rw [readField_of_missing hfind]
      simp

/-- One field of two reads. -/
theorem readField_eq_iff {fieldsOptional : Bool} {t : JType α} {name : Text} {json : Json}
    {a b v w : α} {f : Json → α → Result α} {same : Json → Prop}
    (hv : readField .throwException false fieldsOptional t name json a
      (fun subkey => f subkey a) = .ok v)
    (hw : readField .throwException false fieldsOptional t name json b
      (fun subkey => f subkey b) = .ok w)
    (hsame : ∀ subkey, f subkey a = .ok v → f subkey b = .ok w → (v = w ↔ same subkey)) :
    v = w ↔ (∀ subkey, json.find name = some subkey → same subkey) ∧
      (json.find name = none → a = b) := by
  rw [readField_eq_ok_iff] at hv hw
  cases hfind : json.find name with
  | some subkey =>
      simp only [hfind, Option.some.injEq, exists_eq_left', reduceCtorEq, false_and,
        or_false] at hv hw
      simp [hsame subkey hv hw]
  | none =>
      simp only [hfind, reduceCtorEq, false_and, exists_false, true_and, false_or] at hv hw
      simp [hv.2, hw.2]

/-- Two reads of the same value leave the same, if and only if the targets agree in what is
left alone. -/
theorem readTo_eq_iff {t : JType α} {json : Json} {a b v w : α}
    (hv : readTo .throwException t json a = .ok v) (hw : readTo .throwException t json b = .ok w) :
    v = w ↔ RestAgrees t json a b := by
  induction t using @JType.rec _
    (fun {α} fs => ∀ (fieldsOptional : Bool) (json : Json) (a b v w : α),
      readObject .throwException false fieldsOptional fs json a = .ok v →
        readObject .throwException false fieldsOptional fs json b = .ok w →
          (v = w ↔ RestAgreesFields fs json a b)) generalizing json with
  | scalar codec =>
      rw [readTo] at hv hw
      exact iff_true_intro (Except.ok.inj (hv.symm.trans hw))
  | string =>
      rw [readTo] at hv hw
      exact iff_true_intro (Except.ok.inj (hv.symm.trans hw))
  | json =>
      rw [readTo] at hv hw
      exact iff_true_intro (Except.ok.inj (hv.symm.trans hw))
  | sequence t ih =>
      rw [readTo_sequence, readSequence_eq_ok_iff] at hv hw
      obtain ⟨vs, hvs, rfl⟩ := hv
      obtain ⟨ws, hws, rfl⟩ := hw
      obtain rfl := forall₂_ok_unique hvs hws
      exact List.append_left_inj vs
  | array t n ih =>
      rw [readTo_array, readArray_eq_ok_iff] at hv hw
      obtain ⟨vs, hvs, hv⟩ := hv
      obtain ⟨ws, hws, hw⟩ := hw
      obtain rfl := forall₂_ok_unique hvs hws
      rw [← List.Vector.toList_injective.eq_iff, hv, hw, List.append_right_inj, RestAgrees,
        hvs.length_eq]
  | optional t ih =>
      rw [readTo_optional] at hv hw
      exact iff_true_intro (Except.ok.inj (hv.symm.trans hw))
  | map t ih =>
      rw [readTo_map] at hv hw
      exact readMap_eq_iff hv hw fun pair _ x y hx hy => ih hx hy
  | struct fieldsOptional fs ih =>
      rw [readTo] at hv hw
      exact ih fieldsOptional json a b v w hv hw
  | last name init t ih fieldsOptional json a b v w hv hw =>
      rw [readObject] at hv hw
      exact readField_eq_iff hv hw fun subkey hx hy => ih hx hy
  | cons name init t fs ih ihfs fieldsOptional json a b v w hv hw =>
      obtain ⟨a, as⟩ := a
      obtain ⟨b, bs⟩ := b
      rw [readObject, pair_eq_ok_iff] at hv hw
      rw [RestAgreesFields, Prod.ext_iff]
      exact and_congr (readField_eq_iff hv.1 hw.1 fun subkey hx hy => ih hx hy)
        (ihfs fieldsOptional json as bs v.2 w.2 hv.2 hw.2)

/-- One field of `restAgrees_read_iff`. -/
theorem restAgreesField_read_iff {fieldsOptional : Bool} {t : JType α} {name : Text} {json : Json}
    {a v : α} {f : Json → Result α} {agrees nothing : Json → Prop}
    (hv : readField .throwException false fieldsOptional t name json a f = .ok v)
    (h : ∀ subkey, f subkey = .ok v → (agrees subkey ↔ nothing subkey)) :
    ((∀ subkey, json.find name = some subkey → agrees subkey) ∧ (json.find name = none → v = a)) ↔
      ∀ subkey, json.find name = some subkey → nothing subkey := by
  rw [readField_eq_ok_iff] at hv
  cases hfind : json.find name with
  | some subkey =>
      simp only [hfind, Option.some.injEq, exists_eq_left', reduceCtorEq, false_and,
        or_false] at hv
      simp [h subkey hv]
  | none =>
      simp only [hfind, reduceCtorEq, false_and, exists_false, true_and, false_or] at hv
      simp [hv.2]

/-- What a read left agrees with the target in what is left alone, unless a container
grew. -/
theorem restAgrees_read_iff {t : JType α} {json : Json} {a v : α}
    (hv : readTo .throwException t json a = .ok v) :
    RestAgrees t json v a ↔ AppendsNothing t json := by
  induction t using @JType.rec _
    (fun {α} fs => ∀ (fieldsOptional : Bool) (json : Json) (a v : α),
      readObject .throwException false fieldsOptional fs json a = .ok v →
        (RestAgreesFields fs json v a ↔ AppendsNothingFields fs json)) generalizing json with
  | scalar codec => exact Iff.rfl
  | string => exact Iff.rfl
  | json => exact Iff.rfl
  | sequence t ih =>
      rw [readTo_sequence, readSequence_eq_ok_iff] at hv
      obtain ⟨vs, hvs, rfl⟩ := hv
      rw [RestAgrees, AppendsNothing, List.append_right_eq_self, ← List.length_eq_zero_iff,
        ← hvs.length_eq, List.length_eq_zero_iff]
  | array t n ih =>
      rw [readTo_array, readArray_eq_ok_iff] at hv
      obtain ⟨vs, hvs, hv⟩ := hv
      refine iff_true_intro ?_
      rw [RestAgrees, hv, hvs.length_eq, List.drop_append]
      have hshort : (vs.take n).drop vs.length = [] :=
        List.drop_of_length_le (by simp)
      rw [hshort, List.nil_append, List.drop_drop]
      by_cases hfit : vs.length ≤ n
      · have hlen : (vs.take n).length = vs.length := by simp [hfit]
        rw [hlen, Nat.sub_self, Nat.add_zero]
      · have hgone : n ≤ vs.length := by omega
        rw [List.drop_of_length_le (by simp; omega), List.drop_of_length_le (by simpa using hgone)]
  | optional t ih => exact Iff.rfl
  | map t ih =>
      rw [readTo_map] at hv
      rw [RestAgrees, AppendsNothing]
      have hother : ∀ key : Text, (∀ pair ∈ json.items, pair.1 ≠ key) → v[key]? = a[key]? :=
        fun key hkey => getElem?_readMap_of_notMem hv hkey
      rw [and_iff_right hother]
      refine forall₂_congr fun pair hpair => ?_
      obtain ⟨value, hvalue, hget⟩ := getElem?_readMap_of_mem hv hpair
      rw [hget]
      exact ih hvalue
  | struct fieldsOptional fs ih =>
      rw [readTo] at hv
      exact ih fieldsOptional json a v hv
  | last name init t ih fieldsOptional json a v hv =>
      rw [readObject] at hv
      exact restAgreesField_read_iff hv fun subkey hx => ih hx
  | cons name init t fs ih ihfs fieldsOptional json a v hv =>
      obtain ⟨a, as⟩ := a
      obtain ⟨v, vs⟩ := v
      rw [readObject, pair_eq_ok_iff] at hv
      exact and_congr (restAgreesField_read_iff hv.1 fun subkey hx => ih hx)
        (ihfs fieldsOptional json as vs hv.2)

/-! ## When the target is overwritten -/

/-- What reading into two objects should be: both reads succeed or none does, they leave the
value that is read into a new object, and a second read of it changes nothing. -/
def ReadOverwrites (t : JType α) (json : Json) (a b : α) : Prop :=
  ((∃ v, readTo .throwException t json a = .ok v) ↔
    ∃ w, readTo .throwException t json b = .ok w) ∧
  ∀ v w, readTo .throwException t json a = .ok v → readTo .throwException t json b = .ok w →
    v = w ∧ read .throwException t json = .ok v ∧ readTo .throwException t json v = .ok v

/-- The target is overwritten, if and only if the value is rejected, or both targets are like
a new object in what is left alone and no container grows. -/
theorem readOverwrites_iff {t : JType α} {json : Json} {a b : α} :
    ReadOverwrites t json a b ↔
      (Accepted t json → RestAgrees t json a (fresh t) ∧ RestAgrees t json b (fresh t) ∧
        AppendsNothing t json) := by
  have hok := readTo_ok_iff t json
  constructor
  · rintro ⟨-, hsame⟩ haccepted
    obtain ⟨v, hv⟩ := (hok a).mpr haccepted
    obtain ⟨w, hw⟩ := (hok b).mpr haccepted
    obtain ⟨rfl, hfresh, htwice⟩ := hsame v w hv hw
    have hrest := (readTo_eq_iff htwice hv).mp rfl
    exact ⟨(readTo_eq_iff hv hfresh).mp rfl, (readTo_eq_iff hw hfresh).mp rfl,
      (restAgrees_read_iff hv).mp hrest⟩
  · intro h
    refine ⟨(hok a).trans (hok b).symm, ?_⟩
    intro v w hv hw
    obtain ⟨ha, hb, hnothing⟩ := h ((hok a).mp ⟨v, hv⟩)
    obtain ⟨u, hu⟩ := (hok (fresh t)).mpr ((hok a).mp ⟨v, hv⟩)
    obtain rfl := (readTo_eq_iff hv hu).mpr ha
    obtain rfl := (readTo_eq_iff hw hu).mpr hb
    obtain ⟨u, hu'⟩ := (hok w).mpr ((hok a).mp ⟨w, hv⟩)
    obtain rfl := (readTo_eq_iff hu' hv).mpr ((restAgrees_read_iff hv).mpr hnothing)
    exact ⟨rfl, hu, hu'⟩

/-- A list that is read into one that holds a flag grows, and grows again. -/
theorem vector_not_overwritten :
    readTo .throwException (.sequence (.scalar boolCodec)) (.array [.boolean false]) [true] =
        .ok [true, false] ∧
      readTo .throwException (.sequence (.scalar boolCodec)) (.array [.boolean false]) [] =
        .ok [false] ∧
      ¬ ReadOverwrites (.sequence (.scalar boolCodec)) (.array [.boolean false]) [true] [] := by
  have hkept : readTo .throwException (.sequence (.scalar boolCodec))
      (.array [.boolean false]) [true] = .ok [true, false] := rfl
  have hread : readTo .throwException (.sequence (.scalar boolCodec))
      (.array [.boolean false]) [] = .ok [false] := rfl
  refine ⟨hkept, hread, ?_⟩
  rintro ⟨-, hsame⟩
  have heq := (hsame _ _ hkept hread).1
  cases heq

end BacsEnv.Bpjson
