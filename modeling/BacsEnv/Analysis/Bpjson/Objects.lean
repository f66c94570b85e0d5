import BacsEnv.Model.Bpjson.Serializer
import BacsEnv.Library.Collect

/-!
# JSON objects as maps

What `find`, `at`, `items` and `operator[]` do to an object that was made from a map, what
the walkers' loops come to, and when a field is read.
-/

set_option autoImplicit false

namespace BacsEnv.Bpjson

open Collect

variable {α β : Type}

/-! ## Kinds -/

/-- `is_array()` -/
def Json.isArray : Json → Bool
  | .array _ => true
  | _ => false

/-- `is_object()` -/
def Json.isObject : Json → Bool
  | .object _ => true
  | _ => false

/-! ## Maps -/

theorem not_compare_eq_iff {key key' : Text} : ¬ compare key key' = .eq ↔ key ≠ key' := by
  rw [Std.LawfulEqCmp.compare_eq_iff_eq]

/-- The keys of a map are distinct. -/
theorem pairwise_toList (m : StringMap α) :
    m.toList.Pairwise fun earlier later => earlier.1 ≠ later.1 :=
  m.distinct_keys_toList.imp fun h => not_compare_eq_iff.mp h

/-- Another key keeps what it had. -/
theorem getElem?_insert_of_ne {key key' : Text} (hne : key ≠ key') (m : StringMap α) (x : α) :
    (m.insert key x)[key']? = m[key']? := by
  rw [Std.ExtTreeMap.getElem?_insert, if_neg (not_compare_eq_iff.mpr hne)]

theorem isEmpty_map (v : StringMap α) (g : α → β) : (v.map fun _ => g).isEmpty = v.isEmpty := by
  rw [← Std.ExtTreeMap.isEmpty_toList, Std.ExtTreeMap.toList_map, List.isEmpty_map,
    Std.ExtTreeMap.isEmpty_toList]

/-- What is stored under distinct keys is found. -/
theorem getElem?_insertMany_of_mem {pairs : List (Text × α)} (hkeys : (pairs.map Prod.fst).Nodup)
    {key : Text} {value : α} (h : (key, value) ∈ pairs) (m : StringMap α) :
    (m.insertMany pairs)[key]? = some value := by
  refine Std.ExtTreeMap.getElem?_insertMany_list_of_mem (k := key) (v := value)
    Std.ReflCmp.compare_self ?_ h
  exact (List.pairwise_map.mp hkeys).imp not_compare_eq_iff.mpr

/-- Other keys keep what they had. -/
theorem getElem?_insertMany_of_notMem {pairs : List (Text × α)} {key : Text}
    (h : key ∉ pairs.map Prod.fst) (m : StringMap α) : (m.insertMany pairs)[key]? = m[key]? := by
  refine Std.ExtTreeMap.getElem?_insertMany_list_of_contains_eq_false ?_
  rw [Bool.eq_false_iff, Ne, List.contains_iff_mem]
  exact h

/-- Storing under the same keys again leaves the later values only. -/
theorem insertMany_insertMany_of_keys {before pairs : List (Text × α)}
    (hkeys : (pairs.map Prod.fst).Nodup) (hsame : before.map Prod.fst = pairs.map Prod.fst)
    (m : StringMap α) : (m.insertMany before).insertMany pairs = m.insertMany pairs := by
  apply Std.ExtTreeMap.ext_getElem?
  intro key
  by_cases hkey : key ∈ pairs.map Prod.fst
  · obtain ⟨pair, hpair, rfl⟩ := List.mem_map.mp hkey
    rw [getElem?_insertMany_of_mem hkeys hpair, getElem?_insertMany_of_mem hkeys hpair]
  · rw [getElem?_insertMany_of_notMem hkey, getElem?_insertMany_of_notMem hkey,
      getElem?_insertMany_of_notMem (by rw [hsame]; exact hkey)]

/-- Values stored under distinct keys are told apart. -/
theorem insertMany_inj {pairs pairs' : List (Text × α)} (hkeys : (pairs.map Prod.fst).Nodup)
    (hsame : pairs'.map Prod.fst = pairs.map Prod.fst) {m : StringMap α}
    (h : m.insertMany pairs' = m.insertMany pairs) : pairs' = pairs := by
  have hkeys' : (pairs'.map Prod.fst).Nodup := by rwa [hsame]
  have hlen : pairs'.length = pairs.length := by simpa using congrArg List.length hsame
  apply List.ext_getElem hlen
  intro i hi' hi
  have hkey : pairs'[i].1 = pairs[i].1 := by
    have hget := congrArg (fun keys => keys[i]?) hsame
    simpa [hi, hi'] using hget
  have hthere : (m.insertMany pairs)[pairs[i].1]? = some pairs[i].2 :=
    getElem?_insertMany_of_mem hkeys (List.getElem_mem hi) m
  have hthere' : (m.insertMany pairs')[pairs'[i].1]? = some pairs'[i].2 :=
    getElem?_insertMany_of_mem hkeys' (List.getElem_mem hi') m
  rw [h, hkey, hthere] at hthere'
  exact Prod.ext hkey (Option.some.inj hthere').symm

/-- Storing a value for each key of a map. -/
theorem getElem?_insertMany_toList (m : StringMap α) (f : Text → α → β) (target : StringMap β)
    (key : Text) :
    (target.insertMany (m.toList.map fun pair => (pair.1, f pair.1 pair.2)))[key]? =
      match m[key]? with
      | some x => some (f key x)
      | none => target[key]? := by
  have hkeys : (m.toList.map fun pair => (pair.1, f pair.1 pair.2)).map Prod.fst =
      m.toList.map Prod.fst := by
    rw [List.map_map]
    rfl
  cases hkey : m[key]? with
  | some x =>
      have hmem := Std.ExtTreeMap.mem_toList_iff_getElem?_eq_some.mpr hkey
      refine getElem?_insertMany_of_mem ?_ ?_ target
      · rw [hkeys]
        exact List.pairwise_map.mpr (pairwise_toList m)
      · exact List.mem_map.mpr ⟨(key, x), hmem, rfl⟩
  | none =>
      apply getElem?_insertMany_of_notMem
      rw [hkeys]
      intro hmem
      obtain ⟨pair, hpair, rfl⟩ := List.mem_map.mp hmem
      have hsome := Std.ExtTreeMap.mem_toList_iff_getElem?_eq_some.mp hpair
      rw [hkey] at hsome
      cases hsome

/-- A map into which the keys of another were stored is a copy of it, when no other keys were
there and each element is copied. -/
theorem insertMany_eq_map_iff {f : Text → α → β} {g : α → β} {v : StringMap α}
    {target : StringMap β} :
    target.insertMany (v.toList.map fun pair => (pair.1, f pair.1 pair.2)) =
        (v.map fun _ => g) ↔
      (∀ key : Text, v[key]? = none → target[key]? = none) ∧
        ∀ pair ∈ v.toList, f pair.1 pair.2 = g pair.2 := by
  constructor
  · intro heq
    have hget : ∀ key : Text,
        (target.insertMany (v.toList.map fun pair => (pair.1, f pair.1 pair.2)))[key]? =
          (v.map fun _ => g)[key]? := by
      intro key
      rw [heq]
    refine ⟨?_, ?_⟩
    · intro key hnone
      have hkey := hget key
      rw [getElem?_insertMany_toList, Std.ExtTreeMap.getElem?_map, hnone] at hkey
      exact hkey
    · intro pair hpair
      have hkey := hget pair.1
      rw [getElem?_insertMany_toList, Std.ExtTreeMap.getElem?_map,
        Std.ExtTreeMap.mem_toList_iff_getElem?_eq_some.mp hpair] at hkey
      exact Option.some.inj hkey
  · rintro ⟨hother, hsame⟩
    apply Std.ExtTreeMap.ext_getElem?
    intro key
    rw [getElem?_insertMany_toList, Std.ExtTreeMap.getElem?_map]
    cases hkey : v[key]? with
    | none => exact hother key hkey
    | some x =>
        exact congrArg some
          (hsame (key, x) (Std.ExtTreeMap.mem_toList_iff_getElem?_eq_some.mpr hkey))

/-- A map is made from its own members. -/
theorem members_toList (m : StringMap Json) : Json.members m.toList = m := by
  unfold Json.members
  rw [Std.ExtTreeMap.ofList_eq_insertMany_empty]
  apply Std.ExtTreeMap.ext_getElem?
  intro key
  have hget := getElem?_insertMany_toList m (fun _ x => x) ∅ key
  rw [List.map_id'' (fun _ => rfl)] at hget
  rw [hget]
  cases m[key]? <;> simp

theorem find_ofMembers (m : StringMap Json) (key : Text) :
    (Json.ofMembers m).find key = m[key]? := by
  show (Json.members m.toList)[key]? = m[key]?
  rw [members_toList]

theorem items_ofMembers (m : StringMap Json) : (Json.ofMembers m).items = m.toList := by
  show (Json.members m.toList).toList = m.toList
  rw [members_toList]

/-- `at` succeeds where `find` does. -/
theorem atKey_eq_ok_iff {json value : Json} {key : Text} :
    json.atKey key = .ok value ↔ json.find key = some value := by
  cases json with
  | object fields =>
      simp only [Json.atKey, Json.find]
      cases (Json.members fields)[key]? <;> simp
  | _ => simp [Json.atKey, Json.find]

/-- Without the key `at` throws. -/
theorem atKey_bind_ne_ok {json : Json} {key : Text} (h : json.find key = none)
    (f : Json → Result α) (v : α) : json.atKey key >>= f ≠ .ok v := by
  intro hv
  obtain ⟨value, hvalue, -⟩ := bind_eq_ok_iff.mp hv
  rw [atKey_eq_ok_iff, h] at hvalue
  cases hvalue

/-! ## Values that were written into `null` -/

/-- The JSON value after `push_back` of some elements to `null`. -/
def arrayOf (items : List Json) : Json := if items.isEmpty then .null else .array items

/-- The JSON value after `operator[]` of some keys of `null`. -/
def objectOf (m : StringMap Json) : Json := if m.isEmpty then .null else Json.ofMembers m

theorem iterate_arrayOf (items : List Json) : (arrayOf items).iterate = items := by
  cases items <;> rfl

theorem isNull_arrayOf (items : List Json) : (arrayOf items).isNull = items.isEmpty := by
  cases items <;> rfl

theorem isNull_objectOf (m : StringMap Json) : (objectOf m).isNull = m.isEmpty := by
  unfold objectOf
  cases m.isEmpty <;> rfl

theorem isObject_objectOf (m : StringMap Json) : (objectOf m).isObject = !m.isEmpty := by
  unfold objectOf
  cases m.isEmpty <;> rfl

theorem pushBack_arrayOf (items : List Json) (element : Json) :
    (arrayOf items).pushBack element = .ok (arrayOf (items ++ [element])) := by
  cases items <;> rfl

theorem find_objectOf (m : StringMap Json) (key : Text) : (objectOf m).find key = m[key]? := by
  unfold objectOf
  cases hempty : m.isEmpty with
  | true =>
      rw [Std.ExtTreeMap.isEmpty_iff.mp hempty]
      simp [Json.find]
  | false => exact find_ofMembers m key

theorem items_objectOf (m : StringMap Json) : (objectOf m).items = m.toList := by
  unfold objectOf
  cases hempty : m.isEmpty with
  | true =>
      rw [Std.ExtTreeMap.isEmpty_iff.mp hempty]
      rfl
  | false => exact items_ofMembers m

/-- Writing a member; one that is not there is made as `null`. -/
theorem updateSubkey_objectOf {m : StringMap Json} {value : Json} {key : Text}
    {f : Json → Result Json} (hf : f (m[key]?.getD .null) = .ok value) :
    (objectOf m).updateSubkey key f = .ok (objectOf (m.insert key value)) := by
  have hnonempty : (m.insert key value).isEmpty = false :=
    Std.ExtTreeMap.isEmpty_eq_false_iff.mpr Std.ExtTreeMap.insert_ne_empty
  have hgoal : objectOf (m.insert key value) = Json.ofMembers (m.insert key value) := by
    unfold objectOf
    rw [hnonempty]
    rfl
  rw [hgoal]
  unfold objectOf
  cases hempty : m.isEmpty with
  | true =>
      rw [Std.ExtTreeMap.isEmpty_iff.mp hempty] at hf ⊢
      rw [Std.ExtTreeMap.getElem?_empty, Option.getD_none] at hf
      simp only [if_true, Json.updateSubkey, hf]
      rfl
  | false =>
      simp only [Bool.false_eq_true, if_false, Json.ofMembers, Json.updateSubkey,
        members_toList, hf]
      rfl

/-! ## The walkers, with the read of an element left open -/

section Walkers

/-- The walker of a container. -/
def readSequence (f : Json → Result α) (json : Json) (target : List α) : Result (List α) :=
  collect (fun _ item => f item) (fun c _ value => pushBack c value) json.iterate target

/-- The walker of a container of a fixed size. -/
def readArray (f : Json → Result α) {n : ℕ} (json : Json) (target : List.Vector α n) :
    Result (List.Vector α n) :=
  collect (fun _ item => f item) (fun (a : FixedAppender α n) _ value => a.append value)
    json.iterate { container := target } >>= fun a => pure a.container

/-- The walker of an optional. -/
def readOptional (f : Json → Result α) (json : Json) : Result (Option α) :=
  if json.isNull then pure none else f json >>= fun value => pure (some value)

/-- The walker of a map, with the element that `to[key]` makes. -/
def readMap (f : Json → α → Result α) (made : α) (json : Json) (target : StringMap α) :
    Result (StringMap α) :=
  collect (fun (m : StringMap α) pair => json.atKey pair.1 >>= fun _ =>
      f pair.2 (m[pair.1]?.getD made))
    (fun m pair value => m.insert pair.1 value) json.items target

theorem readTo_sequence (mode : MissingFields) (t : JType α) (json : Json) (target : List α) :
    readTo mode (.sequence t) json target =
      readSequence (fun item => readTo .throwException t item (fresh t)) json target := by
  rw [readTo]
  rfl

theorem readTo_array (mode : MissingFields) (t : JType α) (n : ℕ) (json : Json)
    (target : List.Vector α n) :
    readTo mode (.array t n) json target =
      readArray (fun item => readTo .throwException t item (fresh t)) json target := by
  rw [readTo]
  rfl

theorem readTo_optional (mode : MissingFields) (t : JType α) (json : Json) (target : Option α) :
    readTo mode (.optional t) json target =
      readOptional (fun json => readTo .throwException t json (fresh t)) json := by
  rw [readTo]
  rfl

theorem readTo_map (mode : MissingFields) (t : JType α) (json : Json) (target : StringMap α) :
    readTo mode (.map t) json target =
      readMap (readTo .throwException t) (valueInit t) json target := by
  rw [readTo]
  simp only [readMap, collect, bind_assoc]

variable {f : Json → Result α} {json : Json}

/-- A container is read when each item is. -/
theorem readSequence_eq_ok_iff {target w : List α} :
    readSequence f json target = .ok w ↔
      ∃ values, List.Forall₂ (fun item value => f item = .ok value) json.iterate values ∧
        w = target ++ values := by
  unfold readSequence
  rw [collect_eq_ok_iff (independent_of_const _ _ _)]
  refine exists_congr fun values => and_congr_right fun hvalues => ?_
  rw [storeAll_eq_foldl pushBack hvalues.length_eq, foldl_pushBack]

/-- A container of a fixed size is read when each item is, and keeps those that fit. -/
theorem readArray_eq_ok_iff {n : ℕ} {target w : List.Vector α n} :
    readArray f json target = .ok w ↔
      ∃ values, List.Forall₂ (fun item value => f item = .ok value) json.iterate values ∧
        w.toList = values.take n ++ target.toList.drop values.length := by
  have hrun : ∀ values : List α,
      (values.foldl FixedAppender.append { container := target }).container.toList =
        values.take n ++ target.toList.drop values.length := by
    intro values
    rw [FixedAppender.toList_foldl_append _ _ (Nat.zero_le n)]
    simp
  unfold readArray
  simp only [bind_eq_ok_iff, collect_eq_ok_iff (independent_of_const _ _ _)]
  constructor
  · rintro ⟨a, ⟨values, hvalues, rfl⟩, hw⟩
    cases hw
    refine ⟨values, hvalues, ?_⟩
    rw [storeAll_eq_foldl FixedAppender.append hvalues.length_eq, hrun]
  · rintro ⟨values, hvalues, hw⟩
    refine ⟨_, ⟨values, hvalues, rfl⟩, ?_⟩
    rw [storeAll_eq_foldl FixedAppender.append hvalues.length_eq]
    refine congrArg Except.ok (List.Vector.toList_injective ?_)
    rw [hrun, hw]

theorem readOptional_eq_ok_iff {w : Option α} :
    readOptional f json = .ok w ↔
      (json.isNull = true ∧ w = none) ∨
        (json.isNull = false ∧ ∃ value, f json = .ok value ∧ w = some value) := by
  unfold readOptional
  cases json.isNull with
  | true =>
      constructor
      · intro h
        exact Or.inl ⟨rfl, (Except.ok.inj h).symm⟩
      · rintro (⟨-, rfl⟩ | ⟨hfalse, -⟩)
        · rfl
        · cases hfalse
  | false =>
      rw [if_neg Bool.false_ne_true, bind_eq_ok_iff]
      constructor
      · rintro ⟨value, hvalue, h⟩
        exact Or.inr ⟨rfl, value, hvalue, (Except.ok.inj h).symm⟩
      · rintro (⟨htrue, -⟩ | ⟨-, value, hvalue, rfl⟩)
        · cases htrue
        · exact ⟨value, hvalue, rfl⟩

/-- Either `items` visits distinct keys, or `at` throws whatever the key. -/
theorem items_cases (json : Json) :
    json.items.Pairwise (fun earlier later => earlier.1 ≠ later.1) ∨
      ∀ key, json.atKey key = .error (.json (.cannotUse (.atKey key) json.kind)) := by
  cases json with
  | object fields => exact Or.inl (pairwise_toList _)
  | null => exact Or.inl List.Pairwise.nil
  | _ => exact Or.inr fun key => rfl

/-- When `at` finds the keys of `items`, they are distinct. -/
theorem nodup_keys_of_found (hfound : ∀ pair ∈ json.items, (json.find pair.1).isSome) :
    (json.items.map Prod.fst).Nodup := by
  rcases items_cases json with hkeys | hthrows
  · exact List.pairwise_map.mpr hkeys
  · cases hitems : json.items with
    | nil => exact List.nodup_nil
    | cons pair pairs =>
        have hfirst := hfound pair (by rw [hitems]; exact List.mem_cons_self)
        obtain ⟨value, hvalue⟩ := Option.isSome_iff_exists.mp hfirst
        have hat := atKey_eq_ok_iff.mpr hvalue
        rw [hthrows] at hat
        cases hat

/-- Storing an element does not change what is read for the keys behind it. -/
theorem independent_items (f : Json → α → Result α) (made : α) (json : Json) :
    Independent (fun (m : StringMap α) pair => json.atKey pair.1 >>= fun _ =>
        f pair.2 (m[pair.1]?.getD made))
      (fun m pair value => m.insert pair.1 value) json.items := by
  rcases items_cases json with hkeys | hthrows
  · apply hkeys.imp
    intro earlier later hne m value
    simp only [getElem?_insert_of_ne hne]
  · apply List.pairwise_of_forall
    intro earlier later m value
    simp only [hthrows]
    rfl

theorem storeAll_insert {items : List (Text × β)} {values : List α}
    (h : items.length = values.length) (m : StringMap α) :
    storeAll (fun (m : StringMap α) pair value => m.insert pair.1 value) items values m =
      m.insertMany ((items.map Prod.fst).zip values) := by
  induction items generalizing values m with
  | nil =>
      cases values with
      | nil => simp [storeAll]
      | cons value values => cases h
  | cons item items ih =>
      cases values with
      | nil => cases h
      | cons value values =>
          simp only [storeAll, List.map_cons, List.zip_cons_cons,
            Std.ExtTreeMap.insertMany_cons]
          exact ih (Nat.succ.inj h) _

/-- A map is read when `at` finds each key and each element is read. -/
theorem readMap_eq_ok_iff {f : Json → α → Result α} {made : α} {target w : StringMap α} :
    readMap f made json target = .ok w ↔
      (∀ pair ∈ json.items, (json.find pair.1).isSome) ∧
      ∃ values, List.Forall₂ (fun pair value =>
          f pair.2 (target[pair.1]?.getD made) = .ok value) json.items values ∧
        w = target.insertMany ((json.items.map Prod.fst).zip values) := by
  unfold readMap
  rw [collect_eq_ok_iff (independent_items f made json)]
  have hat : ∀ (pair : Text × Json) (value : α),
      (json.atKey pair.1 >>= fun _ => f pair.2 (target[pair.1]?.getD made)) = .ok value ↔
        (json.find pair.1).isSome ∧ f pair.2 (target[pair.1]?.getD made) = .ok value := by
    intro pair value
    rw [bind_eq_ok_iff]
    simp only [atKey_eq_ok_iff, Option.isSome_iff_exists, exists_and_right]
  simp only [hat, List.forall₂_and_left]
  constructor
  · rintro ⟨values, ⟨hfound, hvalues⟩, rfl⟩
    exact ⟨hfound, values, hvalues, storeAll_insert hvalues.length_eq target⟩
  · rintro ⟨hfound, values, hvalues, rfl⟩
    exact ⟨values, ⟨hfound, hvalues⟩, (storeAll_insert hvalues.length_eq target).symm⟩

/-! ## When the walkers succeed -/

theorem exists_forall₂_iff_forall {f : β → Result α} {items : List β} :
    (∃ vs, List.Forall₂ (fun item v => f item = .ok v) items vs) ↔
      ∀ item ∈ items, ∃ v, f item = .ok v := by
  induction items with
  | nil => simp
  | cons item items ih =>
      rw [List.forall_mem_cons, ← ih]
      constructor
      · rintro ⟨vs, hvs⟩
        cases hvs with
        | cons hv hvs => exact ⟨⟨_, hv⟩, _, hvs⟩
      · rintro ⟨⟨v, hv⟩, vs, hvs⟩
        exact ⟨v :: vs, .cons hv hvs⟩

theorem exists_readSequence_iff (target : List α) :
    (∃ w, readSequence f json target = .ok w) ↔
      ∃ vs, List.Forall₂ (fun item v => f item = .ok v) json.iterate vs := by
  simp only [readSequence_eq_ok_iff]
  constructor
  · rintro ⟨w, vs, hvs, -⟩
    exact ⟨vs, hvs⟩
  · rintro ⟨vs, hvs⟩
    exact ⟨_, vs, hvs, rfl⟩

theorem exists_readArray_iff {n : ℕ} (target : List.Vector α n) :
    (∃ w, readArray f json target = .ok w) ↔
      ∃ vs, List.Forall₂ (fun item v => f item = .ok v) json.iterate vs := by
  simp only [readArray_eq_ok_iff]
  constructor
  · rintro ⟨w, vs, hvs, -⟩
    exact ⟨vs, hvs⟩
  · rintro ⟨vs, hvs⟩
    have hlen : (vs.take n ++ target.toList.drop vs.length).length = n := by
      simp only [List.length_append, List.length_take, List.length_drop,
        List.Vector.toList_length]
      omega
    exact ⟨⟨_, hlen⟩, vs, hvs, rfl⟩

theorem exists_readOptional_iff :
    (∃ w, readOptional f json = .ok w) ↔ (json.isNull = false → ∃ v, f json = .ok v) := by
  simp only [readOptional_eq_ok_iff]
  cases json.isNull <;> simp

theorem exists_readMap_iff {f : Json → α → Result α} {made : α} (target : StringMap α) :
    (∃ w, readMap f made json target = .ok w) ↔
      (∀ pair ∈ json.items, (json.find pair.1).isSome) ∧
        ∃ vs, List.Forall₂ (fun pair v =>
          f pair.2 (target[pair.1]?.getD made) = .ok v) json.items vs := by
  simp only [readMap_eq_ok_iff]
  constructor
  · rintro ⟨w, hfound, vs, hvs, -⟩
    exact ⟨hfound, vs, hvs⟩
  · rintro ⟨hfound, vs, hvs⟩
    exact ⟨_, hfound, vs, hvs, rfl⟩

end Walkers

/-! ## The fields of a struct -/

section Fields

variable {mode : MissingFields} {structForceOptional fieldsOptional : Bool} {t : JType α}
  {name : Text} {json : Json} {target v : α} {f : Json → Result α}

theorem inField_eq_ok_iff {direction : Direction} {name : Text} {a : Result α} {v : α} :
    inField direction name a = .ok v ↔ a = .ok v := by
  cases a <;> simp [inField]

/-- A field whose key is there is read from it. -/
theorem readField_of_find {subkey : Json} (hfind : json.find name = some subkey) :
    readField mode structForceOptional fieldsOptional t name json target f =
      inField .read name (f subkey) := by
  unfold readField
  rw [if_pos (Or.inr (by rw [hfind]; rfl)), atKey_eq_ok_iff.mpr hfind]
  rfl

/-- A field whose key is missing is left as the mode says, unless `read_object` insists on
the key. -/
theorem readField_of_missing (hfind : json.find name = none) :
    readField mode structForceOptional fieldsOptional t name json target f = .ok v ↔
      ¬ (mode = .throwException ∧ ¬ structForceOptional ∧ ¬ fieldsOptional) ∧
        v = if mode = .defaultInitialize then valueInit t else target := by
  unfold readField
  rw [inField_eq_ok_iff, hfind, Option.isSome_none]
  by_cases hinsists : mode = .throwException ∧ ¬ structForceOptional ∧ ¬ fieldsOptional
  · rw [if_pos (Or.inl hinsists)]
    exact iff_of_false (atKey_bind_ne_ok hfind f v) fun h => h.1 hinsists
  · rw [if_neg (not_or_intro hinsists Bool.false_ne_true), and_iff_right hinsists]
    split <;> simp [pure, Except.pure, eq_comm]

/-- The modes that put up with missing keys never insist. -/
theorem readField_of_missing_of_ne (hmode : mode ≠ .throwException)
    (hfind : json.find name = none) :
    readField mode structForceOptional fieldsOptional t name json target f = .ok v ↔
      v = if mode = .defaultInitialize then valueInit t else target := by
  rw [readField_of_missing hfind]
  exact and_iff_right fun hinsists => hmode hinsists.1

theorem pair_eq_ok_iff {a : Result α} {as : Result β} {w : α × β} :
    (a >>= fun v => as >>= fun vs => pure (v, vs)) = .ok w ↔ a = .ok w.1 ∧ as = .ok w.2 := by
  cases a with
  | error e => simp [bind, Except.bind]
  | ok v =>
      cases as with
      | error e => simp [bind, Except.bind]
      | ok vs => simp [bind, Except.bind, pure, Except.pure, Prod.ext_iff]

end Fields

end BacsEnv.Bpjson
