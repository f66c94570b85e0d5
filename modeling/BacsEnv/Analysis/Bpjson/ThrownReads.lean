import BacsEnv.Analysis.Bpacs.IterateObject
import BacsEnv.Analysis.Bpjson.Exceptions
import BacsEnv.Analysis.Bpjson.Registered
import BacsEnv.Model.Bpjson.InPlace

/-!
# What an exception of `json_serializer::read_to` leaves

A read in place ends like one that returns the object (`settle_readToInto`). When it throws,
`LeavesAt` says what has become of the object by then, for the same fields and causes as
`FailsAt`. Containers have the items in front of the one that failed. A map has the elements of
the keys in front, and that of the key that failed, even if it was not there before.
-/

set_option autoImplicit false

namespace BacsEnv.Bpjson

open Bpacs InPlace Collect ErrorPath

variable {α β : Type}

/-! ## In place or not -/

theorem settle_inFieldInto (name : Text) {x : IntoM α Unit} {target : α} {r : Result α}
    (h : settle x target = lift r) :
    settle (inFieldInto name x) target = lift (inField .read name r) := by
  funext s
  have hs := congrFun h s
  unfold settle at hs ⊢
  unfold inFieldInto
  cases hx : x (target, s) with
  | ok u s₁ =>
      simp only [hx] at hs ⊢
      cases r with
      | ok v => exact hs
      | error e => cases hs
  | error e s₁ =>
      simp only [hx] at hs ⊢
      cases r with
      | ok v => cases hs
      | error e' =>
          obtain ⟨rfl, hstate⟩ := EStateM.Result.error.inj hs
          exact congrArg (EStateM.Result.error _) hstate

theorem settle_readFieldInto {mode : MissingFields} {structForceOptional fieldsOptional : Bool}
    {t : JType α} {name : Text} {json : Json} {target : α} {readSubkey : Json → Result α}
    {readSubkeyInto : Json → IntoM α Unit}
    (h : ∀ subkey, settle (readSubkeyInto subkey) target = lift (readSubkey subkey)) :
    settle (readFieldInto mode structForceOptional fieldsOptional t name json readSubkeyInto)
        target =
      lift (readField mode structForceOptional fieldsOptional t name json target readSubkey) := by
  unfold readFieldInto readField
  apply settle_inFieldInto
  split
  · rw [settle_bind_beside, lift_bind]
    simp only [h]
  · split <;> rfl

/-- The value of an item, and where it goes. -/
theorem settle_element {γ : Type} (r : Result α) (store : γ → α → γ) (t : γ) :
    settle (beside (lift r) >>= fun value => update fun c => store c value : IntoM γ Unit) t =
      lift (r >>= fun value => pure (store t value)) := by
  rw [settle_bind_beside, lift_bind]
  rfl

/-- A read in place leaves the object that a read returns. -/
theorem settle_readToInto (t : JType α) (mode : MissingFields) (json : Json) (target : α) :
    settle (readToInto mode t json) target = lift (readTo mode t json target) := by
  induction t using @JType.rec _
    (fun {α} fs => ∀ (mode : MissingFields) (structForceOptional fieldsOptional : Bool)
      (json : Json) (target : α),
      settle (readObjectInto mode structForceOptional fieldsOptional fs json) target =
        lift (readObject mode structForceOptional fieldsOptional fs json target))
    generalizing mode json with
  | scalar codec =>
      rw [readToInto, readTo]
      cases codec.get json <;> rfl
  | string =>
      rw [readToInto, readTo, settle_bind_beside]
      exact bind_pure _
  | json =>
      rw [readToInto, readTo]
      rfl
  | sequence t ih =>
      rw [readToInto, readTo_sequence, readSequence]
      exact settle_forM_collect (fun item c => settle_element _ _ c) json.iterate target
  | array t n ih =>
      rw [readToInto, readTo_array, readArray, settle_through, lift_bind]
      rw [settle_forM_collect (fun item a => settle_element _ FixedAppender.append a)]
      rfl
  | optional t ih =>
      rw [readToInto, readTo]
      cases json.isNull with
      | true => rfl
      | false => exact settle_element _ (fun _ value => some value) target
  | map t ih =>
      rw [readToInto, readTo_map, readMap]
      refine settle_forM_collect (fun pair m => ?_) json.items target
      rw [settle_bind_beside]
      simp only [settle_through, ih, lift_bind, bind_assoc]
      rfl
  | struct fieldsOptional fs ih =>
      rw [readToInto, readTo]
      exact ih mode _ fieldsOptional json target
  | last name init t ih mode structForceOptional fieldsOptional json target =>
      rw [readObjectInto, readObject]
      exact settle_readFieldInto fun subkey => ih mode subkey target
  | cons name init t fs ih ihfs mode structForceOptional fieldsOptional json target =>
      rw [readObjectInto, readObject, settle_inTurn,
        settle_readFieldInto fun subkey => ih mode subkey target.1]
      simp only [ihfs, lift_bind, lift_pure]

/-! ## What is left -/

/-- A field leaves what the read of its value does; a missing key leaves it alone. -/
def FieldLeaves (mode : MissingFields) (fieldsOptional : Bool) (name : Text) (json : Json)
    (leaves : Json → List Text → JsonError → α → Prop) (target : α) (path : List Text)
    (cause : JsonError) (left : α) : Prop :=
  ∃ rest, path = name :: rest ∧
    ((∃ subkey, json.find name = some subkey ∧ leaves subkey rest cause left) ∨
      (json.find name = none ∧ mode = .throwException ∧ fieldsOptional = false ∧ rest = [] ∧
        json.atKey name = .error (.json cause) ∧ left = target))

/-- The items in front of the one that fails return values. -/
def FailsBehind (t : JType α) (items : List Json) (path : List Text) (cause : JsonError)
    (values : List α) : Prop :=
  ∃ (i : ℕ) (item : Json), items[i]? = some item ∧
    List.Forall₂ (fun earlier value => readTo .throwException t earlier (fresh t) = .ok value)
      (items.take i) values ∧
    FailsAt t .throwException item path cause

/-- The map with values for the keys of some items. -/
def stored (items : List (Text × Json)) (values : List α) (target : StringMap α) : StringMap α :=
  target.insertMany ((items.map Prod.fst).zip values)

mutual

/-- A read of `target` in place fails for a cause, inside the fields of a path, and leaves
`left`. -/
def LeavesAt {α : Type} :
    JType α → MissingFields → Json → α → List Text → JsonError → α → Prop
  | .scalar codec, mode, json, target, path, cause, left =>
      FailsAt (.scalar codec) mode json path cause ∧ left = target
  | .string, mode, json, target, path, cause, left =>
      FailsAt .string mode json path cause ∧ left = target
  | .json, _, _, _, _, _, _ => False
  | .sequence t, _, json, target, path, cause, left =>
      ∃ values, FailsBehind t json.iterate path cause values ∧ left = target ++ values
  | .array t n, _, json, target, path, cause, left =>
      ∃ values, FailsBehind t json.iterate path cause values ∧
        left.toList = values.take n ++ target.toList.drop values.length
  | .optional t, mode, json, target, path, cause, left =>
      FailsAt (.optional t) mode json path cause ∧ left = target
  | .map t, _, json, target, path, cause, left =>
      ∃ (i : ℕ) (pair : Text × Json) (values : List _), json.items[i]? = some pair ∧
        List.Forall₂ (fun (earlier : Text × Json) value => (json.find earlier.1).isSome ∧
          readTo .throwException t earlier.2 (target[earlier.1]?.getD (valueInit t)) = .ok value)
          (json.items.take i) values ∧
        ((path = [] ∧ json.atKey pair.1 = .error (.json cause) ∧
            left = stored (json.items.take i) values target) ∨
          ((json.find pair.1).isSome ∧ ∃ value,
            LeavesAt t .throwException pair.2 (target[pair.1]?.getD (valueInit t)) path cause
              value ∧
            left = (stored (json.items.take i) values target).insert pair.1 value))
  | .struct fieldsOptional fs, mode, json, target, path, cause, left =>
      FieldsLeaveAt fs mode fieldsOptional json target path cause left

/-- The fields in front of the one that fails hold what was read, and those behind it what
they held. -/
def FieldsLeaveAt {α : Type} :
    JFields α → MissingFields → Bool → Json → α → List Text → JsonError → α → Prop
  | .last name _ t, mode, fieldsOptional, json, target, path, cause, left =>
      FieldLeaves mode fieldsOptional name json (fun subkey => LeavesAt t mode subkey target)
        target path cause left
  | .cons name _ t fs, mode, fieldsOptional, json, target, path, cause, left =>
      (FieldLeaves mode fieldsOptional name json (fun subkey => LeavesAt t mode subkey target.1)
          target.1 path cause left.1 ∧ left.2 = target.2) ∨
        (readField mode false fieldsOptional t name json target.1
            (fun subkey => readTo mode t subkey target.1) = .ok left.1 ∧
          FieldsLeaveAt fs mode fieldsOptional json target.2 path cause left.2)

end

/-- A computation on an object throws, and leaves it, as `leaves` says. -/
def ThrowsLeaving (x : IntoM α Unit) (target : α)
    (leaves : List Text → JsonError → α → Prop) : Prop :=
  ∀ e left, x (target, ()) = .error e (left, ()) ↔
    ∃ path cause, leaves path cause left ∧ e = nest path cause

variable {x : IntoM α Unit} {target left : α} {fails : List Text → JsonError → Prop}
  {leaves : List Text → JsonError → α → Prop}

/-- What throws without having assigned anything. -/
theorem throwsLeaving_of_untouched {r : Result α} (hsettle : settle x target = lift r)
    (hthrows : Throws r fails)
    (huntouched : ∀ e left, x (target, ()) = .error e (left, ()) → left = target) :
    ThrowsLeaving x target fun path cause left => fails path cause ∧ left = target := by
  have hexists : ∀ e, (∃ left, x (target, ()) = .error e (left, ())) ↔ r = .error e := by
    intro e
    rw [← settle_error_iff, hsettle, lift_error_iff]
    exact and_iff_left rfl
  intro e left
  constructor
  · intro h
    obtain ⟨path, cause, hfails, rfl⟩ := (hthrows e).mp ((hexists e).mp ⟨left, h⟩)
    exact ⟨path, cause, ⟨hfails, huntouched _ left h⟩, rfl⟩
  · rintro ⟨path, cause, ⟨hfails, rfl⟩, rfl⟩
    obtain ⟨left', h⟩ := (hexists _).mpr ((hthrows _).mpr ⟨path, cause, hfails, rfl⟩)
    obtain rfl := huntouched _ left' h
    exact h

/-- What is computed first and assigned then does not touch the object before. -/
theorem untouched_of_beside {r : Result β} {f : β → α → α} {e : Exception}
    (h : (beside (lift r) >>= fun v => update (f v) : IntoM α Unit) (target, ()) =
      .error e (left, ())) : left = target := by
  rw [bind_error_iff, beside_error_iff] at h
  rcases h with ⟨-, hleft⟩ | ⟨v, s, -, hupdate⟩
  · exact hleft
  · cases hupdate

/-- The `catch` clauses leave the object to the read. -/
theorem ThrowsLeaving.inFieldInto (h : ThrowsLeaving x target leaves) (name : Text) :
    ThrowsLeaving (inFieldInto name x) target fun path cause left =>
      ∃ rest, path = name :: rest ∧ leaves rest cause left := by
  intro e left
  have hcatch : Bpjson.inFieldInto name x (target, ()) = .error e (left, ()) ↔
      ∃ inner, x (target, ()) = .error inner (left, ()) ∧ e = .field .read name inner := by
    unfold Bpjson.inFieldInto
    cases x (target, ()) with
    | ok u s => simp
    | error e' s => simp [eq_comm, and_comm]
  rw [hcatch]
  constructor
  · rintro ⟨inner, hx, rfl⟩
    obtain ⟨rest, cause, hleaves, rfl⟩ := (h inner left).mp hx
    exact ⟨name :: rest, cause, ⟨rest, rfl, hleaves⟩, rfl⟩
  · rintro ⟨path, cause, ⟨rest, rfl, hleaves⟩, rfl⟩
    exact ⟨nest rest cause, (h _ left).mpr ⟨rest, cause, hleaves, rfl⟩, rfl⟩

/-- What throws at once. -/
theorem throwsLeaving_of_error {cause : JsonError}
    (h : x (target, ()) = .error (.json cause) (target, ())) :
    ThrowsLeaving x target fun path cause' left => path = [] ∧ cause' = cause ∧ left = target := by
  intro e left
  rw [h]
  constructor
  · intro heq
    obtain ⟨rfl, hstate⟩ := EStateM.Result.error.inj heq
    exact ⟨[], cause, ⟨rfl, rfl, (Prod.mk.inj hstate).1.symm⟩, rfl⟩
  · rintro ⟨path, cause', ⟨rfl, rfl, rfl⟩, rfl⟩
    rfl

/-- What does not throw. -/
theorem throwsLeaving_of_ok {u : Unit} {s : α × Unit} (h : x (target, ()) = .ok u s)
    (hnever : ∀ path cause left, ¬ leaves path cause left) : ThrowsLeaving x target leaves := by
  intro e left
  rw [h]
  constructor
  · intro heq
    cases heq
  · rintro ⟨path, cause, hleaves, -⟩
    exact (hnever path cause left hleaves).elim

theorem exists_atKey_error {json : Json} {name : Text} (h : json.find name = none) :
    ∃ cause, json.atKey name = .error (.json cause) := by
  cases json with
  | object fields =>
      have hmember : (Json.members fields)[name]? = none := h
      refine ⟨.keyNotFound name, ?_⟩
      simp only [Json.atKey, hmember]
  | _ => exact ⟨_, rfl⟩

/-- The reads of a field in place. -/
theorem throwsLeaving_readFieldInto {mode : MissingFields} {fieldsOptional : Bool} {t : JType α}
    {name : Text} {json : Json} {readSubkey : Json → IntoM α Unit}
    {leaves : Json → List Text → JsonError → α → Prop}
    (h : ∀ subkey, ThrowsLeaving (readSubkey subkey) target (leaves subkey)) :
    ThrowsLeaving (readFieldInto mode false fieldsOptional t name json readSubkey) target
      (FieldLeaves mode fieldsOptional name json leaves target) := by
  unfold readFieldInto
  cases hfind : json.find name with
  | some subkey =>
      have hthere : (some subkey).isSome = true := rfl
      rw [if_pos (Or.inr hthere), atKey_eq_ok_iff.mpr hfind, beside_lift_ok_bind]
      intro e left
      rw [((h subkey).inFieldInto name) e left]
      simp only [FieldLeaves, hfind, Option.some.injEq, exists_eq_left', reduceCtorEq, false_and,
        or_false]
  | none =>
      by_cases hinsists : mode = .throwException ∧ fieldsOptional = false
      · obtain ⟨rfl, rfl⟩ := hinsists
        obtain ⟨cause, hcause⟩ := exists_atKey_error hfind
        have hthrows : (beside (lift (json.atKey name)) >>= readSubkey) (target, ()) =
            .error (.json cause) (target, ()) := by
          rw [hcause]
          rfl
        rw [if_pos (Or.inl ⟨rfl, by decide, by decide⟩)]
        intro e left
        rw [((throwsLeaving_of_error hthrows).inFieldInto name) e left]
        simp only [FieldLeaves, hfind, hcause, reduceCtorEq, false_and, exists_false, false_or,
          true_and, Except.error.injEq, Exception.json.injEq, eq_comm]
      · have hputUp : ¬ ((mode = .throwException ∧ ¬ false = true ∧ ¬ fieldsOptional = true) ∨
            (none : Option Json).isSome = true) := by
          rintro (⟨hmode, -, hoptional⟩ | hsome)
          · exact hinsists ⟨hmode, Bool.eq_false_iff.mpr hoptional⟩
          · cases hsome
        have hnever : ∀ path cause left,
            ¬ FieldLeaves mode fieldsOptional name json leaves target path cause left := by
          rintro path cause left ⟨rest, -, ⟨subkey, hsubkey, -⟩ | ⟨-, hmode, hoptional, -⟩⟩
          · rw [hfind] at hsubkey
            cases hsubkey
          · exact hinsists ⟨hmode, hoptional⟩
        rw [if_neg hputUp]
        split
        · exact throwsLeaving_of_ok rfl hnever
        · exact throwsLeaving_of_ok rfl hnever

/-! ## Loops -/

theorem element_error_iff {γ : Type} {r : Result α} {store : γ → α → γ} {c left : γ}
    {e : Exception} :
    (beside (lift r) >>= fun value => update fun c => store c value : IntoM γ Unit) (c, ()) =
        .error e (left, ()) ↔ r = .error e ∧ left = c := by
  rw [bind_error_iff, beside_error_iff, lift_error_iff]
  constructor
  · rintro (⟨⟨hr, -⟩, hleft⟩ | ⟨value, s, -, hupdate⟩)
    · exact ⟨hr, hleft⟩
    · cases hupdate
  · rintro ⟨hr, hleft⟩
    exact Or.inl ⟨⟨hr, rfl⟩, hleft⟩

/-- An item of a loop throws behind those whose values were appended. -/
theorem throwsLeaving_items {γ : Type} {t : JType α} {append : γ → α → γ} {items : List Json}
    {c : γ} :
    ThrowsLeaving (forM items fun item => beside (lift (readTo .throwException t item (fresh t)))
        >>= fun value => update fun c => append c value) c
      fun path cause left => ∃ values, FailsBehind t items path cause values ∧
        left = values.foldl append c := by
  intro e left
  rw [forM_collect_error_iff (fun item c => settle_element _ append c)
    (independent_of_const _ _ items)]
  simp only [element_error_iff]
  constructor
  · rintro ⟨i, item, values, hget, hvalues, herror, hleft⟩
    rw [storeAll_eq_foldl append hvalues.length_eq] at hleft
    obtain ⟨path, cause, hfails, rfl⟩ := (throws_readTo t _ item (fresh t) e).mp herror
    exact ⟨path, cause, ⟨values, ⟨i, item, hget, hvalues, hfails⟩, hleft⟩, rfl⟩
  · rintro ⟨path, cause, ⟨values, ⟨i, item, hget, hvalues, hfails⟩, hleft⟩, rfl⟩
    refine ⟨i, item, values, hget, hvalues, ?_, ?_⟩
    · exact (throws_readTo t _ item (fresh t) _).mpr ⟨path, cause, hfails, rfl⟩
    · rw [storeAll_eq_foldl append hvalues.length_eq]
      exact hleft

theorem throwsLeaving_sequence {mode : MissingFields} {t : JType α} {json : Json}
    {target : List α} :
    ThrowsLeaving (readToInto mode (.sequence t) json) target
      (LeavesAt (.sequence t) mode json target) := by
  rw [readToInto]
  intro e left
  rw [throwsLeaving_items e left]
  simp only [LeavesAt, foldl_pushBack]

/-- The values that fit stand in front of the elements that were not reached. -/
theorem toList_appended {n : ℕ} (values : List α) (target : List.Vector α n) :
    (values.foldl FixedAppender.append { container := target }).container.toList =
      values.take n ++ target.toList.drop values.length := by
  rw [FixedAppender.toList_foldl_append _ _ (Nat.zero_le n)]
  simp

theorem throwsLeaving_array {mode : MissingFields} {t : JType α} {n : ℕ} {json : Json}
    {target : List.Vector α n} :
    ThrowsLeaving (readToInto mode (.array t n) json) target
      (LeavesAt (.array t n) mode json target) := by
  rw [readToInto]
  intro e left
  simp only [through_error_iff, throwsLeaving_items _ _, LeavesAt]
  constructor
  · rintro ⟨a, ⟨path, cause, ⟨values, hfails, rfl⟩, rfl⟩, rfl⟩
    exact ⟨path, cause, ⟨values, hfails, toList_appended values target⟩, rfl⟩
  · rintro ⟨path, cause, ⟨values, hfails, hleft⟩, rfl⟩
    refine ⟨_, ⟨path, cause, ⟨values, hfails, rfl⟩, rfl⟩, ?_⟩
    exact List.Vector.toList_injective (hleft.trans (toList_appended values target).symm)

/-- The element of a key throws, or its key is not found. -/
theorem mapElement_error_iff {json : Json} {key : Text} {made : α} {y : IntoM α Unit}
    {m left : StringMap α} {e : Exception} :
    (beside (lift (json.atKey key)) >>= fun _ =>
        through (fun m => m[key]?.getD made) (fun value m => m.insert key value) y :
          IntoM (StringMap α) Unit) (m, ()) = .error e (left, ()) ↔
      (json.atKey key = .error e ∧ left = m) ∨
        ((json.find key).isSome ∧ ∃ value, y (m[key]?.getD made, ()) = .error e (value, ()) ∧
          left = m.insert key value) := by
  rw [bind_error_iff, beside_error_iff, lift_error_iff]
  constructor
  · rintro (⟨⟨hat, -⟩, hleft⟩ | ⟨subkey, ⟨m', u⟩, hat, helement⟩)
    · exact Or.inl ⟨hat, hleft⟩
    · obtain ⟨hat, hm⟩ := beside_ok_iff.mp hat
      obtain rfl : m' = m := hm
      have hfind := atKey_eq_ok_iff.mp (lift_ok_iff.mp hat).1
      obtain ⟨value, hvalue, hleft⟩ := through_error_iff.mp helement
      exact Or.inr ⟨Option.isSome_iff_exists.mpr ⟨subkey, hfind⟩, value, hvalue, hleft⟩
  · rintro (⟨hat, hleft⟩ | ⟨hfound, value, hvalue, hleft⟩)
    · exact Or.inl ⟨⟨hat, rfl⟩, hleft⟩
    · obtain ⟨subkey, hfind⟩ := Option.isSome_iff_exists.mp hfound
      refine Or.inr ⟨subkey, (m, ()), beside_ok_iff.mpr ⟨?_, rfl⟩, ?_⟩
      · exact lift_ok_iff.mpr ⟨atKey_eq_ok_iff.mpr hfind, rfl⟩
      · exact through_error_iff.mpr ⟨value, hvalue, hleft⟩

/-- The values in front are not stored under the key of the element that fails. -/
theorem getElem?_stored {json : Json} {i : ℕ} {pair : Text × Json}
    (hget : json.items[i]? = some pair)
    (hfound : ∀ earlier ∈ json.items.take i, (json.find earlier.1).isSome) (values : List α)
    (target : StringMap α) :
    (stored (json.items.take i) values target)[pair.1]? = target[pair.1]? := by
  refine getElem?_insertMany_of_notMem (fun hmem => ?_) target
  obtain ⟨⟨key, value⟩, hzip, rfl⟩ := List.mem_map.mp hmem
  obtain ⟨earlier, hearlier, hkey⟩ := List.mem_map.mp (List.of_mem_zip hzip).1
  obtain ⟨hi, hpair⟩ := List.getElem?_eq_some_iff.mp hget
  rcases items_cases json with hdistinct | hthrows
  · obtain ⟨j, hj, hearlier⟩ := List.mem_take_iff_getElem.mp hearlier
    have hlt : j < i := lt_of_lt_of_le hj (Nat.min_le_left _ _)
    have hne := List.pairwise_iff_getElem.mp hdistinct j i (hlt.trans hi) hi hlt
    rw [hearlier, hpair] at hne
    exact hne hkey
  · obtain ⟨value, hvalue⟩ := Option.isSome_iff_exists.mp (hfound earlier hearlier)
    have hat := atKey_eq_ok_iff.mpr hvalue
    rw [hthrows] at hat
    cases hat

theorem forall₂_found_iff {json : Json} {f : Json → α → Result α} {made : α}
    {target : StringMap α} {items : List (Text × Json)} {values : List α} :
    List.Forall₂ (fun (earlier : Text × Json) value => (json.atKey earlier.1 >>= fun _ =>
        f earlier.2 (target[earlier.1]?.getD made)) = .ok value) items values ↔
      List.Forall₂ (fun (earlier : Text × Json) value => (json.find earlier.1).isSome ∧
        f earlier.2 (target[earlier.1]?.getD made) = .ok value) items values := by
  refine forall₂_congr_of_mem (fun earlier _ value => ?_) values
  rw [bind_eq_ok_iff]
  simp only [atKey_eq_ok_iff, Option.isSome_iff_exists, exists_and_right]

theorem throwsLeaving_map {mode : MissingFields} {t : JType α} {json : Json}
    {target : StringMap α}
    (ih : ∀ json target, ThrowsLeaving (readToInto .throwException t json) target
      (LeavesAt t .throwException json target)) :
    ThrowsLeaving (readToInto mode (.map t) json) target
      (LeavesAt (.map t) mode json target) := by
  have hstep : ∀ (pair : Text × Json) (m : StringMap α),
      settle (beside (lift (json.atKey pair.1)) >>= fun _ =>
        through (fun m => m[pair.1]?.getD (valueInit t)) (fun value m => m.insert pair.1 value)
          (readToInto .throwException t pair.2) : IntoM (StringMap α) Unit) m =
        lift ((json.atKey pair.1 >>= fun _ =>
          readTo .throwException t pair.2 (m[pair.1]?.getD (valueInit t))) >>=
            fun value => pure (m.insert pair.1 value)) := by
    intro pair m
    rw [settle_bind_beside]
    simp only [settle_through, settle_readToInto, lift_bind, bind_assoc]
    rfl
  rw [readToInto]
  intro e left
  rw [forM_collect_error_iff hstep
    (independent_items (readTo .throwException t) (valueInit t) json)]
  simp only [forall₂_found_iff, mapElement_error_iff, ih _ _ _ _]
  have hsame : ∀ {i : ℕ} {pair : Text × Json} {values : List α}, json.items[i]? = some pair →
      List.Forall₂ (fun (earlier : Text × Json) value => (json.find earlier.1).isSome ∧
        readTo .throwException t earlier.2 (target[earlier.1]?.getD (valueInit t)) = .ok value)
          (json.items.take i) values →
      (stored (json.items.take i) values target)[pair.1]? = target[pair.1]? :=
    fun hget hvalues =>
      getElem?_stored hget ((List.forall₂_and_left _ _).mp hvalues).1 _ target
  constructor
  · rintro ⟨i, pair, values, hget, hvalues, h⟩
    rw [storeAll_insert hvalues.length_eq] at h
    rcases h with ⟨hat, hleft⟩ | ⟨hfound, value, ⟨path, cause, hleaves, rfl⟩, hleft⟩
    · obtain ⟨path, cause, ⟨rfl, hcause⟩, rfl⟩ := (throws_atKey json pair.1 e).mp hat
      exact ⟨[], cause, ⟨i, pair, values, hget, hvalues, Or.inl ⟨rfl, hcause, hleft⟩⟩, rfl⟩
    · have hkept := hsame hget hvalues
      rw [stored] at hkept
      rw [hkept] at hleaves
      exact ⟨path, cause,
        ⟨i, pair, values, hget, hvalues, Or.inr ⟨hfound, value, hleaves, hleft⟩⟩, rfl⟩
  · rintro ⟨path, cause, ⟨i, pair, values, hget, hvalues, h⟩, rfl⟩
    refine ⟨i, pair, values, hget, hvalues, ?_⟩
    rw [storeAll_insert hvalues.length_eq]
    rcases h with ⟨rfl, hcause, hleft⟩ | ⟨hfound, value, hleaves, hleft⟩
    · exact Or.inl ⟨hcause, hleft⟩
    · refine Or.inr ⟨hfound, value, ⟨path, cause, ?_, rfl⟩, hleft⟩
      have hkept := hsame hget hvalues
      rw [stored] at hkept
      rw [hkept]
      exact hleaves

/-- The rest of an object throws behind a field that was read, or the field does. -/
theorem throwsLeaving_fields {x : IntoM α Unit} {y : IntoM β Unit} {r : Result α}
    {target : α × β} {leaves : List Text → JsonError → α → Prop}
    {leaves' : List Text → JsonError → β → Prop} (hsettle : settle x target.1 = lift r)
    (hx : ThrowsLeaving x target.1 leaves) (hy : ThrowsLeaving y target.2 leaves') :
    ThrowsLeaving (inTurn x y) target fun path cause left =>
      (leaves path cause left.1 ∧ left.2 = target.2) ∨
        (r = .ok left.1 ∧ leaves' path cause left.2) := by
  have hok : ∀ v s, x (target.1, ()) = .ok () (v, s) ↔ r = .ok v := by
    intro v s
    rw [← settle_ok_iff, hsettle, lift_ok_iff]
    exact and_iff_left rfl
  intro e left
  simp only [inTurn_error_iff, hok, hx _ _, hy _ _, exists_const]
  constructor
  · rintro (⟨⟨path, cause, hleaves, rfl⟩, hbehind⟩ | ⟨hr, path, cause, hleaves, rfl⟩)
    · exact ⟨path, cause, Or.inl ⟨hleaves, hbehind⟩, rfl⟩
    · exact ⟨path, cause, Or.inr ⟨hr, hleaves⟩, rfl⟩
  · rintro ⟨path, cause, ⟨hleaves, hbehind⟩ | ⟨hr, hleaves⟩, rfl⟩
    · exact Or.inl ⟨⟨path, cause, hleaves, rfl⟩, hbehind⟩
    · exact Or.inr ⟨hr, path, cause, hleaves, rfl⟩

/-- A read in place throws just where it fails, and leaves what `LeavesAt` says of it. -/
theorem throwsLeaving_readToInto (t : JType α) (mode : MissingFields) (json : Json)
    (target : α) :
    ThrowsLeaving (readToInto mode t json) target (LeavesAt t mode json target) := by
  induction t using @JType.rec _
    (fun {α} fs => ∀ (mode : MissingFields) (fieldsOptional : Bool) (json : Json) (target : α),
      ThrowsLeaving (readObjectInto mode false fieldsOptional fs json) target
        (FieldsLeaveAt fs mode fieldsOptional json target)) generalizing mode json with
  | scalar codec =>
      refine throwsLeaving_of_untouched (settle_readToInto _ mode json target)
        (throws_readTo _ mode json target) fun e left h => ?_
      rw [readToInto] at h
      cases hget : codec.get json with
      | none =>
          rw [hget] at h
          exact (Prod.mk.inj (EStateM.Result.error.inj h).2).1.symm
      | some v =>
          rw [hget] at h
          cases h
  | string =>
      refine throwsLeaving_of_untouched (settle_readToInto _ mode json target)
        (throws_readTo _ mode json target) fun e left h => ?_
      rw [readToInto] at h
      exact untouched_of_beside h
  | json =>
      rw [readToInto]
      exact throwsLeaving_of_ok rfl fun _ _ _ h => h
  | sequence t ih => exact throwsLeaving_sequence
  | array t n ih => exact throwsLeaving_array
  | optional t ih =>
      refine throwsLeaving_of_untouched (settle_readToInto _ mode json target)
        (throws_readTo _ mode json target) fun e left h => ?_
      rw [readToInto] at h
      split at h
      · cases h
      · exact untouched_of_beside h
  | map t ih => exact throwsLeaving_map fun json target => ih .throwException json target
  | struct fieldsOptional fs ih =>
      rw [readToInto]
      exact ih mode fieldsOptional json target
  | last name init t ih mode fieldsOptional json target =>
      rw [readObjectInto]
      exact throwsLeaving_readFieldInto fun subkey => ih mode subkey target
  | cons name init t fs ih ihfs mode fieldsOptional json target =>
      rw [readObjectInto]
      exact throwsLeaving_fields
        (settle_readFieldInto fun subkey => settle_readToInto t mode subkey target.1)
        (throwsLeaving_readFieldInto fun subkey => ih mode subkey target.1)
        (ihfs mode fieldsOptional json target.2)

/-! ## Where it fails -/

/-- What throws in place, and leaves something, fails there. -/
theorem fails_of_leaves {r : Result α} {path : List Text} {cause : JsonError}
    (hsettle : settle x target = lift r) (hx : ThrowsLeaving x target leaves)
    (hr : Throws r fails) (h : leaves path cause left) : fails path cause := by
  have hthrows : settle x target () = .error (nest path cause) () :=
    settle_error_iff.mpr ⟨left, (hx _ left).mpr ⟨path, cause, h, rfl⟩⟩
  rw [hsettle] at hthrows
  obtain ⟨path', cause', hfails, hnest⟩ := (hr _).mp (lift_error_iff.mp hthrows).1
  obtain ⟨rfl, rfl⟩ := nest_injective hnest
  exact hfails

/-- The path of what a field leaves is made of the names of fields. -/
theorem plain_of_fieldLeaves {t : JType α} {mode : MissingFields} {fieldsOptional : Bool}
    {name : Text} {json : Json} {path : List Text} {cause : JsonError}
    (hname : (39 : UInt8) ∉ name) (htype : PlainNames t)
    (h : FieldLeaves mode fieldsOptional name json (fun subkey => LeavesAt t mode subkey target)
      target path cause left) : ∀ place ∈ path, (39 : UInt8) ∉ place := by
  have hfails : FieldFails mode fieldsOptional name json (FailsAt t mode) path cause :=
    fails_of_leaves
      (settle_readFieldInto (t := t) fun subkey => settle_readToInto t mode subkey target)
      (throwsLeaving_readFieldInto fun subkey => throwsLeaving_readToInto t mode subkey target)
      (throws_readField fun subkey => throws_readTo t mode subkey target) h
  exact plain_of_fieldFails hname
    (fun subkey rest => plain_of_failsAt t htype mode subkey rest cause) hfails

/-! ## Objects of a registered class -/

section Registered

variable {Holder : Type} {registry : Registry JType Holder} {b left : Holder}
  {mode : MissingFields} {fieldsOptional : Bool} {json : Json}

/-- A read into an object in place leaves the object that a read returns. -/
theorem settle_readRegisteredInto (registry : Registry JType Holder) (object : Holder) :
    settle (readRegisteredInto mode fieldsOptional registry json) object =
      lift (readRegistered mode fieldsOptional registry json object) := by
  unfold readRegisteredInto iterateObject readRegistered
  rw [settle_forM, lift_foldlM]
  congr 1
  funext object field
  rw [settle_through, readMemberInto,
    settle_readFieldInto fun subkey => settle_readToInto field.type mode subkey _, readMember,
    lift_bind]
  rfl

/-- When a read into an object throws, the text of the exception determines the fields on the
way to the failure and the library's own text. The members in front of the first of these
fields hold what a read of the class with only them returns, its own member is what `LeavesAt`
says, and the rest of the object is as it was. -/
theorem thrown_read_leaves_object (hapart : registry.MembersApart)
    (hplain : ∀ I field, registry.fieldMeta I = some field → registry.Visited I →
      (39 : UInt8) ∉ field.name ∧ PlainNames field.type)
    {whatJson : JsonError → Text} (hopening : ∀ cause, ¬ opening <+: whatJson cause)
    {e : Exception}
    (h : readRegisteredInto mode fieldsOptional registry json (b, ()) = .error e (left, ())) :
    ∃ I field path cause middle, registry.fieldMeta I = some field ∧ registry.Visited I ∧
      readRegistered mode fieldsOptional (registry.upTo I) json b = .ok middle ∧
      FieldLeaves mode fieldsOptional field.name json
        (fun subkey => LeavesAt field.type mode subkey (field.member.get b)) (field.member.get b)
          path cause (field.member.get left) ∧
      registry.LeftAt I b middle left ∧
      ∀ path' cause', (∀ place ∈ path', (39 : UInt8) ∉ place) →
        (e.what whatJson = (nest path' cause').what whatJson ↔
          path' = path ∧ whatJson cause' = whatJson cause) := by
  obtain ⟨I, field, middle, u, hfield, hvisited, hfront, herror, hleft⟩ :=
    exists_leftAt_of_error hapart h
  have hmiddle : readRegistered mode fieldsOptional (registry.upTo I) json b = .ok middle := by
    have hsettle : settle (readRegisteredInto mode fieldsOptional (registry.upTo I) json) b () =
        .ok middle u := settle_ok_iff.mpr hfront
    rw [settle_readRegisteredInto] at hsettle
    exact (lift_ok_iff.mp hsettle).1
  obtain ⟨path, cause, hleaves, rfl⟩ := (throwsLeaving_readFieldInto
    (fun subkey => throwsLeaving_readToInto field.type mode subkey _) _ _).mp herror
  refine ⟨I, field, path, cause, middle, hfield, hvisited, hmiddle, hleaves, hleft, ?_⟩
  intro path' cause' hpath'
  obtain ⟨hname, htype⟩ := hplain I field hfield hvisited
  constructor
  · intro htext
    exact what_nest_injective hopening hpath' (plain_of_fieldLeaves hname htype hleaves)
      htext.symm
  · rintro ⟨rfl, hwhat⟩
    rw [what_nest_congr hwhat]

end Registered

/-- Options with a list whose second item is not a flag. -/
def brokenOptions : Json :=
  .object [(text "verbose", .boolean true), (text "levels", .array [.boolean true, .null])]

/-- The flag in front was read, the first item stands behind those that the object had, and the
secret stays. -/
theorem thrown_read_leaves_object_options :
    ∃ I field path cause middle, optionsRegistry.fieldMeta I = some field ∧
      optionsRegistry.Visited I ∧
      readRegistered .throwException false (optionsRegistry.upTo I) brokenOptions
        ⟨none, [false], true⟩ = .ok middle ∧
      FieldLeaves .throwException false field.name brokenOptions
        (fun subkey => LeavesAt field.type .throwException subkey
          (field.member.get ⟨none, [false], true⟩)) (field.member.get ⟨none, [false], true⟩)
          path cause (field.member.get ⟨some true, [false, true], true⟩) ∧
      optionsRegistry.LeftAt I ⟨none, [false], true⟩ middle ⟨some true, [false, true], true⟩ ∧
      ∀ path' cause', (∀ place ∈ path', (39 : UInt8) ∉ place) →
        ((nest [text "levels"] (.typeMustBe .boolean .null)).what JsonError.what =
            (nest path' cause').what JsonError.what ↔
          path' = path ∧ cause'.what = cause.what) := by
  have hread : readRegisteredInto .throwException false optionsRegistry brokenOptions
      (⟨none, [false], true⟩, ()) =
        .error (nest [text "levels"] (.typeMustBe .boolean .null))
          (⟨some true, [false, true], true⟩, ()) := rfl
  have hplain : ∀ I field, optionsRegistry.fieldMeta I = some field →
      optionsRegistry.Visited I → (39 : UInt8) ∉ field.name ∧ PlainNames field.type := by
    rw [← Registry.forall_iterateFields_iff]
    have hverbose : (39 : UInt8) ∉ text "verbose" := by decide
    have hlevels : (39 : UInt8) ∉ text "levels" := by decide
    simp [optionsRegistry, Registry.iterateFields, fieldIterator, PlainNames, hverbose, hlevels]
  exact thrown_read_leaves_object optionsRegistry_membersApart hplain what_opening hread

end BacsEnv.Bpjson
