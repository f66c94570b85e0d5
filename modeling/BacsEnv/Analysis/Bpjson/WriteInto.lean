import BacsEnv.Analysis.Bpjson.Image

/-!
# Writing into any JSON value

`write_from` may be given a JSON value that holds anything, a settings file for example. It
goes through when every value that it has to put elements or members into is `null` or of the
kind for it (`Writable`); `patch` is what the JSON value is then. What is not reached by the
written type stays as it was, at every depth.
-/

set_option autoImplicit false

namespace BacsEnv.Bpjson

open Collect

variable {α β : Type}

/-! ## Members and elements of any value -/

namespace Json

/-- The members of an object, and of another value none. -/
def memberMap : Json → StringMap Json
  | .object fields => members fields
  | _ => ∅

/-- What `operator[](key)` refers to. -/
def member (json : Json) (key : Text) : Json := (json.find key).getD .null

/-- `operator[]` applies. -/
def TakesMembers (json : Json) : Prop := json.isNull = true ∨ json.isObject = true

/-- `push_back` applies. -/
def TakesElements (json : Json) : Prop := json.isNull = true ∨ json.isArray = true

/-- The value after some members have been set. -/
def withMembers (json : Json) : List (Text × Json) → Json
  | [] => json
  | pair :: pairs => ofMembers (json.memberMap.insertMany (pair :: pairs))

/-- The value after some elements have been added. -/
def withElements (json : Json) : List Json → Json
  | [] => json
  | item :: items => .array (json.iterate ++ item :: items)

/-- The value at a path of keys. -/
def lookup : List Text → Json → Option Json
  | [], json => some json
  | key :: path, json => json.find key >>= lookup path

end Json

theorem find_eq_memberMap (json : Json) (key : Text) : json.find key = json.memberMap[key]? := by
  cases json with
  | object fields => rfl
  | _ => exact (Std.ExtTreeMap.getElem?_empty).symm

theorem memberMap_ofMembers (m : StringMap Json) : (Json.ofMembers m).memberMap = m :=
  members_toList m

/-- Setting members one after the other. -/
theorem withMembers_cons (json : Json) (pair : Text × Json) (pairs : List (Text × Json)) :
    json.withMembers (pair :: pairs) = (json.withMembers [pair]).withMembers pairs := by
  obtain ⟨key, value⟩ := pair
  cases pairs with
  | nil => rfl
  | cons next pairs =>
      rw [Json.withMembers, Json.withMembers, Json.withMembers, memberMap_ofMembers,
        Std.ExtTreeMap.insertMany_cons, Std.ExtTreeMap.insertMany_list_singleton]

/-- Members under other keys stay. -/
theorem find_withMembers_of_notMem {json : Json} {pairs : List (Text × Json)} {key : Text}
    (h : key ∉ pairs.map Prod.fst) : (json.withMembers pairs).find key = json.find key := by
  cases pairs with
  | nil => rfl
  | cons pair pairs =>
      rw [Json.withMembers, find_ofMembers, getElem?_insertMany_of_notMem h, find_eq_memberMap]

/-- A member that was set is found. -/
theorem find_withMembers_of_mem {json : Json} {pairs : List (Text × Json)}
    (hkeys : (pairs.map Prod.fst).Nodup) {pair : Text × Json} (h : pair ∈ pairs) :
    (json.withMembers pairs).find pair.1 = some pair.2 := by
  cases pairs with
  | nil => cases h
  | cons first pairs =>
      rw [Json.withMembers, find_ofMembers]
      exact getElem?_insertMany_of_mem hkeys h _

theorem takesMembers_withMembers (json : Json) (pair : Text × Json) :
    (json.withMembers [pair]).TakesMembers := Or.inr rfl

theorem member_withMembers_of_ne {json : Json} {key other : Text} (hne : other ≠ key)
    (value : Json) : (json.withMembers [(other, value)]).member key = json.member key := by
  unfold Json.member
  rw [find_withMembers_of_notMem]
  intro hmem
  exact hne (List.mem_singleton.mp hmem).symm

/-- What `operator[]` on any value does. -/
theorem updateSubkey_eq_ok_iff {json w : Json} {key : Text} {f : Json → Result Json} :
    json.updateSubkey key f = .ok w ↔
      json.TakesMembers ∧ ∃ value, f (json.member key) = .ok value ∧
        w = json.withMembers [(key, value)] := by
  have hmade : ∀ (m : StringMap Json) (value : Json),
      (pure (Json.ofMembers (m.insert key value)) : Result Json) = .ok w ↔
        w = Json.ofMembers (m.insertMany [(key, value)]) := by
    intro m value
    rw [Std.ExtTreeMap.insertMany_list_singleton]
    exact ⟨fun h => (Except.ok.inj h).symm, fun h => congrArg Except.ok h.symm⟩
  cases json with
  | null =>
      have htakes : Json.TakesMembers .null := Or.inl rfl
      rw [Json.updateSubkey, bind_eq_ok_iff, and_iff_right htakes]
      simp only [hmade]
      rfl
  | object fields =>
      have htakes : Json.TakesMembers (.object fields) := Or.inr rfl
      rw [Json.updateSubkey, bind_eq_ok_iff, and_iff_right htakes]
      simp only [hmade]
      rfl
  | _ => simp [Json.updateSubkey, Json.TakesMembers, Json.isNull, Json.isObject]

/-- What `push_back` on any value does. -/
theorem pushBack_eq_ok_iff {json element w : Json} :
    json.pushBack element = .ok w ↔ json.TakesElements ∧ w = json.withElements [element] := by
  unfold Json.TakesElements
  cases json <;>
    simp [Json.pushBack, Json.isNull, Json.isArray, Json.withElements, Json.iterate, eq_comm]

theorem withElements_cons (json item : Json) (items : List Json) :
    json.withElements (item :: items) = (json.withElements [item]).withElements items := by
  cases items with
  | nil => rfl
  | cons next items => simp [Json.withElements, Json.iterate]

/-! ## What is written, and where -/

mutual

/-- The value can be written into a JSON value. -/
def Writable {α : Type} : JType α → α → Json → Prop
  | .scalar _, _, _ => True
  | .string, _, _ => True
  | .json, _, _ => True
  | .sequence _, v, json => v = [] ∨ json.TakesElements
  | .array _ _, v, json => v.toList = [] ∨ json.TakesElements
  | .optional _, none, _ => True
  | .optional t, some v, json => Writable t v json
  | .map t, v, json => (v.toList = [] ∨ json.TakesMembers) ∧
      ∀ pair ∈ v.toList, Writable t pair.2 (json.member pair.1)
  | .struct _ fs, v, json => json.TakesMembers ∧ FieldsWritable fs v json.member

/-- Each field can be written into its member. -/
def FieldsWritable {α : Type} : JFields α → α → (Text → Json) → Prop
  | .last name _ t, v, member => Writable t v (member name)
  | .cons name _ t fs, (v, vs), member =>
      Writable t v (member name) ∧ FieldsWritable fs vs member

end

mutual

/-- The JSON value after the value was written into it. -/
def patch {α : Type} : JType α → α → Json → Json
  | .scalar codec, v, _ => codec.put v
  | .string, v, _ => .string v
  | .json, v, _ => v
  | .sequence t, v, json => json.withElements (v.map (image t))
  | .array t _, v, json => json.withElements (v.toList.map (image t))
  | .optional _, none, _ => .null
  | .optional t, some v, json => patch t v json
  | .map t, v, json => json.withMembers
      (v.toList.map fun pair => (pair.1, patch t pair.2 (json.member pair.1)))
  | .struct _ fs, v, json => json.withMembers (fieldPatches fs v json.member)

/-- The names of the fields and what their members are then. -/
def fieldPatches {α : Type} : JFields α → α → (Text → Json) → List (Text × Json)
  | .last name _ t, v, member => [(name, patch t v (member name))]
  | .cons name _ t fs, (v, vs), member =>
      (name, patch t v (member name)) :: fieldPatches fs vs member

end

mutual

/-- Writing the value may change what is at a path. -/
def Touches {α : Type} : JType α → α → List Text → Prop
  | .scalar _, _, _ => True
  | .string, _, _ => True
  | .json, _, _ => True
  | .sequence _, v, _ => v ≠ []
  | .array _ _, v, _ => v.toList ≠ []
  | .optional _, none, _ => True
  | .optional t, some v, path => Touches t v path
  | .map t, v, path =>
      match path with
      | [] => v.toList ≠ []
      | key :: rest => ∃ pair ∈ v.toList, pair.1 = key ∧ (rest = [] ∨ Touches t pair.2 rest)
  | .struct _ fs, v, path =>
      match path with
      | [] => True
      | key :: rest => FieldsTouch fs v key rest

/-- Writing the fields may change what is at a path that begins with a key. -/
def FieldsTouch {α : Type} : JFields α → α → Text → List Text → Prop
  | .last name _ t, v, key, rest => name = key ∧ (rest = [] ∨ Touches t v rest)
  | .cons name _ t fs, (v, vs), key, rest =>
      (name = key ∧ (rest = [] ∨ Touches t v rest)) ∨ FieldsTouch fs vs key rest

end

theorem map_fst_fieldPatches (fs : JFields α) (v : α) (member : Text → Json) :
    (fieldPatches fs v member).map Prod.fst = fieldNames fs := by
  induction fs using @JFields.rec (fun {_} _ => True) _ with
  | last name init t => rfl
  | cons name init t fs _ ih =>
      obtain ⟨v, vs⟩ := v
      rw [fieldPatches, List.map_cons, ih vs, fieldNames]
  | _ => trivial

/-- Only the members with the names of the fields matter. -/
theorem fields_congr {fs : JFields α} {member member' : Text → Json}
    (h : ∀ name ∈ fieldNames fs, member name = member' name) (v : α) :
    (FieldsWritable fs v member ↔ FieldsWritable fs v member') ∧
      fieldPatches fs v member = fieldPatches fs v member' := by
  induction fs using @JFields.rec (fun {_} _ => True) _ with
  | last name init t =>
      have hname := h name (List.mem_singleton.mpr rfl)
      simp only [FieldsWritable, fieldPatches, hname, and_self]
  | cons name init t fs _ ih =>
      obtain ⟨v, vs⟩ := v
      have hname := h name List.mem_cons_self
      obtain ⟨hwritable, hpatches⟩ :=
        ih (fun later hlater => h later (List.mem_cons_of_mem _ hlater)) vs
      simp only [FieldsWritable, fieldPatches, hname, hwritable, hpatches, and_self]
  | _ => trivial

/-! ## The loops -/

/-- The loop of the container walker's `write`, on any value. -/
theorem foldlM_pushBack_eq_ok_iff {f : α → Result Json} {g : α → Json} {items : List α}
    (h : ∀ item ∈ items, f item = .ok (g item)) {json w : Json} :
    items.foldlM (fun json item => f item >>= fun element => json.pushBack element) json =
        .ok w ↔
      (items = [] ∨ json.TakesElements) ∧ w = json.withElements (items.map g) := by
  induction items generalizing json with
  | nil => simp [Json.withElements, pure, Except.pure, eq_comm]
  | cons item items ih =>
      have hfirst := h item List.mem_cons_self
      have hrest := fun json => @ih (fun i hi => h i (List.mem_cons_of_mem _ hi)) json
      have htakes : (json.withElements [g item]).TakesElements := Or.inr rfl
      rw [List.foldlM_cons, hfirst, List.map_cons, withElements_cons]
      show (json.pushBack (g item) >>= _) = _ ↔ _
      rw [bind_eq_ok_iff]
      simp only [pushBack_eq_ok_iff, hrest]
      constructor
      · rintro ⟨json₁, ⟨hjson, rfl⟩, -, hw⟩
        exact ⟨Or.inr hjson, hw⟩
      · rintro ⟨hjson, hw⟩
        refine ⟨_, ⟨?_, rfl⟩, Or.inr htakes, hw⟩
        exact hjson.resolve_left (List.cons_ne_nil item items)

/-- The loop of the map walker's `write`, on any value. -/
theorem foldlM_updateSubkey_eq_ok_iff {f : Text × α → Json → Result Json}
    {ok : Text × α → Json → Prop} {g : Text × α → Json → Json} {pairs : List (Text × α)}
    (h : ∀ pair ∈ pairs, ∀ json w, f pair json = .ok w ↔ ok pair json ∧ w = g pair json)
    (hkeys : pairs.Pairwise fun earlier later => earlier.1 ≠ later.1) {json w : Json} :
    pairs.foldlM (fun json pair => json.updateSubkey pair.1 (f pair)) json = .ok w ↔
      ((pairs = [] ∨ json.TakesMembers) ∧ ∀ pair ∈ pairs, ok pair (json.member pair.1)) ∧
        w = json.withMembers (pairs.map fun pair => (pair.1, g pair (json.member pair.1))) := by
  induction pairs generalizing json with
  | nil => simp [Json.withMembers, pure, Except.pure, eq_comm]
  | cons pair pairs ih =>
      obtain ⟨hfirst, hlater⟩ := List.pairwise_cons.mp hkeys
      have hrest := fun json => @ih (fun p hp => h p (List.mem_cons_of_mem _ hp)) hlater json
      have hmember : ∀ value, ∀ later ∈ pairs,
          (json.withMembers [(pair.1, value)]).member later.1 = json.member later.1 :=
        fun value later hmem => member_withMembers_of_ne (hfirst later hmem) value
      have hpatches : ∀ value, (pairs.map fun later =>
          (later.1, g later ((json.withMembers [(pair.1, value)]).member later.1))) =
            pairs.map fun later => (later.1, g later (json.member later.1)) := by
        intro value
        apply List.map_congr_left
        intro later hmem
        rw [hmember value later hmem]
      rw [List.foldlM_cons, bind_eq_ok_iff, List.map_cons, withMembers_cons]
      simp only [updateSubkey_eq_ok_iff, h pair List.mem_cons_self, hrest]
      constructor
      · rintro ⟨json₁, ⟨hjson, value, ⟨hok, rfl⟩, rfl⟩, ⟨-, hoks⟩, hw⟩
        rw [hpatches] at hw
        refine ⟨⟨Or.inr hjson, ?_⟩, hw⟩
        rw [List.forall_mem_cons]
        refine ⟨hok, ?_⟩
        intro later hmem
        rw [← hmember _ later hmem]
        exact hoks later hmem
      · rintro ⟨⟨hjson, hoks⟩, hw⟩
        obtain ⟨hok, hoks⟩ := List.forall_mem_cons.mp hoks
        refine ⟨_, ⟨hjson.resolve_left (List.cons_ne_nil pair pairs), _, ⟨hok, rfl⟩, rfl⟩,
          ⟨Or.inr (takesMembers_withMembers _ _), ?_⟩, ?_⟩
        · intro later hmem
          rw [hmember _ later hmem]
          exact hoks later hmem
        · rw [hpatches]
          exact hw

/-! ## The writer -/

/-- The writer goes through when `Writable` says so, and then leaves `patch`. -/
theorem writeFrom_eq_ok_iff {t : JType α} (hnames : DistinctNames t) (v : α) (json w : Json) :
    writeFrom t v json = .ok w ↔ Writable t v json ∧ w = patch t v json := by
  induction t using @JType.rec _
    (fun {α} fs => DistinctNamesFields fs → (fieldNames fs).Nodup → ∀ (v : α) (json w : Json),
      writeObject fs v json = .ok w ↔
        (json.TakesMembers ∧ FieldsWritable fs v json.member) ∧
          w = json.withMembers (fieldPatches fs v json.member)) generalizing json w with
  | scalar codec => simp [writeFrom, Writable, patch, eq_comm]
  | string => simp [writeFrom, Writable, patch, eq_comm]
  | json => simp [writeFrom, Writable, patch, eq_comm]
  | sequence t ih =>
      have helement : DistinctNames t := hnames
      rw [writeFrom, Writable, patch]
      exact foldlM_pushBack_eq_ok_iff fun item _ => writeFrom_eq_image helement item
  | array t n ih =>
      have helement : DistinctNames t := hnames
      rw [writeFrom, Writable, patch]
      exact foldlM_pushBack_eq_ok_iff fun item _ => writeFrom_eq_image helement item
  | optional t ih =>
      cases v with
      | none => simp [writeFrom, Writable, patch, eq_comm]
      | some v =>
          rw [writeFrom, Writable, patch]
          exact ih hnames v json w
  | map t ih =>
      rw [writeFrom, Writable, patch]
      exact foldlM_updateSubkey_eq_ok_iff (fun pair _ => ih hnames pair.2) (pairwise_toList v)
  | struct fieldsOptional fs ih =>
      rw [writeFrom, Writable, patch]
      exact ih hnames.2 hnames.1 v json w
  | last name init t ih hnames hnodup v json w =>
      rw [writeObject, inField_eq_ok_iff, updateSubkey_eq_ok_iff]
      simp only [ih hnames, FieldsWritable, fieldPatches]
      constructor
      · rintro ⟨hjson, value, ⟨hwritable, rfl⟩, hw⟩
        exact ⟨⟨hjson, hwritable⟩, hw⟩
      · rintro ⟨⟨hjson, hwritable⟩, hw⟩
        exact ⟨hjson, _, ⟨hwritable, rfl⟩, hw⟩
  | cons name init t fs ih ihfs hnames hnodup v json w =>
      obtain ⟨v, vs⟩ := v
      obtain ⟨hfirst, hlater⟩ := List.nodup_cons.mp hnodup
      have hmember : ∀ value, ∀ later ∈ fieldNames fs,
          (json.withMembers [(name, value)]).member later = json.member later := by
        intro value later hmem
        have hne : name ≠ later := fun heq => hfirst (heq ▸ hmem)
        exact member_withMembers_of_ne hne value
      rw [writeObject, bind_eq_ok_iff]
      simp only [inField_eq_ok_iff, updateSubkey_eq_ok_iff, ih hnames.1, ihfs hnames.2 hlater,
        FieldsWritable, fieldPatches]
      constructor
      · rintro ⟨json₁, ⟨hjson, value, ⟨hwritable, rfl⟩, rfl⟩, ⟨-, hrest⟩, hw⟩
        obtain ⟨hsame, hpatches⟩ := fields_congr (hmember _) vs
        rw [hpatches, ← withMembers_cons] at hw
        exact ⟨⟨hjson, hwritable, hsame.mp hrest⟩, hw⟩
      · rintro ⟨⟨hjson, hwritable, hrest⟩, hw⟩
        obtain ⟨hsame, hpatches⟩ := fields_congr (hmember (patch t v (json.member name))) vs
        refine ⟨_, ⟨hjson, _, ⟨hwritable, rfl⟩, rfl⟩,
          ⟨takesMembers_withMembers _ _, hsame.mpr hrest⟩, ?_⟩
        rw [hpatches, ← withMembers_cons]
        exact hw

/-! ## What stays -/

/-- Below a member that is not there, there is nothing. -/
theorem lookup_member {json : Json} {key : Text} {rest : List Text} (hrest : rest ≠ []) :
    Json.lookup rest (json.member key) = Json.lookup (key :: rest) json := by
  rw [Json.lookup, Json.member]
  cases json.find key with
  | some value => rfl
  | none =>
      cases rest with
      | nil => exact (hrest rfl).elim
      | cons next rest => rfl

/-- A path through members that were set, when nothing changes below any of them. -/
theorem lookup_withMembers {json : Json} {pairs : List (Text × Json)}
    (hkeys : (pairs.map Prod.fst).Nodup) {key : Text} {rest : List Text}
    (h : ∀ value, (key, value) ∈ pairs →
      rest ≠ [] ∧ Json.lookup rest value = Json.lookup rest (json.member key)) :
    Json.lookup (key :: rest) (json.withMembers pairs) = Json.lookup (key :: rest) json := by
  by_cases hkey : key ∈ pairs.map Prod.fst
  · obtain ⟨pair, hpair, rfl⟩ := List.mem_map.mp hkey
    obtain ⟨hrest, hvalue⟩ := h pair.2 hpair
    calc Json.lookup (pair.1 :: rest) (json.withMembers pairs)
        = Json.lookup rest pair.2 := by
          rw [Json.lookup, find_withMembers_of_mem hkeys hpair]
          rfl
      _ = Json.lookup rest (json.member pair.1) := hvalue
      _ = Json.lookup (pair.1 :: rest) json := lookup_member hrest
  · rw [Json.lookup, Json.lookup, find_withMembers_of_notMem hkey]

/-- What the writer does not touch is there as before. -/
theorem lookup_patch {t : JType α} (hnames : DistinctNames t) (v : α) (json : Json)
    (path : List Text) (h : ¬ Touches t v path) :
    Json.lookup path (patch t v json) = Json.lookup path json := by
  induction t using @JType.rec _
    (fun {α} fs => DistinctNamesFields fs → ∀ (v : α) (member : Text → Json) (key : Text)
      (rest : List Text), ¬ FieldsTouch fs v key rest →
        ∀ value, (key, value) ∈ fieldPatches fs v member →
          rest ≠ [] ∧ Json.lookup rest value = Json.lookup rest (member key))
    generalizing json path with
  | scalar codec => exact (h trivial).elim
  | string => exact (h trivial).elim
  | json => exact (h trivial).elim
  | sequence t ih =>
      rw [Touches, not_not] at h
      rw [patch, h]
      rfl
  | array t n ih =>
      rw [Touches, not_not] at h
      rw [patch, h]
      rfl
  | optional t ih =>
      cases v with
      | none => exact (h trivial).elim
      | some v =>
          rw [patch]
          exact ih hnames v json path h
  | map t ih =>
      cases path with
      | nil =>
          rw [Touches, not_not] at h
          rw [patch, h]
          rfl
      | cons key rest =>
          rw [patch]
          apply lookup_withMembers
          · rw [List.map_map]
            exact List.pairwise_map.mpr (pairwise_toList v)
          · intro value hvalue
            obtain ⟨pair, hpair, heq⟩ := List.mem_map.mp hvalue
            obtain ⟨rfl, rfl⟩ := Prod.mk.inj heq
            have huntouched : ¬ (rest = [] ∨ Touches t pair.2 rest) :=
              fun htouched => h ⟨pair, hpair, rfl, htouched⟩
            rw [not_or] at huntouched
            exact ⟨huntouched.1, ih hnames pair.2 _ rest huntouched.2⟩
  | struct fieldsOptional fs ih =>
      cases path with
      | nil => exact (h trivial).elim
      | cons key rest =>
          rw [patch]
          apply lookup_withMembers
          · rw [map_fst_fieldPatches]
            exact hnames.1
          · exact ih hnames.2 v json.member key rest h
  | last name init t ih hnames v member key rest h value hvalue =>
      obtain ⟨rfl, rfl⟩ := Prod.mk.inj (List.mem_singleton.mp hvalue)
      have huntouched : ¬ (rest = [] ∨ Touches t v rest) := fun htouched => h ⟨rfl, htouched⟩
      rw [not_or] at huntouched
      exact ⟨huntouched.1, ih hnames v (member key) rest huntouched.2⟩
  | cons name init t fs ih ihfs hnames v member key rest h value hvalue =>
      obtain ⟨v, vs⟩ := v
      rcases List.mem_cons.mp hvalue with heq | hlater
      · obtain ⟨rfl, rfl⟩ := Prod.mk.inj heq
        have huntouched : ¬ (rest = [] ∨ Touches t v rest) :=
          fun htouched => h (Or.inl ⟨rfl, htouched⟩)
        rw [not_or] at huntouched
        exact ⟨huntouched.1, ih hnames.1 v (member key) rest huntouched.2⟩
      · exact ihfs hnames.2 vs member key rest (fun htouched => h (Or.inr htouched)) value hlater

/-- A value is written into a JSON value exactly when what is there takes the elements and
members that it gets, and it then is the patched one. What is at a path that the written value
does not touch stays. -/
theorem written_into {t : JType α} (hnames : DistinctNames t) (v : α) (json : Json) :
    (∀ w, writeFrom t v json = .ok w ↔ Writable t v json ∧ w = patch t v json) ∧
    ∀ w, writeFrom t v json = .ok w → ∀ path, ¬ Touches t v path →
      Json.lookup path w = Json.lookup path json := by
  refine ⟨writeFrom_eq_ok_iff hnames v json, ?_⟩
  intro w hw path hpath
  obtain ⟨-, rfl⟩ := (writeFrom_eq_ok_iff hnames v json w).mp hw
  exact lookup_patch hnames v json path hpath

/-- Flags are written into settings that hold a number as well. -/
theorem written_into_settings :
    ∃ w, writeFrom sampleFlags [some true] (.object [([110], .integer 3)]) = .ok w ∧
      w = .object [([102], .array [.boolean true]), ([110], .integer 3)] ∧
      Json.lookup [[110]] w = some (.integer 3) := by
  obtain ⟨hwritten, hstays⟩ := written_into sampleFlags_distinctNames [some true]
    (.object [([110], .integer 3)])
  have hwritable : Writable sampleFlags [some true] (.object [([110], .integer 3)]) :=
    ⟨Or.inr rfl, Or.inr (Or.inl rfl)⟩
  have hw := (hwritten _).mpr ⟨hwritable, rfl⟩
  refine ⟨_, hw, rfl, ?_⟩
  rw [hstays _ hw [[110]] (fun h => absurd h.1 (by decide))]
  rfl

end BacsEnv.Bpjson
