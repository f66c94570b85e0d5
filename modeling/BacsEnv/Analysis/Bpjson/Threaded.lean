import BacsEnv.Analysis.Bpjson.Objects

/-!
# A reader that keeps its settings

`readThreaded` reads like `json_serializer::read_to`, except that the mode for missing
fields goes on through every walker. `tracks_readTo` compares the reader of the source with
it, for the modes that put up with missing keys: the source's reader accepts no more, and
`Complete` says when it accepts as much and when it returns the same. With such a mode
`readThreaded` succeeds exactly on the values that are `Readable`.
-/

set_option autoImplicit false

namespace BacsEnv.Bpjson

open Collect

variable {α β : Type}

mutual

/-- `json_serializer::read_to`, with the mode passed on by the walkers. -/
def readThreaded (mode : MissingFields) {α : Type} : JType α → Json → α → Result α
  | .scalar codec, json, _ =>
      match codec.get json with
      | none => .error (.json (.typeMustBe codec.kind json.kind))
      | some v => .ok v
  | .string, json, _ => json.getString
  | .json, json, _ => .ok json
  | .sequence t, json, target =>
      readSequence (fun item => readThreaded mode t item (fresh t)) json target
  | .array t _, json, target =>
      readArray (fun item => readThreaded mode t item (fresh t)) json target
  | .optional t, json, _ => readOptional (fun json => readThreaded mode t json (fresh t)) json
  | .map t, json, target => readMap (readThreaded mode t) (valueInit t) json target
  | .struct fieldsOptional fs, json, target =>
      readThreadedObject mode fieldsOptional fs json target

/-- `json_serializer::read_object`, with the mode passed on by the walkers. -/
def readThreadedObject (mode : MissingFields) (fieldsOptional : Bool) {α : Type} :
    JFields α → Json → α → Result α
  | .last name _ t, json, target =>
      readField mode false fieldsOptional t name json target
        fun subkey => readThreaded mode t subkey target
  | .cons name _ t fs, json, (target, targets) => do
      let v ← readField mode false fieldsOptional t name json target
        fun subkey => readThreaded mode t subkey target
      let vs ← readThreadedObject mode fieldsOptional fs json targets
      pure (v, vs)

end

/-! ## What the reading of a value needs -/

mutual

/-- Every value that is there can be read. -/
def Readable {α : Type} : JType α → Json → Prop
  | .scalar codec, json => (codec.get json).isSome
  | .string, json => ∃ s, json.getString = .ok s
  | .json, _ => True
  | .sequence t, json => ∀ item ∈ json.iterate, Readable t item
  | .array t _, json => ∀ item ∈ json.iterate, Readable t item
  | .optional t, json => json.isNull = false → Readable t json
  | .map t, json => (∀ pair ∈ json.items, (json.find pair.1).isSome) ∧
      ∀ pair ∈ json.items, Readable t pair.2
  | .struct _ fs, json => ReadableFields fs json

/-- `Readable` for the fields whose keys are there. -/
def ReadableFields {α : Type} : JFields α → Json → Prop
  | .last name _ t, json => ∀ subkey, json.find name = some subkey → Readable t subkey
  | .cons name _ t fs, json =>
      (∀ subkey, json.find name = some subkey → Readable t subkey) ∧ ReadableFields fs json

end

/-- A field whose key is missing below the walkers (`dropped`) is one of a struct with
`json_fields_optional`, and where the value that is read shows in the result (`visible`) it
is left as the mode says. -/
def MayBeMissing (mode : MissingFields) (dropped visible fieldsOptional : Bool) {α : Type}
    (t : JType α) (name : Text) (json : Json) (target : α) : Prop :=
  json.find name = none → dropped = true → fieldsOptional = true ∧
    (visible = true → mode = .defaultInitialize → target = valueInit t)

mutual

/-- Every field whose key is missing may be missing. -/
def Complete (mode : MissingFields) (dropped visible : Bool) {α : Type} :
    JType α → Json → α → Prop
  | .scalar _, _, _ => True
  | .string, _, _ => True
  | .json, _, _ => True
  | .sequence t, json, _ =>
      ∀ item ∈ json.iterate, Complete mode true visible t item (fresh t)
  | .array t n, json, _ =>
      -- The items that do not fit are read and thrown away.
      (∀ item ∈ json.iterate.take n, Complete mode true visible t item (fresh t)) ∧
        ∀ item ∈ json.iterate.drop n, Complete mode true false t item (fresh t)
  | .optional t, json, _ => json.isNull = false → Complete mode true visible t json (fresh t)
  | .map t, json, target =>
      ∀ pair ∈ json.items,
        Complete mode true visible t pair.2 (target[pair.1]?.getD (valueInit t))
  | .struct fieldsOptional fs, json, target =>
      CompleteFields mode dropped visible fieldsOptional fs json target

/-- `Complete` for the fields of a struct. -/
def CompleteFields (mode : MissingFields) (dropped visible fieldsOptional : Bool) {α : Type} :
    JFields α → Json → α → Prop
  | .last name _ t, json, target =>
      (∀ subkey, json.find name = some subkey → Complete mode dropped visible t subkey target) ∧
        MayBeMissing mode dropped visible fieldsOptional t name json target
  | .cons name _ t fs, json, (target, targets) =>
      ((∀ subkey, json.find name = some subkey →
          Complete mode dropped visible t subkey target) ∧
        MayBeMissing mode dropped visible fieldsOptional t name json target) ∧
        CompleteFields mode dropped visible fieldsOptional fs json targets

end

/-! ## Two readers side by side -/

/-- The result `b` against `a`: `b` accepts no more than `a` does, and where `a` succeeds,
`b` succeeds exactly under `ok` and with the same value exactly under `same`. -/
structure Tracks (a b : Result α) (ok same : Prop) : Prop where
  of_ok : ∀ {w}, b = .ok w → ∃ v, a = .ok v
  ok_iff : ∀ {v}, a = .ok v → ((∃ w, b = .ok w) ↔ ok)
  same_iff : ∀ {v}, a = .ok v → (b = .ok v ↔ same)

theorem Tracks.refl (a : Result α) : Tracks a a True True where
  of_ok h := ⟨_, h⟩
  ok_iff h := iff_true_intro ⟨_, h⟩
  same_iff h := iff_true_intro h

/-- Items that the second reader reads, the first one does. -/
theorem forall₂_of_ok {f g : β → Result α} {ok same : β → Prop} {items : List β}
    (h : ∀ item ∈ items, Tracks (f item) (g item) (ok item) (same item)) {ws : List α}
    (hws : List.Forall₂ (fun item w => g item = .ok w) items ws) :
    ∃ vs, List.Forall₂ (fun item v => f item = .ok v) items vs := by
  induction hws with
  | nil => exact ⟨[], .nil⟩
  | @cons item w items ws hw _ ih =>
      obtain ⟨v, hv⟩ := (h item List.mem_cons_self).of_ok hw
      obtain ⟨vs, hvs⟩ := ih fun i hi => h i (List.mem_cons_of_mem _ hi)
      exact ⟨v :: vs, .cons hv hvs⟩

/-- Where the first reader reads the items, the second one does exactly under `ok`. -/
theorem exists_forall₂_iff {f g : β → Result α} {ok same : β → Prop} {items : List β}
    (h : ∀ item ∈ items, Tracks (f item) (g item) (ok item) (same item)) {vs : List α}
    (hvs : List.Forall₂ (fun item v => f item = .ok v) items vs) :
    (∃ ws, List.Forall₂ (fun item w => g item = .ok w) items ws) ↔
      ∀ item ∈ items, ok item := by
  induction hvs with
  | nil =>
      apply iff_of_true ⟨[], .nil⟩
      intro item hitem
      cases hitem
  | @cons item v items vs hv _ ih =>
      have hfirst := (h item List.mem_cons_self).ok_iff hv
      have hrest := ih fun i hi => h i (List.mem_cons_of_mem _ hi)
      rw [List.forall_mem_cons, ← hfirst, ← hrest]
      constructor
      · rintro ⟨ws, hws⟩
        cases hws with
        | cons hw hws => exact ⟨⟨_, hw⟩, _, hws⟩
      · rintro ⟨⟨w, hw⟩, ws, hws⟩
        exact ⟨w :: ws, .cons hw hws⟩

/-- Where the first reader reads the items, the second one reads the same exactly under
`same`. -/
theorem forall₂_same_iff {f g : β → Result α} {ok same : β → Prop} {items : List β}
    (h : ∀ item ∈ items, Tracks (f item) (g item) (ok item) (same item)) {vs : List α}
    (hvs : List.Forall₂ (fun item v => f item = .ok v) items vs) :
    List.Forall₂ (fun item w => g item = .ok w) items vs ↔ ∀ item ∈ items, same item := by
  induction hvs with
  | nil => simp
  | @cons item v items vs hv _ ih =>
      have hfirst := (h item List.mem_cons_self).same_iff hv
      have hrest := ih fun i hi => h i (List.mem_cons_of_mem _ hi)
      rw [List.forall_mem_cons, List.forall₂_cons, hfirst, hrest]

section Walkers

variable {json : Json}

theorem Tracks.sequence {f g : Json → Result α} {ok same : Json → Prop}
    (h : ∀ item ∈ json.iterate, Tracks (f item) (g item) (ok item) (same item))
    (target : List α) :
    Tracks (readSequence f json target) (readSequence g json target)
      (∀ item ∈ json.iterate, ok item) (∀ item ∈ json.iterate, same item) where
  of_ok := by
    intro w hw
    obtain ⟨ws, hws, -⟩ := readSequence_eq_ok_iff.mp hw
    obtain ⟨vs, hvs⟩ := forall₂_of_ok h hws
    exact ⟨_, readSequence_eq_ok_iff.mpr ⟨vs, hvs, rfl⟩⟩
  ok_iff := by
    intro v hv
    obtain ⟨vs, hvs, -⟩ := readSequence_eq_ok_iff.mp hv
    rw [exists_readSequence_iff, exists_forall₂_iff h hvs]
  same_iff := by
    intro v hv
    obtain ⟨vs, hvs, rfl⟩ := readSequence_eq_ok_iff.mp hv
    rw [← forall₂_same_iff h hvs, readSequence_eq_ok_iff]
    constructor
    · rintro ⟨ws, hws, heq⟩
      obtain rfl := List.append_cancel_left heq
      exact hws
    · intro hws
      exact ⟨vs, hws, rfl⟩

theorem Tracks.array {f g : Json → Result α} {ok same : Json → Prop}
    (h : ∀ item ∈ json.iterate, Tracks (f item) (g item) (ok item) (same item)) {n : ℕ}
    (target : List.Vector α n) :
    Tracks (readArray f json target) (readArray g json target)
      ((∀ item ∈ json.iterate.take n, ok item) ∧ ∀ item ∈ json.iterate.drop n, ok item)
      ((∀ item ∈ json.iterate.take n, same item) ∧ ∀ item ∈ json.iterate.drop n, ok item) where
  of_ok := by
    intro w hw
    obtain ⟨ws, hws, -⟩ := readArray_eq_ok_iff.mp hw
    obtain ⟨vs, hvs⟩ := forall₂_of_ok h hws
    exact (exists_readArray_iff target).mpr ⟨vs, hvs⟩
  ok_iff := by
    intro v hv
    obtain ⟨vs, hvs, -⟩ := readArray_eq_ok_iff.mp hv
    rw [← List.forall_mem_append, List.take_append_drop, exists_readArray_iff,
      exists_forall₂_iff h hvs]
  same_iff := by
    intro v hv
    obtain ⟨vs, hvs, hv⟩ := readArray_eq_ok_iff.mp hv
    have htake := forall₂_same_iff (fun item hi => h item (List.mem_of_mem_take hi))
      (List.forall₂_take n hvs)
    have hdrop := exists_forall₂_iff (fun item hi => h item (List.mem_of_mem_drop hi))
      (List.forall₂_drop n hvs)
    rw [← htake, ← hdrop, readArray_eq_ok_iff]
    constructor
    · rintro ⟨ws, hws, heq⟩
      have hlen : ws.length = vs.length := hws.length_eq.symm.trans hvs.length_eq
      rw [hv, hlen] at heq
      have hkept := List.append_cancel_right heq
      rw [hkept]
      exact ⟨List.forall₂_take n hws, _, List.forall₂_drop n hws⟩
    · rintro ⟨hkept, ws, hws⟩
      have hall : List.Forall₂ (fun item w => g item = .ok w)
          (json.iterate.take n ++ json.iterate.drop n) (vs.take n ++ ws) :=
        List.rel_append hkept hws
      rw [List.take_append_drop] at hall
      refine ⟨_, hall, ?_⟩
      have hlen := hall.length_eq.symm.trans hvs.length_eq
      -- What was thrown away does not come back, since the elements kept fill the container.
      have hrest : ws.take (n - (vs.take n).length) = [] := by
        apply List.eq_nil_of_length_eq_zero
        have hthrown := hws.length_eq
        have hread := hvs.length_eq
        simp only [List.length_take, List.length_drop] at hthrown ⊢
        omega
      rw [hv, hlen, List.take_append, List.take_take, Nat.min_self, hrest, List.append_nil]

theorem Tracks.optional {f g : Json → Result α} {ok same : Prop}
    (h : Tracks (f json) (g json) ok same) :
    Tracks (readOptional f json) (readOptional g json)
      (json.isNull = false → ok) (json.isNull = false → same) where
  of_ok := by
    intro w hw
    have hsecond := exists_readOptional_iff.mp ⟨w, hw⟩
    rw [exists_readOptional_iff]
    intro hnull
    obtain ⟨value, hvalue⟩ := hsecond hnull
    exact h.of_ok hvalue
  ok_iff := by
    intro v hv
    have hfirst := exists_readOptional_iff.mp ⟨v, hv⟩
    rw [exists_readOptional_iff]
    refine forall_congr' fun hnull => ?_
    obtain ⟨value, hvalue⟩ := hfirst hnull
    exact h.ok_iff hvalue
  same_iff := by
    intro v hv
    rcases readOptional_eq_ok_iff.mp hv with ⟨hnull, rfl⟩ | ⟨hnull, value, hvalue, rfl⟩
    · apply iff_of_true (readOptional_eq_ok_iff.mpr (Or.inl ⟨hnull, rfl⟩))
      rw [hnull]
      exact fun hfalse => nomatch hfalse
    · have hsame := h.same_iff hvalue
      simp only [readOptional_eq_ok_iff, hnull, Bool.false_eq_true, false_and, true_and,
        false_or, forall_const, Option.some.injEq, exists_eq_right']
      exact hsame

/-- Elements stored under distinct keys are told apart. -/
theorem insertMany_zip_inj {keys : List Text} (hkeys : keys.Nodup) {vs ws : List α}
    (hvs : vs.length = keys.length) (hws : ws.length = keys.length) {target : StringMap α}
    (h : target.insertMany (keys.zip ws) = target.insertMany (keys.zip vs)) : ws = vs := by
  have hfst : (keys.zip vs).map Prod.fst = keys := List.map_fst_zip hvs.ge
  have hfst' : (keys.zip ws).map Prod.fst = keys := List.map_fst_zip hws.ge
  have hzip := insertMany_inj (by rwa [hfst]) (hfst'.trans hfst.symm) h
  rw [← List.map_snd_zip hws.le, hzip, List.map_snd_zip hvs.le]

theorem Tracks.map {f g : Json → α → Result α} {made : α} {target : StringMap α}
    {ok same : Text × Json → Prop}
    (h : ∀ pair ∈ json.items, Tracks (f pair.2 (target[pair.1]?.getD made))
      (g pair.2 (target[pair.1]?.getD made)) (ok pair) (same pair)) :
    Tracks (readMap f made json target) (readMap g made json target)
      (∀ pair ∈ json.items, ok pair) (∀ pair ∈ json.items, same pair) where
  of_ok := by
    intro w hw
    obtain ⟨hfound, ws, hws, -⟩ := readMap_eq_ok_iff.mp hw
    obtain ⟨vs, hvs⟩ := forall₂_of_ok h hws
    exact ⟨_, readMap_eq_ok_iff.mpr ⟨hfound, vs, hvs, rfl⟩⟩
  ok_iff := by
    intro v hv
    obtain ⟨hfound, vs, hvs, -⟩ := readMap_eq_ok_iff.mp hv
    rw [exists_readMap_iff, and_iff_right hfound, exists_forall₂_iff h hvs]
  same_iff := by
    intro v hv
    obtain ⟨hfound, vs, hvs, rfl⟩ := readMap_eq_ok_iff.mp hv
    rw [← forall₂_same_iff h hvs, readMap_eq_ok_iff]
    constructor
    · rintro ⟨-, ws, hws, heq⟩
      have hkeys : (json.items.map Prod.fst).Nodup := nodup_keys_of_found hfound
      have hvlen : vs.length = (json.items.map Prod.fst).length := by
        rw [List.length_map, hvs.length_eq]
      have hwlen : ws.length = (json.items.map Prod.fst).length := by
        rw [List.length_map, hws.length_eq]
      obtain rfl := insertMany_zip_inj hkeys hvlen hwlen heq.symm
      exact hws
    · intro hws
      exact ⟨hfound, vs, hws, rfl⟩

end Walkers

/-! ## Fields -/

theorem Tracks.inField {a b : Result α} {ok same : Prop} (h : Tracks a b ok same)
    (direction : Direction) (name : Text) :
    Tracks (inField direction name a) (inField direction name b) ok same where
  of_ok hw := by
    obtain ⟨v, hv⟩ := h.of_ok (inField_eq_ok_iff.mp hw)
    exact ⟨v, inField_eq_ok_iff.mpr hv⟩
  ok_iff hv := by
    simp only [inField_eq_ok_iff] at hv ⊢
    exact h.ok_iff hv
  same_iff hv := by
    rw [inField_eq_ok_iff] at hv ⊢
    exact h.same_iff hv

/-- Two fields of a struct, one after the other. -/
theorem Tracks.pair {a b : Result α} {as bs : Result β} {ok same oks sames : Prop}
    (h : Tracks a b ok same) (hs : Tracks as bs oks sames) :
    Tracks (a >>= fun v => as >>= fun vs => pure (v, vs))
      (b >>= fun v => bs >>= fun vs => pure (v, vs)) (ok ∧ oks) (same ∧ sames) := by
  refine ⟨?_, ?_, ?_⟩
  · intro w hw
    obtain ⟨hfirst, hrest⟩ := pair_eq_ok_iff.mp hw
    obtain ⟨v, hv⟩ := h.of_ok hfirst
    obtain ⟨vs, hvs⟩ := hs.of_ok hrest
    exact ⟨(v, vs), pair_eq_ok_iff.mpr ⟨hv, hvs⟩⟩
  · intro v hv
    obtain ⟨hfirst, hrest⟩ := pair_eq_ok_iff.mp hv
    rw [← h.ok_iff hfirst, ← hs.ok_iff hrest]
    simp only [pair_eq_ok_iff, Prod.exists, exists_and_left, exists_and_right]
  · intro v hv
    obtain ⟨hfirst, hrest⟩ := pair_eq_ok_iff.mp hv
    rw [pair_eq_ok_iff, h.same_iff hfirst, hs.same_iff hrest]

/-- The mode that the source's reader has below the walkers, and above them. -/
def modeBelow (dropped : Bool) (mode : MissingFields) : MissingFields :=
  if dropped then .throwException else mode

/-- One field, given the two reads of its own value. -/
theorem Tracks.field {mode : MissingFields} (hmode : mode ≠ .throwException) {dropped : Bool}
    {fieldsOptional : Bool} {t : JType α} {name : Text} {json : Json} {target : α}
    {f g : Json → Result α} {ok same : Json → Prop}
    (h : ∀ subkey, json.find name = some subkey →
      Tracks (f subkey) (g subkey) (ok subkey) (same subkey)) :
    Tracks (readField mode false fieldsOptional t name json target f)
      (readField (modeBelow dropped mode) false fieldsOptional t name json target g)
      ((∀ subkey, json.find name = some subkey → ok subkey) ∧
        MayBeMissing mode dropped false fieldsOptional t name json target)
      ((∀ subkey, json.find name = some subkey → same subkey) ∧
        MayBeMissing mode dropped true fieldsOptional t name json target) := by
  cases hfind : json.find name with
  | some subkey =>
      rw [readField_of_find hfind, readField_of_find hfind]
      simp only [MayBeMissing, hfind, Option.some.injEq, forall_eq', reduceCtorEq, false_implies,
        and_true]
      exact (h subkey hfind).inField _ _
  | none =>
      -- Without the key the first reader never throws.
      have hfirst : ∀ v, readField mode false fieldsOptional t name json target f = .ok v ↔
          v = if mode = .defaultInitialize then valueInit t else target :=
        fun v => readField_of_missing_of_ne hmode hfind
      simp only [MayBeMissing, hfind, reduceCtorEq, false_implies, implies_true, true_and,
        forall_const]
      cases dropped with
      | false =>
          have hsecond : ∀ v, readField (modeBelow false mode) false fieldsOptional t name json
              target g = .ok v ↔ v = if mode = .defaultInitialize then valueInit t else target :=
            fun v => readField_of_missing_of_ne hmode hfind
          simp only [Bool.false_eq_true, false_implies]
          refine ⟨?_, ?_, ?_⟩
          · intro w hw
            exact ⟨w, (hfirst w).mpr ((hsecond w).mp hw)⟩
          · intro v hv
            exact iff_true_intro ⟨v, (hsecond v).mpr ((hfirst v).mp hv)⟩
          · intro v hv
            exact iff_true_intro ((hsecond v).mpr ((hfirst v).mp hv))
      | true =>
          have hsecond : ∀ v, readField (modeBelow true mode) false fieldsOptional t name json
              target g = .ok v ↔ fieldsOptional = true ∧ v = target := by
            intro v
            rw [readField_of_missing hfind]
            simp [modeBelow]
          refine ⟨?_, ?_, ?_⟩
          · intro w _
            exact ⟨_, (hfirst _).mpr rfl⟩
          · intro v _
            simp [hsecond]
          · intro v hv
            have hkept : (if mode = .defaultInitialize then valueInit t else target) = target ↔
                (mode = .defaultInitialize → target = valueInit t) := by
              by_cases hdefault : mode = .defaultInitialize
              · rw [if_pos hdefault, eq_comm]
                exact (imp_iff_right hdefault).symm
              · rw [if_neg hdefault]
                exact iff_of_true rfl fun h => absurd h hdefault
            rw [hsecond, (hfirst v).mp hv, hkept]
            exact (imp_iff_right rfl).symm

/-! ## The reader of the source -/

/-- The reader of the source against the one that keeps its settings. -/
theorem tracks_readTo {mode : MissingFields} (hmode : mode ≠ .throwException) (t : JType α)
    (dropped : Bool) (json : Json) (target : α) :
    Tracks (readThreaded mode t json target) (readTo (modeBelow dropped mode) t json target)
      (Complete mode dropped false t json target) (Complete mode dropped true t json target) := by
  induction t using @JType.rec _
    (fun {α} fs => ∀ (dropped fieldsOptional : Bool) (json : Json) (target : α),
      Tracks (readThreadedObject mode fieldsOptional fs json target)
        (readObject (modeBelow dropped mode) false fieldsOptional fs json target)
        (CompleteFields mode dropped false fieldsOptional fs json target)
        (CompleteFields mode dropped true fieldsOptional fs json target))
    generalizing dropped json with
  | scalar codec => exact Tracks.refl _
  | string => exact Tracks.refl _
  | json => exact Tracks.refl _
  | sequence t ih =>
      rw [readTo_sequence, readThreaded, Complete, Complete]
      exact Tracks.sequence (fun item _ => ih true item (fresh t)) target
  | array t n ih =>
      rw [readTo_array, readThreaded, Complete, Complete]
      exact Tracks.array (fun item _ => ih true item (fresh t)) target
  | optional t ih =>
      rw [readTo_optional, readThreaded, Complete, Complete]
      exact Tracks.optional (ih true json (fresh t))
  | map t ih =>
      rw [readTo_map, readThreaded, Complete, Complete]
      exact Tracks.map fun pair _ => ih true pair.2 _
  | struct fieldsOptional fs ih =>
      rw [readTo, readThreaded, Complete, Complete]
      exact ih dropped fieldsOptional json target
  | last name init t ih dropped fieldsOptional json target =>
      rw [readThreadedObject, readObject, CompleteFields, CompleteFields]
      exact Tracks.field hmode fun subkey _ => ih dropped subkey target
  | cons name init t fs ih ihfs dropped fieldsOptional json target =>
      obtain ⟨target, targets⟩ := target
      rw [readThreadedObject, readObject, CompleteFields, CompleteFields]
      exact Tracks.pair (Tracks.field hmode fun subkey _ => ih dropped subkey target)
        (ihfs dropped fieldsOptional json targets)

/-! ## When the reader that keeps its settings succeeds -/

/-- With a mode that puts up with missing keys, a field is read when its key is missing or
its value is readable. -/
theorem readField_ok_iff {mode : MissingFields} (hmode : mode ≠ .throwException)
    {fieldsOptional : Bool} {t : JType α} {name : Text} {json : Json} {target : α}
    {f : Json → Result α} :
    (∃ v, readField mode false fieldsOptional t name json target f = .ok v) ↔
      ∀ subkey, json.find name = some subkey → ∃ v, f subkey = .ok v := by
  cases hfind : json.find name with
  | some subkey =>
      rw [readField_of_find hfind]
      simp only [inField_eq_ok_iff, Option.some.injEq, forall_eq']
  | none =>
      simp only [readField_of_missing_of_ne hmode hfind, exists_eq, reduceCtorEq, false_implies,
        implies_true]

/-- With a mode that puts up with missing keys, the reader that keeps its settings succeeds
exactly when every value that is there is readable. -/
theorem readThreaded_ok_iff {mode : MissingFields} (hmode : mode ≠ .throwException)
    (t : JType α) (json : Json) (target : α) :
    (∃ v, readThreaded mode t json target = .ok v) ↔ Readable t json := by
  induction t using @JType.rec _
    (fun {α} fs => ∀ (fieldsOptional : Bool) (json : Json) (target : α),
      (∃ v, readThreadedObject mode fieldsOptional fs json target = .ok v) ↔
        ReadableFields fs json) generalizing json with
  | scalar codec =>
      rw [Readable]
      simp only [readThreaded]
      cases codec.get json <;> simp
  | string => rfl
  | json => simp [readThreaded, Readable]
  | sequence t ih =>
      rw [Readable]
      simp only [readThreaded, exists_readSequence_iff, exists_forall₂_iff_forall]
      exact forall₂_congr fun item _ => ih item (fresh t)
  | array t n ih =>
      rw [Readable]
      simp only [readThreaded, exists_readArray_iff, exists_forall₂_iff_forall]
      exact forall₂_congr fun item _ => ih item (fresh t)
  | optional t ih =>
      rw [Readable]
      simp only [readThreaded, exists_readOptional_iff]
      exact imp_congr_right fun _ => ih json (fresh t)
  | map t ih =>
      rw [Readable]
      simp only [readThreaded, exists_readMap_iff, exists_forall₂_iff_forall]
      exact and_congr_right fun _ => forall₂_congr fun pair _ => ih pair.2 _
  | struct fieldsOptional fs ih =>
      rw [Readable]
      simp only [readThreaded]
      exact ih fieldsOptional json target
  | last name init t ih fieldsOptional json target =>
      rw [ReadableFields]
      simp only [readThreadedObject]
      rw [readField_ok_iff hmode]
      exact forall₂_congr fun subkey _ => ih subkey target
  | cons name init t fs ih ihfs fieldsOptional json target =>
      obtain ⟨target, targets⟩ := target
      rw [ReadableFields, ← ihfs fieldsOptional json targets]
      have hfirst : (∃ v, readField mode false fieldsOptional t name json target
            (fun subkey => readThreaded mode t subkey target) = .ok v) ↔
          ∀ subkey, json.find name = some subkey →
            ∃ v, readThreaded mode t subkey target = .ok v := readField_ok_iff hmode
      have hvalue : (∀ subkey, json.find name = some subkey →
          ∃ v, readThreaded mode t subkey target = .ok v) ↔
            ∀ subkey, json.find name = some subkey → Readable t subkey :=
        forall₂_congr fun subkey _ => ih subkey target
      rw [← hvalue, ← hfirst]
      simp only [readThreadedObject, pair_eq_ok_iff, Prod.exists, exists_and_left,
        exists_and_right]

end BacsEnv.Bpjson
