import BacsEnv.Analysis.Bpjson.Exceptions
import BacsEnv.Analysis.Bpjson.Threaded

/-!
# Whether the settings reach every depth

The reader of the source and the one that keeps its settings go the same way until the first
key that is missing below a container, an optional or a map, in a struct that does not put up
with it: `MissesKey` says whether they get there before a value that cannot be read. There the
reader of the source throws what the other never does (`Lockstep`). From this follows on
which inputs the settings reach every depth, exceptions included (`settingsReach_iff`).
-/

set_option autoImplicit false

namespace BacsEnv.Bpjson

open Collect

variable {α β : Type}

/-! ## Names of members -/

/-- The name of a member of a struct. None of the keys that `items()` makes up for the elements
of an array and for a primitive is one. -/
structure MemberName (name : Text) : Prop where
  ne_nil : name ≠ []
  ne_index : ∀ i : ℕ, name ≠ text (toString i)

mutual

/-- The fields of the structs have names of members. -/
def MemberNames {α : Type} : JType α → Prop
  | .scalar _ => True
  | .string => True
  | .json => True
  | .sequence t => MemberNames t
  | .array t _ => MemberNames t
  | .optional t => MemberNames t
  | .map t => MemberNames t
  | .struct _ fs => MemberNamesFields fs

def MemberNamesFields {α : Type} : JFields α → Prop
  | .last name _ t => MemberName name ∧ MemberNames t
  | .cons name _ t fs => (MemberName name ∧ MemberNames t) ∧ MemberNamesFields fs

end

/-- `at` did not find a member. -/
inductive AboutMember : JsonError → Prop
  | notFound {name : Text} (h : MemberName name) : AboutMember (.keyNotFound name)
  | noObject {name : Text} (h : MemberName name) (actual : JsonKind) :
      AboutMember (.cannotUse (.atKey name) actual)

theorem not_aboutMember_typeMustBe {expected actual : JsonKind} :
    ¬ AboutMember (.typeMustBe expected actual) := by
  intro h
  cases h

/-- A struct's key that is missing. -/
theorem aboutMember_of_missing {json : Json} {name : Text} (hname : MemberName name)
    (hfind : json.find name = none) :
    ∃ cause, AboutMember cause ∧ json.atKey name = .error (.json cause) := by
  cases json with
  | object fields =>
      have hmember : (Json.members fields)[name]? = none := hfind
      refine ⟨_, .notFound hname, ?_⟩
      simp only [Json.atKey, hmember]
  | _ => exact ⟨_, .noObject hname _, rfl⟩

/-- A key of `items()` for which `at` throws is not a member's. -/
theorem not_aboutMember_of_items {json : Json} {pair : Text × Json} (hpair : pair ∈ json.items)
    {cause : JsonError} (h : json.atKey pair.1 = .error (.json cause)) : ¬ AboutMember cause := by
  have hkey : ¬ MemberName pair.1 → json.atKey pair.1 =
      .error (.json (.cannotUse (.atKey pair.1) json.kind)) → ¬ AboutMember cause := by
    intro hname hat hcause
    rw [hat] at h
    obtain rfl := Exception.json.inj (Except.error.inj h)
    cases hcause with
    | noObject hmember actual => exact hname hmember
  cases json with
  | null => cases hpair
  | object fields =>
      have hfound : (Json.members fields)[pair.1]? = some pair.2 :=
        Std.ExtTreeMap.mem_toList_iff_getElem?_eq_some.mp hpair
      simp only [Json.atKey, hfound, reduceCtorEq] at h
  | array items =>
      obtain ⟨⟨element, i⟩, -, rfl⟩ := List.mem_map.mp hpair
      exact hkey (fun hname => hname.ne_index i rfl) rfl
  | _ =>
      obtain rfl := List.mem_singleton.mp hpair
      exact hkey (fun hname => hname.ne_nil rfl) rfl

/-! ## When a missing key is met -/

/-- One of the items stops a reader, behind items that it can read. -/
def ComesTo {ι : Type} (reads stops : ι → Prop) (items : List ι) : Prop :=
  ∃ before item after, items = before ++ item :: after ∧
    (∀ earlier ∈ before, reads earlier) ∧ stops item

/-- There is a first item that stops it. -/
theorem ComesTo.first {ι : Type} {reads stops : ι → Prop} {items : List ι}
    (h : ComesTo reads stops items) :
    ∃ before item after, items = before ++ item :: after ∧
      (∀ earlier ∈ before, reads earlier ∧ ¬ stops earlier) ∧ stops item := by
  obtain ⟨before, item, after, rfl, hreads, hstops⟩ := h
  have hthere : ∃ x ∈ before ++ [item], stops x := ⟨item, by simp, hstops⟩
  obtain ⟨before', first, after', hsplit, hnone, hfirst⟩ := exists_first hthere
  refine ⟨before', first, after' ++ after, ?_, ?_, hfirst⟩
  · have hfront : before ++ item :: after = (before ++ [item]) ++ after := by simp
    rw [hfront, hsplit]
    simp
  · intro earlier hearlier
    have hmem : earlier ∈ before ++ [item] := by
      rw [hsplit]
      exact List.mem_append_left _ hearlier
    refine ⟨?_, hnone earlier hearlier⟩
    rcases List.mem_append.mp hmem with hmem | hmem
    · exact hreads earlier hmem
    · obtain rfl := List.mem_singleton.mp hmem
      exact absurd hstops (hnone _ hearlier)

/-- The value of the field's key stops a reader, or the key is missing below the walkers
(`dropped`) in a struct without `json_fields_optional`. -/
def FieldMissesKey (dropped fieldsOptional : Bool) (name : Text) (json : Json)
    (misses : Json → Prop) : Prop :=
  (∃ subkey, json.find name = some subkey ∧ misses subkey) ∨
    (json.find name = none ∧ dropped = true ∧ fieldsOptional = false)

mutual

/-- A reader meets a key that is missing where the settings were dropped, before it meets a
value that cannot be read. -/
def MissesKey (dropped : Bool) {α : Type} : JType α → Json → Prop
  | .scalar _, _ => False
  | .string, _ => False
  | .json, _ => False
  | .sequence t, json => ComesTo (Readable t) (MissesKey true t) json.iterate
  | .array t _, json => ComesTo (Readable t) (MissesKey true t) json.iterate
  | .optional t, json => json.isNull = false ∧ MissesKey true t json
  | .map t, json =>
      ComesTo (fun pair : Text × Json => (json.find pair.1).isSome ∧ Readable t pair.2)
        (fun pair => (json.find pair.1).isSome ∧ MissesKey true t pair.2) json.items
  | .struct fieldsOptional fs, json => MissesKeyFields dropped fieldsOptional fs json

/-- `MissesKey` for the fields of a struct. -/
def MissesKeyFields (dropped fieldsOptional : Bool) {α : Type} : JFields α → Json → Prop
  | .last name _ t, json => FieldMissesKey dropped fieldsOptional name json (MissesKey dropped t)
  | .cons name _ t fs, json =>
      FieldMissesKey dropped fieldsOptional name json (MissesKey dropped t) ∨
        ((∀ subkey, json.find name = some subkey → Readable t subkey) ∧
          MissesKeyFields dropped fieldsOptional fs json)

end

/-! ## Two readers that go the same way -/

/-- The result `b` against `a`, which never is that a member is missing: when a reader `stops`
this is what `b` is, and otherwise both throw the same or none does. -/
structure Lockstep (a b : Result α) (stops : Prop) : Prop where
  own : ∀ {path cause}, a = .error (nest path cause) → ¬ AboutMember cause
  of_stops : stops → ∃ path cause, AboutMember cause ∧ b = .error (nest path cause)
  of_not_stops : ¬ stops → ∀ {e}, b = .error e ↔ a = .error e

namespace Lockstep

variable {a b : Result α} {stops stops' : Prop}

/-- Both throw an exception of the library that is not about a member. -/
theorem of_json {e : JsonError} (h : ¬ AboutMember e) :
    Lockstep (.error (.json e) : Result α) (.error (.json e)) False where
  own := by
    intro path cause herror
    have hnest : nest [] e = nest path cause := Except.error.inj herror
    obtain ⟨-, rfl⟩ := nest_injective hnest
    exact h
  of_stops := False.elim
  of_not_stops _ := Iff.rfl

/-- Both succeed. -/
theorem of_ok (v w : α) : Lockstep (.ok v) (.ok w) False where
  own := by
    intro path cause h
    cases h
  of_stops := False.elim
  of_not_stops _ := by
    intro e
    exact iff_of_false (fun h => nomatch h) fun h => nomatch h

theorem congr (h : Lockstep a b stops) (hiff : stops ↔ stops') : Lockstep a b stops' where
  own := h.own
  of_stops hstops := h.of_stops (hiff.mpr hstops)
  of_not_stops hstops := h.of_not_stops fun h => hstops (hiff.mp h)

/-- Unless a reader stops both succeed or none does. -/
theorem exists_ok_iff (h : Lockstep a b stops) (hstops : ¬ stops) :
    (∃ w, b = .ok w) ↔ ∃ v, a = .ok v := by
  have herrors := fun e => h.of_not_stops hstops (e := e)
  cases a with
  | ok v =>
      cases b with
      | ok w => exact iff_of_true ⟨w, rfl⟩ ⟨v, rfl⟩
      | error e => cases (herrors e).mp rfl
  | error e =>
      rw [(herrors e).mpr rfl]

/-- A reader that stops does not succeed. -/
theorem not_ok_of_stops (h : Lockstep a b stops) (hstops : stops) : ¬ ∃ w, b = .ok w := by
  rintro ⟨w, hw⟩
  obtain ⟨path, cause, -, herror⟩ := h.of_stops hstops
  rw [hw] at herror
  cases herror

/-- One computation after the other. -/
theorem bind {f g : α → Result β} (h : Lockstep a b stops)
    (hfg : ∀ v w, Lockstep (f v) (g w) stops') :
    Lockstep (a >>= f) (b >>= g) (stops ∨ (∃ v, a = .ok v) ∧ stops') := by
  refine ⟨?_, ?_, ?_⟩
  · intro path cause herror
    cases ha : a with
    | error e =>
        rw [ha] at herror
        obtain rfl := Except.error.inj herror
        exact h.own ha
    | ok v =>
        rw [ha] at herror
        exact (hfg v v).own herror
  · intro hstops
    by_cases hfirst : stops
    · obtain ⟨path, cause, hmember, hb⟩ := h.of_stops hfirst
      exact ⟨path, cause, hmember, by rw [hb]; rfl⟩
    · obtain ⟨⟨v, hv⟩, hsecond⟩ := hstops.resolve_left hfirst
      obtain ⟨w, hw⟩ := (h.exists_ok_iff hfirst).mpr ⟨v, hv⟩
      obtain ⟨path, cause, hmember, hg⟩ := (hfg v w).of_stops hsecond
      exact ⟨path, cause, hmember, by rw [hw]; exact hg⟩
  · intro hnot e
    obtain ⟨hfirst, hsecond⟩ := not_or.mp hnot
    cases ha : a with
    | error e' =>
        rw [(h.of_not_stops hfirst).mpr ha]
        rfl
    | ok v =>
        obtain ⟨w, hw⟩ := (h.exists_ok_iff hfirst).mpr ⟨v, ha⟩
        rw [hw]
        exact (hfg v w).of_not_stops fun hstops => hsecond ⟨⟨v, ha⟩, hstops⟩

/-- What is done with the results throws nothing. -/
theorem map {f g : α → β} (h : Lockstep a b stops) :
    Lockstep (a >>= fun v => pure (f v)) (b >>= fun w => pure (g w)) stops := by
  exact (h.bind fun v w => of_ok (f v) (g w)).congr (by simp)

/-- The `catch` clauses of `read_object`. -/
theorem inField (h : Lockstep a b stops) (name : Text) :
    Lockstep (inField .read name a) (inField .read name b) stops where
  own := by
    intro path cause herror
    cases a with
    | ok v => cases herror
    | error e =>
        cases path with
        | nil => cases herror
        | cons name' path =>
            obtain ⟨-, -, rfl⟩ := Exception.field.inj (Except.error.inj herror)
            exact h.own rfl
  of_stops hstops := by
    obtain ⟨path, cause, hmember, rfl⟩ := h.of_stops hstops
    exact ⟨name :: path, cause, hmember, rfl⟩
  of_not_stops hstops := by
    intro e
    have herrors := fun e => h.of_not_stops hstops (e := e)
    cases a with
    | ok v =>
        obtain ⟨w, rfl⟩ := (h.exists_ok_iff hstops).mpr ⟨v, rfl⟩
        exact iff_of_false (fun h => nomatch h) fun h => nomatch h
    | error e' => rw [(herrors e').mpr rfl]

/-- Two loops over the same items. -/
theorem collect {σ ι : Type} {f g : σ → ι → Result α} {store : σ → ι → α → σ} {items : List ι}
    (hf : Independent f store items) (hg : Independent g store items) {s : σ}
    {reads stops : ι → Prop} (hreads : ∀ item ∈ items, reads item ↔ ∃ v, f s item = .ok v)
    (h : ∀ item ∈ items, Lockstep (f s item) (g s item) (stops item)) :
    Lockstep (collect f store items s) (collect g store items s) (ComesTo reads stops items) := by
  refine ⟨?_, ?_, ?_⟩
  · intro path cause herror
    obtain ⟨before, item, after, rfl, -, hitem⟩ := (collect_eq_error_iff hf).mp herror
    exact (h item (by simp)).own hitem
  · intro hcomes
    obtain ⟨before, item, after, rfl, hbefore, hstops⟩ := hcomes.first
    obtain ⟨path, cause, hmember, hitem⟩ := (h item (by simp)).of_stops hstops
    refine ⟨path, cause, hmember, (collect_eq_error_iff hg).mpr ?_⟩
    refine ⟨before, item, after, rfl, ?_, hitem⟩
    intro earlier hearlier
    obtain ⟨hread, hgoes⟩ := hbefore earlier hearlier
    have hmem : earlier ∈ before ++ item :: after := List.mem_append_left _ hearlier
    exact ((h earlier hmem).exists_ok_iff hgoes).mpr ((hreads earlier hmem).mp hread)
  · intro hnot e
    rw [collect_eq_error_iff hg, collect_eq_error_iff hf]
    refine exists₃_congr fun before item after => and_congr_right ?_
    rintro rfl
    have hmem : ∀ earlier ∈ before, earlier ∈ before ++ item :: after :=
      fun earlier => List.mem_append_left _
    constructor
    · rintro ⟨hbefore, hitem⟩
      have hgoes : ∀ earlier ∈ before, ¬ stops earlier := fun earlier hearlier hstops =>
        (h earlier (hmem earlier hearlier)).not_ok_of_stops hstops (hbefore earlier hearlier)
      have hread : ∀ earlier ∈ before, ∃ v, f s earlier = .ok v := fun earlier hearlier =>
        ((h earlier (hmem earlier hearlier)).exists_ok_iff (hgoes earlier hearlier)).mp
          (hbefore earlier hearlier)
      have hlast : ¬ stops item := by
        intro hstops
        refine hnot ⟨before, item, after, rfl, ?_, hstops⟩
        intro earlier hearlier
        exact (hreads earlier (hmem earlier hearlier)).mpr (hread earlier hearlier)
      exact ⟨hread, ((h item (by simp)).of_not_stops hlast).mp hitem⟩
    · rintro ⟨hbefore, hitem⟩
      have hread : ∀ earlier ∈ before, reads earlier := fun earlier hearlier =>
        (hreads earlier (hmem earlier hearlier)).mpr (hbefore earlier hearlier)
      have hlast : ¬ stops item := fun hstops =>
        hnot ⟨before, item, after, rfl, hread, hstops⟩
      refine ⟨?_, ((h item (by simp)).of_not_stops hlast).mpr hitem⟩
      intro earlier hearlier
      have hgoes : ¬ stops earlier := by
        intro hstops
        obtain ⟨front, back, rfl⟩ := List.append_of_mem hearlier
        refine hnot ⟨front, earlier, back ++ item :: after, by simp, ?_, hstops⟩
        exact fun x hx => hread x (List.mem_append_left _ hx)
      exact ((h earlier (hmem earlier hearlier)).exists_ok_iff hgoes).mpr (hbefore earlier hearlier)

/-- One field of a struct, given the two reads of its own value. -/
theorem field {mode : MissingFields} (hmode : mode ≠ .throwException) {dropped : Bool}
    {fieldsOptional : Bool} {t : JType α} {name : Text} (hname : MemberName name) {json : Json}
    {target : α} {f g : Json → Result α} {misses : Json → Prop}
    (h : ∀ subkey, Lockstep (f subkey) (g subkey) (misses subkey)) :
    Lockstep (readField mode false fieldsOptional t name json target f)
      (readField (modeBelow dropped mode) false fieldsOptional t name json target g)
      (FieldMissesKey dropped fieldsOptional name json misses) := by
  cases hfind : json.find name with
  | some subkey =>
      rw [readField_of_find hfind, readField_of_find hfind]
      refine ((h subkey).inField name).congr ?_
      simp only [FieldMissesKey, hfind, Option.some.injEq, exists_eq_left', reduceCtorEq,
        false_and, or_false]
  | none =>
      have hstops : FieldMissesKey dropped fieldsOptional name json misses ↔
          dropped = true ∧ fieldsOptional = false := by
        simp only [FieldMissesKey, hfind, reduceCtorEq, false_and, exists_false, false_or, true_and]
      have hfirst : readField mode false fieldsOptional t name json target f =
          .ok (if mode = .defaultInitialize then valueInit t else target) :=
        (readField_of_missing_of_ne hmode hfind).mpr rfl
      rw [hfirst]
      by_cases hmissing : dropped = true ∧ fieldsOptional = false
      · obtain ⟨rfl, rfl⟩ := hmissing
        obtain ⟨cause, hmember, hat⟩ := aboutMember_of_missing hname hfind
        have hthrows : readField (modeBelow true mode) false false t name json target g =
            .error (nest [name] cause) := by
          unfold readField
          rw [if_pos (.inl ⟨rfl, by decide, by decide⟩), hat]
          rfl
        rw [hthrows]
        refine ⟨?_, ?_, ?_⟩
        · intro path cause herror
          cases herror
        · exact fun _ => ⟨[name], cause, hmember, rfl⟩
        · exact fun hgoes => absurd (hstops.mpr ⟨rfl, rfl⟩) hgoes
      · have hputUp : ¬ (modeBelow dropped mode = .throwException ∧ ¬ false = true ∧
            ¬ fieldsOptional = true) := by
          rintro ⟨hthrow, -, hoptional⟩
          refine hmissing ⟨?_, Bool.eq_false_iff.mpr hoptional⟩
          cases dropped with
          | true => rfl
          | false => exact absurd hthrow hmode
        rw [(readField_of_missing hfind).mpr ⟨hputUp, rfl⟩]
        exact (of_ok _ _).congr (iff_of_false not_false (mt hstops.mp hmissing))

end Lockstep

/-- The reader of the source against the one that keeps its settings. -/
theorem lockstep_readTo {mode : MissingFields} (hmode : mode ≠ .throwException) (t : JType α)
    (hnames : MemberNames t) (dropped : Bool) (json : Json) (target : α) :
    Lockstep (readThreaded mode t json target) (readTo (modeBelow dropped mode) t json target)
      (MissesKey dropped t json) := by
  induction t using @JType.rec _
    (fun {α} fs => MemberNamesFields fs → ∀ (dropped fieldsOptional : Bool) (json : Json)
      (target : α),
      Lockstep (readThreadedObject mode fieldsOptional fs json target)
        (readObject (modeBelow dropped mode) false fieldsOptional fs json target)
        (MissesKeyFields dropped fieldsOptional fs json))
    generalizing dropped json with
  | scalar codec =>
      rw [readThreaded, readTo, MissesKey]
      cases codec.get json with
      | some v => exact Lockstep.of_ok v v
      | none => exact Lockstep.of_json not_aboutMember_typeMustBe
  | string =>
      rw [readThreaded, readTo, MissesKey]
      cases json with
      | string s => exact Lockstep.of_ok s s
      | _ => exact Lockstep.of_json not_aboutMember_typeMustBe
  | json => exact Lockstep.of_ok json json
  | sequence t ih =>
      rw [readTo_sequence, readThreaded, MissesKey]
      exact Lockstep.collect (independent_of_const _ _ _) (independent_of_const _ _ _)
        (fun item _ => (readThreaded_ok_iff hmode t item (fresh t)).symm)
        fun item _ => ih hnames true item (fresh t)
  | array t n ih =>
      rw [readTo_array, readThreaded, MissesKey]
      exact (Lockstep.collect (independent_of_const _ _ _) (independent_of_const _ _ _)
        (fun item _ => (readThreaded_ok_iff hmode t item (fresh t)).symm)
        fun item _ => ih hnames true item (fresh t)).map
  | optional t ih =>
      rw [readTo_optional, readThreaded, MissesKey]
      unfold readOptional
      cases json.isNull with
      | true => exact (Lockstep.of_ok none none).congr (by simp)
      | false =>
          rw [if_neg Bool.false_ne_true, if_neg Bool.false_ne_true]
          exact ((ih hnames true json (fresh t)).map).congr (by simp)
  | map t ih =>
      rw [readTo_map, readThreaded, MissesKey]
      have hat : ∀ pair : Text × Json,
          (∃ value, json.atKey pair.1 = .ok value) ↔ (json.find pair.1).isSome := by
        intro pair
        simp only [atKey_eq_ok_iff, Option.isSome_iff_exists]
      refine Lockstep.collect (independent_items _ _ _) (independent_items _ _ _) ?_ ?_
      · intro pair _
        rw [← hat, ← readThreaded_ok_iff hmode t pair.2 (target[pair.1]?.getD (valueInit t))]
        simp only [bind_eq_ok_iff]
        rw [exists_comm]
        simp only [exists_and_left, exists_and_right]
      · intro pair hpair
        have hkey : Lockstep (json.atKey pair.1) (json.atKey pair.1) False := by
          cases hrun : json.atKey pair.1 with
          | ok value => exact Lockstep.of_ok value value
          | error e =>
              obtain ⟨path, cause, ⟨rfl, hcause⟩, rfl⟩ := (throws_atKey json pair.1 e).mp hrun
              exact Lockstep.of_json (not_aboutMember_of_items hpair hcause)
        refine (hkey.bind fun _ _ => ih hnames true pair.2 _).congr ?_
        rw [false_or, hat]
  | struct fieldsOptional fs ih =>
      rw [readTo, readThreaded, MissesKey]
      exact ih hnames dropped fieldsOptional json target
  | last name init t ih hnames dropped fieldsOptional json target =>
      rw [readThreadedObject, readObject, MissesKeyFields]
      exact Lockstep.field hmode hnames.1 fun subkey => ih hnames.2 dropped subkey target
  | cons name init t fs ih ihfs hnames dropped fieldsOptional json target =>
      obtain ⟨target, targets⟩ := target
      rw [readThreadedObject, readObject, MissesKeyFields]
      refine ((Lockstep.field hmode hnames.1.1 fun subkey =>
        ih hnames.1.2 dropped subkey target).bind fun v w =>
          (ihfs hnames.2 dropped fieldsOptional json targets).map).congr ?_
      apply or_congr_right
      apply and_congr_left'
      rw [readField_ok_iff hmode]
      exact forall₂_congr fun subkey _ => readThreaded_ok_iff hmode t subkey target

/-- With the mode that throws there is nothing to lose on the way. -/
theorem readThreaded_throwException (t : JType α) (json : Json) (target : α) :
    readThreaded .throwException t json target = readTo .throwException t json target := by
  induction t using @JType.rec _
    (fun {α} fs => ∀ (fieldsOptional : Bool) (json : Json) (target : α),
      readThreadedObject .throwException fieldsOptional fs json target =
        readObject .throwException false fieldsOptional fs json target) generalizing json with
  | scalar codec => rfl
  | string => rfl
  | json => rfl
  | sequence t ih =>
      rw [readThreaded, readTo_sequence]
      simp only [ih]
  | array t n ih =>
      rw [readThreaded, readTo_array]
      simp only [ih]
  | optional t ih =>
      rw [readThreaded, readTo_optional]
      simp only [ih]
  | map t ih =>
      have hsame : readThreaded .throwException t = readTo .throwException t :=
        funext fun json => funext fun target => ih json target
      rw [readThreaded, readTo_map, hsame]
  | struct fieldsOptional fs ih =>
      rw [readThreaded, readTo]
      exact ih fieldsOptional json target
  | last name init t ih fieldsOptional json target =>
      rw [readThreadedObject, readObject]
      simp only [ih]
  | cons name init t fs ih ihfs fieldsOptional json target =>
      obtain ⟨target, targets⟩ := target
      rw [readThreadedObject, readObject]
      simp only [ih, ihfs]

/-! ## The settings -/

/-- A read comes to what it would if the mode reached every struct: it returns the same value or
throws the same exception. -/
def SettingsReach (mode : MissingFields) (t : JType α) (json : Json) (target : α) : Prop :=
  readTo mode t json target = readThreaded mode t json target

/-- The settings reach every depth, if and only if the mode is the one that throws anyway, or
every value that is there can be read and below the containers, optionals and maps no key is
missing that would be treated otherwise, or a value that is there cannot be read and no such
key is missing in front of it. -/
theorem settingsReach_iff (mode : MissingFields) (t : JType α) (hnames : MemberNames t)
    (json : Json) (target : α) :
    SettingsReach mode t json target ↔
      mode = .throwException ∨
        (Readable t json ∧ Complete mode false true t json target) ∨
          (¬ Readable t json ∧ ¬ MissesKey false t json) := by
  unfold SettingsReach
  by_cases hmode : mode = .throwException
  · subst hmode
    rw [readThreaded_throwException]
    exact iff_of_true rfl (Or.inl rfl)
  · have hlockstep := lockstep_readTo hmode t hnames false json target
    have htracks := tracks_readTo hmode t false json target
    rw [or_iff_right hmode, ← readThreaded_ok_iff hmode t json target]
    cases hthreaded : readThreaded mode t json target with
    | ok v =>
        have hok : ∃ w, (Except.ok v : Result α) = .ok w := ⟨v, rfl⟩
        simp only [hok, true_and, not_true_eq_false, false_and, or_false]
        exact htracks.same_iff hthreaded
    | error e =>
        have hnone : ¬ ∃ w, (Except.error e : Result α) = .ok w := fun ⟨w, hw⟩ => nomatch hw
        simp only [hnone, false_and, not_false_eq_true, true_and, false_or]
        constructor
        · intro hread hmisses
          obtain ⟨path, cause, hmember, herror⟩ := hlockstep.of_stops hmisses
          have hsame : readTo mode t json target = .error (nest path cause) := herror
          rw [hread, ← hthreaded] at hsame
          exact hlockstep.own hsame hmember
        · intro hgoes
          exact (hlockstep.of_not_stops hgoes).mpr hthreaded

/-- A struct with one flag. -/
def flagStruct : JType Bool := .struct false (.last [102] none (.scalar boolCodec))

/-- Digits are no names. -/
theorem memberName_of_letter {c : UInt8} {name : Text} (h : 57 < c) : MemberName (c :: name) := by
  refine ⟨List.cons_ne_nil _ _, ?_⟩
  intro i hi
  have hmem : c ∈ text (toString i) := by
    rw [← hi]
    exact List.mem_cons_self
  obtain ⟨digit, hdigit, rfl⟩ := List.mem_map.mp hmem
  have hindex : digit ∈ Nat.toDigits 10 i := by rwa [← Nat.toList_repr]
  have hnine := (Char.isDigit_iff_toNat.mp (Nat.isDigit_of_mem_toDigits (by decide) (by decide)
    hindex)).2
  have hbound : digit.toNat ≤ 57 := hnine
  rw [UInt8.lt_iff_toNat_lt, UInt8.toNat_ofNat'] at h
  have hsmall : (57 : UInt8).toNat = 57 := rfl
  omega

/-- In a struct inside a struct a key may be missing, if it is said so. -/
theorem settings_reach_nested :
    SettingsReach .ignore (.struct false (.last [103] none flagStruct))
      (.object [([103], .object [])]) true := by
  have hnames : MemberNames (.struct false (.last [103] none flagStruct)) :=
    ⟨memberName_of_letter (by decide), memberName_of_letter (by decide), trivial⟩
  refine (settingsReach_iff .ignore _ hnames _ true).mpr (.inr (.inl ⟨?_, ?_, ?_⟩))
  · rintro subkey hfind inner hinner
    cases hfind
    cases hinner
  · rintro subkey hfind
    cases hfind
    refine ⟨?_, ?_⟩
    · rintro inner hinner
      cases hinner
    · intro _ hdropped
      cases hdropped
  · intro _ hdropped
    cases hdropped

/-- With `missing_fields::ignore` a struct is read from an object without its key, but a vector
of such structs is not, even if the next struct could not be read anyway. -/
theorem settings_do_not_reach_vector :
    read .ignore flagStruct (.object []) = .ok false ∧
      (read .ignore (.sequence flagStruct) (.array [.object []]) =
          .error (.field .read [102] (.json (.keyNotFound [102]))) ∧
        ¬ SettingsReach .ignore (.sequence flagStruct) (.array [.object []]) []) ∧
      ¬ SettingsReach .ignore (.sequence flagStruct)
        (.array [.object [], .object [([102], .integer 5)]]) [] := by
  refine ⟨rfl, ⟨rfl, ?_⟩, ?_⟩
  · intro hreach
    have hread : readTo .ignore (.sequence flagStruct) (.array [.object []]) [] =
        .error (.field .read [102] (.json (.keyNotFound [102]))) := rfl
    have hthreaded : readThreaded .ignore (.sequence flagStruct) (.array [.object []]) [] =
        .ok [false] := rfl
    unfold SettingsReach at hreach
    rw [hread, hthreaded] at hreach
    cases hreach
  · intro hreach
    have hread : readTo .ignore (.sequence flagStruct)
        (.array [.object [], .object [([102], .integer 5)]]) [] =
          .error (.field .read [102] (.json (.keyNotFound [102]))) := rfl
    have hthreaded : readThreaded .ignore (.sequence flagStruct)
        (.array [.object [], .object [([102], .integer 5)]]) [] =
          .error (.field .read [102] (.json (.typeMustBe .boolean .number))) := rfl
    unfold SettingsReach at hreach
    rw [hread, hthreaded] at hreach
    cases hreach

end BacsEnv.Bpjson
