import BacsEnv.Analysis.Bpacs.Registry
import BacsEnv.Analysis.Plakpacs.Overwrite
import BacsEnv.Analysis.Plakpacs.RoundTrip
import BacsEnv.Model.Plakpacs.Registered

/-!
# Objects of a registered class on the wire

`serializer::write_object` and `read_object` on an object are those of the `struct` of the fields
that `bpacs` visits, on the tuple of the members (`writeRegistered_eq`,
`readRegistered_ok_iff`). So what holds of structs holds of objects, and what the
serializer leaves alone is all of the object that no visited member shows.
-/

set_option autoImplicit false

namespace BacsEnv.Plakpacs

open Bpacs StatefulRun ReadStream

variable {Holder : Type}

/-- The fields as those of a `struct`. The object that is read into is there already, so it
does not matter how it was initialised. -/
def toFields : (field : FieldMeta Schema Holder) → (fields : List (FieldMeta Schema Holder)) →
    Fields (Member.Values FieldMeta.α field fields)
  | field, [] => .last field.name none field.type
  | field, next :: fields => .cons field.name none field.type (toFields next fields)

/-! ## Refinement -/

theorem foldl_write_eq (uninit : ℕ → UInt8) (field : FieldMeta Schema Holder)
    (fields : List (FieldMeta Schema Holder)) (object : Holder) (ws : WriteStream) :
    (field :: fields).foldl
        (fun ws field => write uninit field.type (field.member.get object) ws) ws =
      writeObject uninit (toFields field fields) (membersOf field fields object) ws := by
  induction fields generalizing field ws with
  | nil => rfl
  | cons next fields ih =>
      rw [List.foldl_cons, ih]
      rfl

/-- Writing an object is writing the `struct` of its members. -/
theorem writeRegistered_eq (uninit : ℕ → UInt8) {registry : Registry Schema Holder}
    {field : FieldMeta Schema Holder} {fields : List (FieldMeta Schema Holder)}
    (hfields : registry.iterateFields = field :: fields) (holder : Text) (object : Holder)
    (ws : WriteStream) :
    writeRegistered uninit registry object ws =
      write uninit (.struct holder (toFields field fields)) (membersOf field fields object) ws := by
  rw [writeRegistered, hfields]
  exact foldl_write_eq uninit field fields object ws

theorem readMember_ok_iff {G : Guard} {field : FieldMeta Schema Holder}
    {object object' : Holder} {rs rs' : ReadStream} :
    readMember G object field rs = .ok object' rs' ↔
      ∃ value, read G field.type (field.member.get object) rs = .ok value rs' ∧
        object' = field.member.set value object := by
  simp only [readMember, bind_ok_iff, inField_ok_iff]
  constructor
  · rintro ⟨value, rs₁, hvalue, hset⟩
    obtain ⟨rfl, rfl⟩ := EStateM.Result.ok.inj hset
    exact ⟨value, hvalue, rfl⟩
  · rintro ⟨value, hvalue, rfl⟩
    exact ⟨value, rs', hvalue, rfl⟩

theorem foldlM_readMember_ok_iff {G : Guard} {holder : Text} {field : FieldMeta Schema Holder}
    {fields : List (FieldMeta Schema Holder)}
    (hapart : (field :: fields).Pairwise fun f g => f.member.Apart g.member)
    {object object' : Holder} {rs rs' : ReadStream} :
    (field :: fields).foldlM (readMember G) object rs = .ok object' rs' ↔
      ∃ v, readObject G holder (toFields field fields) (membersOf field fields object) rs =
        .ok v rs' ∧ object' = withMembers field fields v object := by
  induction fields generalizing field object rs with
  | nil =>
      rw [List.foldlM_cons]
      simp only [bind_ok_iff, readMember_ok_iff, List.foldlM_nil]
      constructor
      · rintro ⟨next, rs₁, ⟨value, hvalue, rfl⟩, hpure⟩
        obtain ⟨rfl, rfl⟩ := EStateM.Result.ok.inj hpure
        exact ⟨value, inField_ok_iff.mpr hvalue, rfl⟩
      · rintro ⟨value, hvalue, rfl⟩
        exact ⟨_, rs', ⟨value, inField_ok_iff.mp hvalue, rfl⟩, rfl⟩
  | cons next fields ih =>
      obtain ⟨hfirst, hrest⟩ := List.pairwise_cons.mp hapart
      rw [List.foldlM_cons]
      simp only [bind_ok_iff, readMember_ok_iff, ih hrest]
      constructor
      · rintro ⟨middle, rs₁, ⟨value, hvalue, rfl⟩, v, hv, rfl⟩
        -- The members behind the first are as they were before it was assigned.
        rw [membersOf, Member.project_set hfirst] at hv
        exact ⟨(value, v), readObject_cons_ok_iff.mpr ⟨rs₁, hvalue, hv⟩, rfl⟩
      · rintro ⟨v, hread, rfl⟩
        obtain ⟨rs₁, hvalue, hv⟩ := readObject_cons_ok_iff.mp hread
        refine ⟨_, rs₁, ⟨v.1, hvalue, rfl⟩, v.2, ?_, rfl⟩
        rw [membersOf, Member.project_set hfirst]
        exact hv

/-- A read into an object returns when one of the `struct` of its members does, and assigns
what that one returns. -/
theorem readRegistered_ok_iff {G : Guard} {registry : Registry Schema Holder}
    (hapart : registry.MembersApart) {field : FieldMeta Schema Holder}
    {fields : List (FieldMeta Schema Holder)}
    (hfields : registry.iterateFields = field :: fields) (holder : Text)
    {object object' : Holder} {rs rs' : ReadStream} :
    readRegistered G registry object rs = .ok object' rs' ↔
      ∃ v, read G (.struct holder (toFields field fields)) (membersOf field fields object) rs =
        .ok v rs' ∧ object' = withMembers field fields v object := by
  have hpairwise := Registry.Pairwise.iterateFields hapart
  rw [hfields] at hpairwise
  rw [readRegistered, hfields]
  exact foldlM_readMember_ok_iff hpairwise

/-! ## What is asked of the members -/

theorem cleanFields_toFields_iff {field : FieldMeta Schema Holder}
    {fields : List (FieldMeta Schema Holder)} {a b : Holder} :
    CleanFields (toFields field fields) (membersOf field fields b) (membersOf field fields a) ↔
      ∀ f ∈ field :: fields, Clean f.type (f.member.get b) (f.member.get a) := by
  induction fields generalizing field with
  | nil =>
      rw [List.forall_mem_singleton]
      exact Iff.rfl
  | cons next fields ih =>
      rw [List.forall_mem_cons, ← ih]
      exact Iff.rfl

/-- The members are representable when each of them is. -/
theorem representable_toFields {field : FieldMeta Schema Holder}
    {fields : List (FieldMeta Schema Holder)} {a : Holder}
    (h : ∀ f ∈ field :: fields, Representable f.type (f.member.get a)) :
    WithinLimitsFields (toFields field fields) (membersOf field fields a) ∧
      emptyCountFields (toFields field fields) (membersOf field fields a) = 0 := by
  induction fields generalizing field with
  | nil => exact h field (List.mem_singleton_self field)
  | cons next fields ih =>
      obtain ⟨⟨hlimits, hempty⟩, hrest⟩ := List.forall_mem_cons.mp h
      obtain ⟨hlimits', hempty'⟩ := ih hrest
      exact ⟨⟨hlimits, hlimits'⟩, Nat.add_eq_zero_iff.mpr ⟨hempty, hempty'⟩⟩

/-! ## From one object to another -/

/-- The bytes of an object, read into another one, transfer the visited members and nothing
else, exactly when each of these is clean in the object that is read into. -/
theorem object_transferred_iff (uninit : ℕ → UInt8) {registry : Registry Schema Holder}
    (hreflected : registry.hasBpReflection = true) (hapart : registry.MembersApart)
    {a b : Holder}
    (ha : ∀ I field, registry.fieldMeta I = some field → registry.Visited I →
      Representable field.type (field.member.get a))
    {rs : ReadStream} {rest : List UInt8}
    (hrs : rs.remaining = writtenRegistered uninit registry a ++ rest) :
    (∃ b' rs', readRegistered canReadNum registry b rs = .ok b' rs' ∧ rs'.remaining = rest ∧
        registry.Transferred a b b') ↔
      ∀ I field, registry.fieldMeta I = some field → registry.Visited I →
        Clean field.type (field.member.get b) (field.member.get a) := by
  obtain ⟨field, fields, hfields⟩ := Registry.exists_iterateFields hreflected
  rw [← Registry.forall_iterateFields_iff] at ha ⊢
  rw [hfields] at ha ⊢
  have hrepresentable : Representable (.struct [] (toFields field fields))
      (membersOf field fields a) := representable_toFields ha
  rw [writtenRegistered, writeRegistered_eq uninit hfields []] at hrs
  have hwire : rs.remaining =
      wire (.struct [] (toFields field fields)) (membersOf field fields a) ++ rest :=
    hrs.trans (congrArg (· ++ rest) (written_eq_wire uninit hrepresentable.2))
  have hread : ∀ rs', read canReadNum (.struct [] (toFields field fields))
      (membersOf field fields b) rs = .ok (membersOf field fields a) rs' ↔ _ :=
    fun rs' => read_wire_iff_clean hrepresentable hwire
  rw [← cleanFields_toFields_iff]
  constructor
  · rintro ⟨b', rs', hregistered, -, htransferred⟩
    obtain ⟨v, hv, rfl⟩ := (readRegistered_ok_iff hapart hfields []).mp hregistered
    have hpairwise := Registry.Pairwise.iterateFields hapart
    rw [hfields] at hpairwise
    have hvisited := Registry.forall_iterateFields_iff.mpr htransferred.visited
    rw [hfields] at hvisited
    -- What was read is what the members of `a` hold.
    have hsame : v = membersOf field fields a :=
      (Member.project_assign hpairwise v b).symm.trans (Member.project_eq_iff.mpr hvisited)
    rw [hsame] at hv
    exact ((hread rs').mp hv).2
  · intro hclean
    exact ⟨_, _, (readRegistered_ok_iff hapart hfields []).mpr
      ⟨_, (hread _).mpr ⟨rfl, hclean⟩, rfl⟩, remaining_advance _ hwire,
      Registry.transferred_assign hapart hfields a b⟩

/-- A class with three members. -/
structure Profile where
  visible : UInt8
  name : Text
  admin : UInt8

/-- `visible` and `name` are registered at `0` and `1`, and `admin` at `3`. -/
def profileRegistry : Registry Schema Profile where
  specialisations :=
    [some ⟨text "Profile", text "visible", UInt8, .bool,
        ⟨Profile.visible, fun v p => { p with visible := v }, fun _ _ => rfl⟩⟩,
      some ⟨text "Profile", text "name", Text, .string,
        ⟨Profile.name, fun v p => { p with name := v }, fun _ _ => rfl⟩⟩,
      none,
      some ⟨text "Profile", text "admin", UInt8, .bool,
        ⟨Profile.admin, fun v p => { p with admin := v }, fun _ _ => rfl⟩⟩]

theorem profileRegistry_membersApart : profileRegistry.MembersApart := by
  apply Registry.membersApart_of_specialisations
  simp only [profileRegistry, List.pairwise_cons, List.mem_cons, List.not_mem_nil, or_false,
    forall_eq_or_imp, forall_eq, Option.mem_def, Option.some.injEq, forall_eq',
    reduceCtorEq, false_implies, implies_true, and_true, true_and, List.Pairwise.nil]
  exact ⟨⟨⟨fun _ _ => rfl, fun _ _ => rfl⟩, ⟨fun _ _ => rfl, fun _ _ => rfl⟩⟩,
    ⟨fun _ _ => rfl, fun _ _ => rfl⟩⟩

/-- The flag and the name of a profile come over; that it is an administrator's does not. -/
theorem object_transferred_profile :
    ∃ b' rs', readRegistered canReadNum profileRegistry ⟨0, [], 0⟩
        (ofBytes [1, 65, 0] (by decide)) = .ok b' rs' ∧ rs'.remaining = [] ∧
      profileRegistry.Transferred ⟨1, text "A", 1⟩ ⟨0, [], 0⟩ b' := by
  have hwritten : (ofBytes [1, 65, 0] (by decide)).remaining =
      writtenRegistered (fun _ => 0) profileRegistry ⟨1, text "A", 1⟩ ++ [] := rfl
  refine (object_transferred_iff (fun _ => 0) rfl profileRegistry_membersApart ?_ hwritten).mpr ?_
  · rw [← Registry.forall_iterateFields_iff]
    simp [profileRegistry, Registry.iterateFields, fieldIterator, Representable, WithinLimits,
      emptyCount, text]
  · rw [← Registry.forall_iterateFields_iff]
    simp [profileRegistry, Registry.iterateFields, fieldIterator, Clean]

end BacsEnv.Plakpacs
