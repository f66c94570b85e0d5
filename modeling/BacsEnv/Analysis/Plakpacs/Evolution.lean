import BacsEnv.Analysis.Plakpacs.RoundTrip

/-!
# Messages with appended optionals

A schema evolves by appending `std::optional` fields to a struct that is the last
thing of the message: to the message itself, to its last field, to the last field
of that field, and so on. `Evolves s s' x` says that `s'` is `s` after such steps;
the `Extension` `x` says what a value of `s'` holds in the place of one of `s`.

A reader of `s'` finds the stream exhausted where the appended fields would begin and
leaves the appended optionals of its target alone, and a reader of `s` stops there
(`trailing_optionals_iff`).
-/

set_option autoImplicit false

namespace BacsEnv.Plakpacs

open StatefulRun ReadStream

/-- A row of `std::optional` fields with their default member initialisers. -/
inductive Optionals : Type → Type 1
  | last {α : Type} (name : Text) (init : Option (Option α)) (s : Schema α) :
      Optionals (Option α)
  | cons {α γ : Type} (name : Text) (init : Option (Option α)) (s : Schema α)
      (os : Optionals γ) : Optionals (Option α × γ)

namespace Optionals

/-- The row as fields of a struct. -/
def fields {γ : Type} : Optionals γ → Fields γ
  | .last name init s => .last name init (.optional s)
  | .cons name init s os => .cons name init (.optional s) os.fields

/-- The row with every optional disengaged. -/
def disengaged {γ : Type} : Optionals γ → γ
  | .last _ _ _ => none
  | .cons _ _ _ os => (none, os.disengaged)

end Optionals

/-- The bytes of `serializer::write_object` on a new stream. -/
def writtenFields (uninit : ℕ → UInt8) {α : Type} (fs : Fields α) (v : α) : List UInt8 :=
  (writeObject uninit fs v {}).bytes

/-- What a value of an extended type `β` holds in the place of a value of `α`. -/
structure Extension (α β : Type) where
  /-- The fields of the old type. -/
  old : β → α
  /-- The encoding of the appended fields, in order. -/
  appended : (ℕ → UInt8) → β → List UInt8
  /-- Every appended optional is disengaged. -/
  Disengaged : β → Prop

namespace Extension

/-- Nothing is appended. -/
def same (α : Type) : Extension α α :=
  { old := id, appended := fun _ _ => [], Disengaged := fun _ => True }

/-- The constraints of the old type, on the old fields. -/
def constraints {α β : Type} (x : Extension α β) (cs : List (α → Bool)) : List (β → Bool) :=
  cs.map fun check v => check (x.old v)

theorem all_constraints {α β : Type} (x : Extension α β) (cs : List (α → Bool)) (v : β) :
    (x.constraints cs).all (fun check => check v) = cs.all (fun check => check (x.old v)) := by
  unfold constraints
  rw [List.all_map]
  rfl

/-- A row of optionals is appended behind an extended value. -/
def append {α β γ : Type} (x : Extension α β) (os : Optionals γ) : Extension α (β × γ) :=
  { old := fun v => x.old v.1
    appended := fun uninit v => x.appended uninit v.1 ++ writtenFields uninit os.fields v.2
    Disengaged := fun v => x.Disengaged v.1 ∧ v.2 = os.disengaged }

/-- An unchanged field stands before an extended value. -/
def after {α β : Type} (δ : Type) (x : Extension α β) : Extension (δ × α) (δ × β) :=
  { old := fun v => (v.1, x.old v.2)
    appended := fun uninit v => x.appended uninit v.2
    Disengaged := fun v => x.Disengaged v.2 }

end Extension

mutual

/-- `s'` is `s` with optionals appended at the end of the message. -/
inductive Evolves : ∀ {α β : Type}, Schema α → Schema β → Extension α β → Prop
  | same {α : Type} (s : Schema α) : Evolves s s (.same α)
  | constrained {α β : Type} {s : Schema α} {s' : Schema β} {x : Extension α β}
      (cs : List (α → Bool)) (h : Evolves s s' x) :
      Evolves (.constrained s cs) (.constrained s' (x.constraints cs)) x
  | struct {α β : Type} {fs : Fields α} {fs' : Fields β} {x : Extension α β}
      (holder holder' : Text) (h : FieldsEvolve fs fs' x) :
      Evolves (.struct holder fs) (.struct holder' fs') x

/-- The fields `fs'` are `fs` with optionals appended at the end of the message. -/
inductive FieldsEvolve : ∀ {α β : Type}, Fields α → Fields β → Extension α β → Prop
  | last {α β : Type} {s : Schema α} {s' : Schema β} {x : Extension α β}
      (name : Text) (init : Option α) (init' : Option β) (h : Evolves s s' x) :
      FieldsEvolve (.last name init s) (.last name init' s') x
  | append {α β γ : Type} {s : Schema α} {s' : Schema β} {x : Extension α β}
      (name : Text) (init : Option α) (init' : Option β) (h : Evolves s s' x)
      (os : Optionals γ) :
      FieldsEvolve (.last name init s) (.cons name init' s' os.fields) (x.append os)
  | cons {δ α β : Type} {fs : Fields α} {fs' : Fields β} {x : Extension α β}
      (name : Text) (init init' : Option δ) (s : Schema δ) (h : FieldsEvolve fs fs' x) :
      FieldsEvolve (.cons name init s fs) (.cons name init' s fs') (x.after δ)

end

/-! ## The end of the stream -/

/-- Behind the last byte of a buffer that is not empty nothing can be read. -/
theorem canRead_behind {rs : ReadStream} {bs : List UInt8} (hbytes : rs.bytes ≠ [])
    (h : rs.remaining = bs) : canRead canReadNum (rs.advance bs.length) = false := by
  have hrest : (rs.advance bs.length).remaining = [] :=
    remaining_advance bs (by rw [h, List.append_nil])
  have hlen := congrArg List.length hrest
  have hpos := List.length_pos_iff.mpr hbytes
  rw [length_remaining, List.length_nil] at hlen
  cases hcan : canRead canReadNum (rs.advance bs.length) with
  | false => rfl
  | true =>
      have hfit := (canReadNum_iff (rs.advance bs.length) (n := 1) hpos).mp hcan
      omega

/-- At the end of the stream nothing stands for a row of optionals. -/
theorem Optionals.decodes_of_end {γ : Type} (os : Optionals γ) {rs : ReadStream}
    (h : canRead canReadNum rs = false) :
    DecodesFields canReadNum os.fields rs os.disengaged rs := by
  induction os with
  | last name init s => exact .inl ⟨h, rfl, rfl⟩
  | cons name init s os ih => exact ⟨rs, .inl ⟨h, rfl, rfl⟩, ih⟩

/-- A row of optionals that nothing stands for keeps what it holds. -/
theorem Optionals.merge_disengaged {γ : Type} (os : Optionals γ) (t : γ) :
    mergeFields os.fields t os.disengaged = t ∧ SatisfiedFields os.fields t os.disengaged := by
  induction os with
  | last name init s => exact ⟨rfl, by simp [fields, disengaged, SatisfiedFields, Satisfied]⟩
  | cons name init s os ih =>
      refine ⟨Prod.ext rfl (ih t.2).1, ?_, (ih t.2).2⟩
      simp [disengaged, Satisfied]

/-! ## The old fields of an extended value -/

/-- Fields without values of empty classes are written as their wire format. -/
theorem writtenFields_eq_wireFields (uninit : ℕ → UInt8) {α : Type} {fs : Fields α} {v : α}
    (h : emptyCountFields fs v = 0) : writtenFields uninit fs v = wireFields fs v := by
  have hstruct : written uninit (.struct [] fs) v = wire (.struct [] fs) v :=
    written_eq_wire uninit h
  exact hstruct

/-- The old fields of an extended value that can be carried can be carried, and their
encoding stands before that of the appended fields. -/
theorem Evolves.old_carried (uninit : ℕ → UInt8) {α β : Type} {s : Schema α} {s' : Schema β}
    {x : Extension α β} (h : Evolves s s' x) :
    ∀ v, Representable s' v →
      Representable s (x.old v) ∧ wire s' v = wire s (x.old v) ++ x.appended uninit v := by
  induction h using @Evolves.rec _
    (fun fs fs' x _ => ∀ v, WithinLimitsFields fs' v → emptyCountFields fs' v = 0 →
      (WithinLimitsFields fs (x.old v) ∧ emptyCountFields fs (x.old v) = 0) ∧
        wireFields fs' v = wireFields fs (x.old v) ++ x.appended uninit v) with
  | same s =>
      intro v hv
      exact ⟨hv, (List.append_nil _).symm⟩
  | constrained cs h ih =>
      intro v hv
      obtain ⟨⟨hlim, hcs⟩, hempty⟩ := hv
      obtain ⟨⟨hlim', hempty'⟩, hwire⟩ := ih v ⟨hlim, hempty⟩
      rw [Extension.all_constraints] at hcs
      exact ⟨⟨⟨hlim', hcs⟩, hempty'⟩, hwire⟩
  | struct holder holder' h ih =>
      intro v hv
      exact ih v hv.1 hv.2
  | last name init init' h ih v hlim hempty => exact ih v ⟨hlim, hempty⟩
  | append name init init' h os ih v hlim hempty =>
      obtain ⟨hlim₁, hlim₂⟩ := hlim
      obtain ⟨hempty₁, hempty₂⟩ := Nat.add_eq_zero_iff.mp hempty
      obtain ⟨hv, hwire⟩ := ih v.1 ⟨hlim₁, hempty₁⟩
      refine ⟨hv, ?_⟩
      simp only [Extension.append, wireFields]
      rw [hwire, writtenFields_eq_wireFields uninit hempty₂, List.append_assoc]
  | cons name init init' s h ih v hlim hempty =>
      obtain ⟨hlim₁, hlim₂⟩ := hlim
      obtain ⟨hempty₁, hempty₂⟩ := Nat.add_eq_zero_iff.mp hempty
      obtain ⟨⟨hlim', hempty'⟩, hwire⟩ := ih v.2 hlim₂ hempty₂
      refine ⟨⟨⟨hlim₁, hlim'⟩, Nat.add_eq_zero_iff.mpr ⟨hempty₁, hempty'⟩⟩, ?_⟩
      simp only [Extension.after, wireFields]
      rw [hwire, List.append_assoc]

/-! ## A new reader on old bytes -/

/-- For a reader of the extended type the bytes of an old value, when they end a stream that
is not empty, stand for its fields and disengaged optionals. -/
theorem Evolves.decodes_of_old {α β : Type} {s : Schema α} {s' : Schema β} {x : Extension α β}
    (h : Evolves s s' x) :
    ∀ v, Representable s v → ∀ rs : ReadStream, rs.bytes ≠ [] → rs.remaining = wire s v →
      ∃ w, Decodes canReadNum s' rs w (rs.advance (wire s v).length) ∧
        x.old w = v ∧ x.Disengaged w := by
  induction h using @Evolves.rec _
    (fun fs fs' x _ => ∀ v, WithinLimitsFields fs v → emptyCountFields fs v = 0 →
      ∀ rs : ReadStream, rs.bytes ≠ [] → rs.remaining = wireFields fs v →
        ∃ w, DecodesFields canReadNum fs' rs w (rs.advance (wireFields fs v).length) ∧
          x.old w = v ∧ x.Disengaged w) with
  | same s =>
      intro v hv rs _ hrem
      have hdec := decodes_of_wire s v hv rs [] (by rw [hrem, List.append_nil])
      exact ⟨v, hdec, rfl, trivial⟩
  | constrained cs h ih =>
      intro v hv rs hbytes hrem
      exact ih v ⟨hv.1.1, hv.2⟩ rs hbytes hrem
  | struct holder holder' h ih =>
      intro v hv rs hbytes hrem
      exact ih v hv.1 hv.2 rs hbytes hrem
  | last name init init' h ih v hlim hempty rs hbytes hrem =>
      exact ih v ⟨hlim, hempty⟩ rs hbytes hrem
  | append name init init' h os ih v hlim hempty rs hbytes hrem =>
      simp only [wireFields] at hrem ⊢
      obtain ⟨w, hdec, hold, hnone⟩ := ih v ⟨hlim, hempty⟩ rs hbytes hrem
      have hend := canRead_behind hbytes hrem
      exact ⟨(w, os.disengaged), ⟨_, hdec, os.decodes_of_end hend⟩, hold, hnone, rfl⟩
  | cons name init init' s h ih v hlim hempty rs hbytes hrem =>
      obtain ⟨hempty₁, hempty₂⟩ := Nat.add_eq_zero_iff.mp hempty
      have hfirst := decodes_of_wire s v.1 ⟨hlim.1, hempty₁⟩ rs _ hrem
      obtain ⟨w, hdec, hold, hnone⟩ :=
        ih v.2 hlim.2 hempty₂ (rs.advance _) hbytes (remaining_advance _ hrem)
      refine ⟨(v.1, w), ?_, Prod.ext rfl hold, hnone⟩
      rw [advance_advance, ← List.length_append] at hdec
      exact ⟨_, hfirst, hdec⟩

/-- What a reader of the extended type leaves in its target: the old fields are those that a
reader of the old type leaves, and the appended optionals are left alone. -/
theorem Evolves.merge_of_old {α β : Type} {s : Schema α} {s' : Schema β} {x : Extension α β}
    (h : Evolves s s' x) :
    ∀ t w, x.Disengaged w →
      x.old (merge s' t w) = merge s (x.old t) (x.old w) ∧
        (x.Disengaged (merge s' t w) ↔ x.Disengaged t) ∧
        (Satisfied s' t w ↔ Satisfied s (x.old t) (x.old w)) := by
  induction h using @Evolves.rec _
    (fun fs fs' x _ => ∀ t w, x.Disengaged w →
      x.old (mergeFields fs' t w) = mergeFields fs (x.old t) (x.old w) ∧
        (x.Disengaged (mergeFields fs' t w) ↔ x.Disengaged t) ∧
        (SatisfiedFields fs' t w ↔ SatisfiedFields fs (x.old t) (x.old w))) with
  | same s => exact fun t w _ => ⟨rfl, Iff.rfl, Iff.rfl⟩
  | constrained cs h ih =>
      intro t w hw
      obtain ⟨hold, hnone, hsat⟩ := ih t w hw
      refine ⟨hold, hnone, ?_⟩
      rw [Satisfied, Satisfied, Extension.all_constraints, hold, hsat]
  | struct holder holder' h ih => exact ih
  | last name init init' h ih t w hw => exact ih t w hw
  | append name init init' h os ih t w hw =>
      obtain ⟨hw₁, hw₂⟩ := hw
      obtain ⟨hold, hnone, hsat⟩ := ih t.1 w.1 hw₁
      obtain ⟨hkept, hfree⟩ := os.merge_disengaged t.2
      rw [← hw₂] at hkept hfree
      refine ⟨hold, ?_, ?_⟩
      · exact and_congr hnone (by rw [mergeFields, hkept])
      · exact (and_iff_left hfree).trans hsat
  | cons name init init' s h ih t w hw =>
      obtain ⟨hold, hnone, hsat⟩ := ih t.2 w.2 hw
      exact ⟨Prod.ext rfl hold, hnone, and_congr_right fun _ => hsat⟩

/-! ## Both directions -/

/-- A stream from which the bytes `before` have been read. -/
def afterBytes (before bytes : List UInt8) (h : (before ++ bytes).length < sizeRange) :
    ReadStream :=
  { bytes := before ++ bytes, position := before.length, size_lt := h }

theorem remaining_afterBytes (before bytes : List UInt8)
    (h : (before ++ bytes).length < sizeRange) : (afterBytes before bytes h).remaining = bytes := by
  unfold remaining afterBytes
  rw [List.drop_left]

/-- When a message and the message with appended optionals are compatible. From a stream
that ends with the bytes of an old value and has a byte before the first missing
optional, the new reader returns the old fields with every appended optional
disengaged exactly when its target is clean for the old fields and has these optionals
disengaged. From the bytes of a new value, the old reader returns the old fields and
leaves the encoding of the appended fields in the stream exactly when its target is
clean for them. -/
theorem trailing_optionals_iff (uninit : ℕ → UInt8) {α β : Type} {s : Schema α} {s' : Schema β}
    {x : Extension α β} (h : Evolves s s' x) :
    (∀ (before : List UInt8) (v : α) (t : β)
        (hsize : (before ++ written uninit s v).length < sizeRange),
      Representable s v → before ++ written uninit s v ≠ [] →
        ((∃ v' rs', read canReadNum s' t (afterBytes before (written uninit s v) hsize) =
              .ok v' rs' ∧ x.old v' = v ∧ x.Disengaged v' ∧
            rs'.position = (before ++ written uninit s v).length) ↔
          Clean s (x.old t) v ∧ x.Disengaged t)) ∧
    (∀ (v' : β) (t : α) (rs : ReadStream) (rest : List UInt8), Representable s' v' →
      rs.remaining = written uninit s' v' ++ rest →
        ((∃ rs', read canReadNum s t rs = .ok (x.old v') rs' ∧
            rs'.remaining = x.appended uninit v' ++ rest) ↔
          Clean s t (x.old v'))) := by
  constructor
  · intro before v t hsize hv hbytes
    have hwire := written_eq_wire uninit hv.2
    obtain ⟨w, hdec, hold, hnone⟩ := h.decodes_of_old v hv
      (afterBytes before (written uninit s v) hsize) hbytes
      (by rw [remaining_afterBytes, hwire])
    obtain ⟨hmerge, hmergeNone, hsat⟩ := h.merge_of_old t w hnone
    rw [hold] at hmerge hsat
    rw [← merge_eq_iff]
    constructor
    · rintro ⟨v', rs', hread, hv', hnone', -⟩
      obtain ⟨u, hu, -, rfl⟩ := (read_ok_iff_decodes _ _ _ _).mp hread
      obtain ⟨rfl, -⟩ := decodes_unique _ _ _ _ _ hu hdec
      exact ⟨hmerge.symm.trans hv', hmergeNone.mp hnone'⟩
    · rintro ⟨hclean, hnone'⟩
      have hsat' := satisfied_of_withinLimits _ v hv.1 ((merge_eq_iff _ v).mp hclean)
      refine ⟨merge s' t w, _, (read_ok_iff_decodes _ _ _ _).mpr ⟨w, hdec, hsat.mpr hsat', rfl⟩,
        hmerge.trans hclean, hmergeNone.mpr hnone', ?_⟩
      rw [advance_position, List.length_append, length_written]
      rfl
  · intro v' t rs rest hv' hrem
    obtain ⟨hv, hwire⟩ := h.old_carried uninit v' hv'
    rw [written_eq_wire uninit hv'.2, hwire, List.append_assoc] at hrem
    constructor
    · rintro ⟨rs', hread, -⟩
      exact ((read_wire_iff_clean hv hrem).mp hread).2
    · intro hclean
      exact ⟨_, (read_wire_iff_clean hv hrem).mpr ⟨rfl, hclean⟩, remaining_advance _ hrem⟩

/-- A login packet with a client of one string. -/
def loginPacket : Schema (UInt8 × Text) :=
  .struct (text "Login") (.cons (text "guest") none .bool
    (.last (text "client") none (.struct (text "Client") (.last (text "name") none .string))))

/-- The optionals that were appended to the client, the first of which is set at first. -/
def clientOptionals : Optionals (Option UInt8 × Option Text) :=
  .cons (text "beta") (some (some 1)) .bool (.last (text "note") none .spString)

/-- The login packet with two optionals at the end of its client. -/
def extendedLogin : Schema (UInt8 × (Text × (Option UInt8 × Option Text))) :=
  .struct (text "Login") (.cons (text "guest") none .bool
    (.last (text "client") none (.struct (text "Client")
      (.cons (text "name") none .string clientOptionals.fields))))

theorem loginPacket_evolves :
    Evolves loginPacket extendedLogin
      (((Extension.same Text).append clientOptionals).after UInt8) :=
  .struct _ _ (.cons _ _ _ _ (.last _ _ _
    (.struct _ _ (.append _ _ _ (.same _) clientOptionals))))

/-- The initialiser of an appended optional stays when an old packet is read into a new
object. -/
theorem initialiser_of_appended_stays :
    ¬ ∃ v' rs', read canReadNum extendedLogin (fresh extendedLogin)
        (afterBytes [5] (written (fun _ => 0) loginPacket (1, [65])) (by decide)) = .ok v' rs' ∧
      (v'.1, v'.2.1) = (1, [65]) ∧ v'.2.2 = (none, none) := by
  rintro ⟨v', rs', hread, -, hnone⟩
  have hkept : read canReadNum extendedLogin (fresh extendedLogin)
      (afterBytes [5] (written (fun _ => 0) loginPacket (1, [65])) (by decide)) =
      .ok (1, [65], some 1, none)
        ((afterBytes [5] (written (fun _ => 0) loginPacket (1, [65])) (by decide)).advance 3) := by
    simp only [extendedLogin, clientOptionals, Optionals.fields, read, readObject, fresh,
      freshFields]
    rfl
  rw [hkept] at hread
  obtain ⟨rfl, -⟩ := EStateM.Result.ok.inj hread
  exact absurd hnone (by decide)

/-- The old login packet behind a header byte, read into an object with disengaged optionals,
and the new one before the next packet. -/
theorem loginPacket_trailing_optionals :
    (∃ v' rs', read canReadNum extendedLogin (0, [], none, none)
          (afterBytes [5] (written (fun _ => 0) loginPacket (1, [65])) (by decide)) =
            .ok v' rs' ∧
        (v'.1, v'.2.1) = (1, [65]) ∧ v'.2.2 = (none, none) ∧ rs'.position = 4) ∧
      ∃ rs', read canReadNum loginPacket (0, []) (ofBytes [1, 65, 0, 1, 1, 0, 9] (by decide)) =
          .ok (1, [65]) rs' ∧ rs'.remaining = [1, 1, 0, 9] := by
  have hall := trailing_optionals_iff (fun _ => 0) loginPacket_evolves
  obtain ⟨v', rs', hread, hold, hnone, hpos⟩ :=
    (hall.1 [5] (1, [65]) (0, [], none, none) (by decide)
      ⟨⟨trivial, by simp [WithinLimits, WithinLimitsFields]⟩, rfl⟩ (by decide)).mpr
      ⟨⟨trivial, rfl⟩, trivial, rfl⟩
  refine ⟨⟨v', rs', hread, hold, hnone.2, hpos⟩, ?_⟩
  exact (hall.2 (1, [65], some 1, none) (0, []) (ofBytes [1, 65, 0, 1, 1, 0, 9] (by decide)) [9]
    ⟨by simp [extendedLogin, clientOptionals, Optionals.fields, WithinLimits, WithinLimitsFields],
      rfl⟩ rfl).mpr ⟨trivial, rfl⟩

end BacsEnv.Plakpacs
