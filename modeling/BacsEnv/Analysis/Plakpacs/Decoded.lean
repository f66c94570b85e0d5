import BacsEnv.Analysis.Plakpacs.Canonical

/-!
# What a decoded value owes to its bytes

What a read leaves in its target can be written and read again exactly when the target
was `Stable` for the value on the wire (`relays_iff`). A read that met no exhausted
optional only looked at the bytes it took, so every stream that starts with them stands
for the same value (`local_of_decodes`).
-/

set_option autoImplicit false

namespace BacsEnv.Plakpacs

open LittleEndian StatefulRun ReadStream

/-! ## Whether a decoded value can be sent again -/

mutual

/-- What is left in an object that held `t` when the bytes stand for `w` can be written and
read again: the strings and the size-prefixed containers of `t` are empty, a value that an
optional of `t` keeps can be carried and read into a new object, and so it is with the
objects `T value;` for the elements and the values of optionals that are on the wire. -/
def Stable {α : Type} : Schema α → α → α → Prop
  | .string, t, _ => t = []
  | .array s _, _, w => ∀ x ∈ w.toList, Stable s (fresh s) x
  | .spContainer s, t, w => t = [] ∧ ∀ x ∈ w, Stable s (fresh s) x
  | .spString, t, _ => t = []
  | .optional s, t, none => ∀ y ∈ t, WithinLimits s y ∧ Clean s (fresh s) y
  | .optional s, _, some x => Stable s (fresh s) x
  | .constrained s _, t, w => Stable s t w
  | .struct _ fs, t, w => StableFields fs t w
  | _, _, _ => True

def StableFields {α : Type} : Fields α → α → α → Prop
  | .last _ _ s, t, w => Stable s t w
  | .cons _ _ s fs, t, w => Stable s t.1 w.1 ∧ StableFields fs t.2 w.2

end

/-- Elements that are accepted, one after the other. -/
theorem forall_stable_iff {G : Guard} {α : Type} {s : Schema α}
    (ih : ∀ t w rs rs', Decodes G s rs w rs' → Satisfied s t w →
      (Stable s t w ↔ WithinLimits s (merge s t w) ∧ Clean s t (merge s t w)))
    {rs rs' : ReadStream} {l : List α} (h : Chain (Decodes G s) rs l rs')
    (hsat : ∀ x ∈ l, Satisfied s (fresh s) x) :
    (∀ x ∈ l, Stable s (fresh s) x) ↔
      (∀ y ∈ l.map (merge s (fresh s)), WithinLimits s y) ∧
        ∀ y ∈ l.map (merge s (fresh s)), Clean s (fresh s) y := by
  have helems := h.forall_mem (P := fun x => ∃ rs rs', Decodes G s rs x rs')
    fun rs x rs' hx => ⟨rs, rs', hx⟩
  rw [List.forall_mem_map, List.forall_mem_map, ← forall₂_and]
  apply forall₂_congr
  intro x hx
  obtain ⟨rs₁, rs₂, hdec⟩ := helems x hx
  exact ih _ x rs₁ rs₂ hdec (hsat x hx)

/-- For bytes that are accepted, stable is what is within the limits and restored. -/
theorem stable_iff {G : Guard} {α : Type} {s : Schema α} (t w : α) (rs rs' : ReadStream)
    (hw : Decodes G s rs w rs') (hsat : Satisfied s t w) :
    Stable s t w ↔ WithinLimits s (merge s t w) ∧ Clean s t (merge s t w) := by
  induction s using @Schema.rec _
    (fun _ fs => ∀ t w rs rs', DecodesFields G fs rs w rs' → SatisfiedFields fs t w →
      (StableFields fs t w ↔
        WithinLimitsFields fs (mergeFields fs t w) ∧ CleanFields fs t (mergeFields fs t w)))
    generalizing rs rs' with
  | scalar w size => exact iff_of_true trivial ⟨trivial, trivial⟩
  | bool => exact iff_of_true trivial ⟨trivial, trivial⟩
  | empty => exact iff_of_true trivial ⟨trivial, trivial⟩
  | string =>
      obtain ⟨u, hu, hzero, -⟩ := readStringLoop_ok hw
      obtain rfl : w = u := hu
      simp only [Stable, WithinLimits, Clean, merge]
      constructor
      · rintro rfl
        exact ⟨hzero, rfl⟩
      · exact fun h => h.2
  | array s n ih =>
      have hall := forall_stable_iff ih hw hsat
      rwa [← List.Vector.toList_map] at hall
  | spContainer s ih =>
      obtain ⟨rs₁, hcount, hchain⟩ := hw
      obtain ⟨-, -, -, hmax, -⟩ := readCount_ok_iff.mp hcount
      have hall := forall_stable_iff ih hchain hsat
      simp only [Stable, WithinLimits, Clean, merge]
      constructor
      · rintro ⟨rfl, hw⟩
        obtain ⟨hlim, hclean⟩ := hall.mp hw
        rw [List.nil_append, List.length_map]
        exact ⟨⟨hmax, hlim⟩, rfl, hclean⟩
      · rintro ⟨⟨-, hlim⟩, rfl, hclean⟩
        exact ⟨rfl, hall.mpr ⟨hlim, hclean⟩⟩
  | spString =>
      obtain ⟨rs₁, rs₂, c, hcount, -⟩ := hw
      obtain ⟨-, -, -, hmax, -⟩ := readCount_ok_iff.mp hcount
      simp only [Stable, WithinLimits, Clean, merge]
      constructor
      · rintro rfl
        exact ⟨hmax, rfl⟩
      · exact fun h => h.2
  | optional s ih =>
      cases w with
      | none =>
          cases t with
          | none => simp [Stable, WithinLimits, Clean, merge]
          | some y => simp [Stable, WithinLimits, Clean, merge]
      | some x =>
          rcases hw with ⟨-, hnone, -⟩ | ⟨-, -, hnone⟩ | ⟨rs₁, has, y, -, -, -, hx, hsome⟩
          · cases hnone
          · cases hnone
          · obtain rfl : x = y := Option.some_inj.mp hsome
            have hx' := ih _ x rs₁ rs' hx (hsat x rfl)
            simpa [Stable, WithinLimits, Clean, merge] using hx'
  | constrained s cs ih =>
      rw [Stable, ih t w rs rs' hw hsat.1]
      exact and_congr_left fun _ => (and_iff_left hsat.2).symm
  | struct holder fs ih => exact ih t w rs rs' hw hsat
  | last name init s ih t w rs rs' hw hsat => exact ih t w rs rs' hw hsat
  | cons name init s fs ih ihfs t w rs rs' hw hsat =>
      obtain ⟨rs₁, hw₁, hw₂⟩ := hw
      have hfirst := ih _ _ _ _ hw₁ hsat.1
      have hrest := ihfs _ _ _ _ hw₂ hsat.2
      rw [StableFields, hfirst, hrest]
      exact and_and_and_comm

/-- A clean target is stable. -/
theorem stable_of_clean {α : Type} {s : Schema α} (t w : α) (h : Clean s t w) : Stable s t w := by
  induction s using @Schema.rec _ (fun _ fs => ∀ t w, CleanFields fs t w → StableFields fs t w) with
  | scalar w size => trivial
  | bool => trivial
  | empty => trivial
  | string => exact h
  | array s n ih => exact fun x hx => ih _ x (h x hx)
  | spContainer s ih => exact ⟨h.1, fun x hx => ih _ x (h.2 x hx)⟩
  | spString => exact h
  | optional s ih =>
      cases w with
      | none =>
          obtain rfl : t = none := h
          simp [Stable]
      | some x => exact ih _ x h
  | constrained s cs ih => exact ih t w h
  | struct holder fs ih => exact ih t w h
  | last name init s ih t w h => exact ih t w h
  | cons name init s fs ih ihfs t w h => exact ⟨ih t.1 w.1 h.1, ihfs t.2 w.2 h.2⟩

/-- What a clean target accepts is within the limits. -/
theorem withinLimits_of_clean {G : Guard} {α : Type} {s : Schema α} {t w : α}
    {rs rs' : ReadStream} (hw : Decodes G s rs w rs') (hsat : Satisfied s t w)
    (hclean : Clean s t w) : WithinLimits s w := by
  have hlim := ((stable_iff t w rs rs' hw hsat).mp (stable_of_clean t w hclean)).1
  rwa [(merge_eq_iff t w).mpr hclean] at hlim

/-- Whatever a read of the stream leaves in `t` is within the limits at every depth, and
comes back when it is written and read into `t` again, whatever follows. -/
def Relays {α : Type} (s : Schema α) (t : α) (rs : ReadStream) : Prop :=
  ∀ v rs', read canReadNum s t rs = .ok v rs' →
    WithinLimits s v ∧
      ∀ (uninit : ℕ → UInt8) (rest : List UInt8)
        (h : (written uninit s v ++ rest).length < sizeRange), ReadsBack uninit s t v rest h

/-- What is decoded can be sent again exactly when the target is stable for the value on
the wire, or the constraints refuse what is in it then. -/
theorem relays_iff {α : Type} {s : Schema α} (hs : NoEmptyClass s) {t : α} {rs : ReadStream}
    (hfits : ∀ v rs', read canReadNum s t rs = .ok v rs' → (wire s v).length < sizeRange) :
    Relays s t rs ↔
      ∀ w rs', Decodes canReadNum s rs w rs' → Satisfied s t w → Stable s t w := by
  constructor
  · intro h w rs' hw hsat
    have hread := (read_ok_iff_decodes t rs _ rs').mpr ⟨w, hw, hsat, rfl⟩
    obtain ⟨hlim, hback⟩ := h _ _ hread
    have hempty := emptyCount_of_noEmptyClass hs (merge s t w)
    have hsize : (written (fun _ => 0) s (merge s t w) ++ []).length < sizeRange := by
      rw [List.append_nil, length_written]
      exact hfits _ _ hread
    have hrestores := (readsBack_iff_restores _ s t _ [] hsize).mp (hback (fun _ => 0) [] hsize)
    exact (stable_iff t w rs rs' hw hsat).mpr
      ⟨hlim, (restores_iff_clean t _ ⟨hlim, hempty⟩).mp hrestores⟩
  · intro h v rs' hread
    obtain ⟨w, hw, hsat, rfl⟩ := (read_ok_iff_decodes t rs v rs').mp hread
    obtain ⟨hlim, hclean⟩ := (stable_iff t w rs rs' hw hsat).mp (h w rs' hw hsat)
    have hempty := emptyCount_of_noEmptyClass hs (merge s t w)
    refine ⟨hlim, fun uninit rest hsize => ?_⟩
    exact (readsBack_iff_restores uninit s t _ rest hsize).mpr
      ((restores_iff_clean t _ ⟨hlim, hempty⟩).mpr hclean)

/-- The item `xA` that a container holds after a read is written, and read back as `xxA`. -/
theorem item_not_relayed :
    ¬ Relays (.spContainer item) [] (ofBytes [1, 0, 0, 0, 65, 0] (by decide)) := by
  intro h
  have hread : read canReadNum (.spContainer item) [] (ofBytes [1, 0, 0, 0, 65, 0] (by decide)) =
      .ok [text "xA"] ((ofBytes [1, 0, 0, 0, 65, 0] (by decide)).advance 6) := by
    simp only [read, item, readObject, fresh, freshFields]
    rfl
  obtain ⟨rs', hback, -⟩ := (h _ _ hread).2 (fun _ => 0) [] (by decide)
  have hagain : read canReadNum (.spContainer item) []
      (ofBytes (written (fun _ => 0) (.spContainer item) [text "xA"] ++ []) (by decide)) =
      .ok [text "xxA"] ((ofBytes [1, 0, 0, 0, 120, 65, 0] (by decide)).advance 7) := by
    simp only [read, item, readObject, fresh, freshFields]
    rfl
  rw [hagain] at hback
  exact absurd (EStateM.Result.ok.inj hback).1 (by decide)

/-- The flags that are read from the byte `7` can be sent again. -/
theorem sampleFlags_relayed : Relays sampleFlags (0, none) (ofBytes [7] (by decide)) := by
  have hschema : NoEmptyClass sampleFlags := ⟨trivial, trivial⟩
  have hread := cleanRead_sampleFlags.returns
  refine (relays_iff hschema ?_).mpr ?_
  · intro v rs' h
    rw [hread] at h
    obtain ⟨rfl, -⟩ := EStateM.Result.ok.inj h
    decide
  · rintro ⟨b, more⟩ rs' - -
    cases more <;> simp [sampleFlags, Stable, StableFields]

/-! ## What bytes stand for looks at the taken bytes only -/

/-- From `rs` to `rs'` the bytes stand for `a`, and they do so in every stream that goes on
with them. -/
def Local {α : Type} (R : ReadStream → α → ReadStream → Prop) (rs : ReadStream) (a : α)
    (rs' : ReadStream) : Prop :=
  ∃ taken, rs' = rs.advance taken.length ∧ rs.remaining = taken ++ rs'.remaining ∧
    ∀ (rs₂ : ReadStream) (rest : List UInt8), rs₂.remaining = taken ++ rest →
      R rs₂ a (rs₂.advance taken.length)

namespace Local

/-- What takes no bytes. -/
theorem refl {α : Type} {R : ReadStream → α → ReadStream → Prop} {a : α}
    (h : ∀ rs, R rs a rs) (rs : ReadStream) : Local R rs a rs :=
  ⟨[], rfl, rfl, fun rs₂ _ _ => h rs₂⟩

/-- One part after the other. -/
theorem trans {α β γ : Type} {R : ReadStream → α → ReadStream → Prop}
    {S : ReadStream → β → ReadStream → Prop} {T : ReadStream → γ → ReadStream → Prop}
    {rs rs₁ rs' : ReadStream} {a : α} {b : β} {c : γ} (hR : Local R rs a rs₁)
    (hS : Local S rs₁ b rs') (h : ∀ {rs rs₁ rs'}, R rs a rs₁ → S rs₁ b rs' → T rs c rs') :
    Local T rs c rs' := by
  obtain ⟨taken₁, rfl, hrem₁, hR⟩ := hR
  obtain ⟨taken₂, rfl, hrem₂, hS⟩ := hS
  refine ⟨taken₁ ++ taken₂, ?_, ?_, ?_⟩
  · rw [advance_advance, List.length_append]
  · rw [List.append_assoc, ← hrem₂, ← hrem₁]
  · intro rs₂ rest hrem
    rw [List.append_assoc] at hrem
    rw [List.length_append, ← advance_advance]
    exact h (hR rs₂ _ hrem) (hS _ rest (remaining_advance taken₁ hrem))

/-- A list of parts one after the other. -/
theorem chain {α : Type} {R : ReadStream → α → ReadStream → Prop} {rs rs' : ReadStream}
    {l : List α} (h : Chain (Local R) rs l rs') : Local (Chain R) rs l rs' := by
  induction h with
  | nil rs => exact refl Chain.nil rs
  | cons hx _ ih => exact hx.trans ih Chain.cons

/-- Bytes that are read as they are. -/
theorem of_taken {α : Type} {m : ReadM α} {rs : ReadStream} {a : α} (taken : List UInt8)
    (htake : rs.remaining.take taken.length = taken)
    (h : ∀ rs₂ rest, rs₂.remaining = taken ++ rest → m rs₂ = .ok a (rs₂.advance taken.length)) :
    Local (fun rs a rs' => m rs = .ok a rs') rs a (rs.advance taken.length) := by
  refine ⟨taken, rfl, ?_, h⟩
  have hsplit := List.take_append_drop taken.length rs.remaining
  rw [htake] at hsplit
  rw [← hsplit]
  simp [remaining]

theorem of_readCount {rs rs' : ReadStream} {size : ℕ} (h : readCount canReadNum rs = .ok size rs') :
    Local (fun rs size rs' => readCount canReadNum rs = .ok size rs') rs size rs' := by
  obtain ⟨-, -, htake, hmax, rfl⟩ := readCount_ok_iff.mp h
  have hlen := length_encode 4 size
  have hlocal := of_taken (m := readCount canReadNum) (encode 4 size) (by rw [hlen, htake])
    fun _ _ hrem => by rw [hlen]; exact readCount_of_remaining hmax hrem
  rwa [hlen] at hlocal

end Local

end BacsEnv.Plakpacs
