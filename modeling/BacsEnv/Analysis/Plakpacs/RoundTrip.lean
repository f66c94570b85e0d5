import BacsEnv.Analysis.Plakpacs.Overwrite
import BacsEnv.Analysis.Plakpacs.Wire

/-!
# Reading back what was written

A value comes back from its bytes, with the stream at their end, exactly when the
reader `Restores` it in its target. One half is `read_of_restores`: the reader follows
the wire format whatever comes after it. The other half rests on a bound: no read takes
more bytes than the value that it leaves has, less one for each value of an empty class
(`consumes_of_read`). So each part of a value that comes back took all of its bytes
(`restores_of_read`). For a representable value to be restored is for its target to be
clean (`restores_iff_clean`).
-/

set_option autoImplicit false

namespace BacsEnv.Plakpacs

open LittleEndian StatefulRun ReadStream

/-! ## Values that come back -/

/-- If the image of every element of a list stands for it, so does that of the list. -/
theorem chain_of_images {α : Type} {R : ReadStream → α → ReadStream → Prop}
    {image : α → List UInt8} (l : List α)
    (hR : ∀ x ∈ l, ∀ rs rest, rs.remaining = image x ++ rest →
      R rs x (rs.advance (image x).length))
    (rs : ReadStream) (rest : List UInt8) (h : rs.remaining = l.flatMap image ++ rest) :
    Chain R rs l (rs.advance (l.flatMap image).length) := by
  induction l generalizing rs with
  | nil => exact .nil rs
  | cons x l ih =>
      rw [List.flatMap_cons, List.append_assoc] at h
      have hx := hR x (by simp) rs _ h
      have hl := ih (fun y hy => hR y (List.mem_cons_of_mem x hy))
        (rs.advance (image x).length) (remaining_advance _ h)
      rw [advance_advance] at hl
      rw [List.flatMap_cons, List.length_append]
      exact .cons hx hl

/-- The size prefix of a container within the limit is the code of its size. -/
theorem mod_of_le_maxContainerCount {n : ℕ} (h : n ≤ maxContainerCount) : n % 2 ^ 32 = n := by
  unfold maxContainerCount at h
  exact Nat.mod_eq_of_lt (by omega)

/-- The size, the characters and the terminator of an `sp_string` are read one after the
other. -/
theorem chars_of_remaining {v : Text} (hmax : v.length ≤ maxContainerCount) {rs : ReadStream}
    {rest : List UInt8} (h : rs.remaining = wire .spString v ++ rest) :
    ∃ rs₂, readCount canReadNum rs = .ok v.length (rs.advance 4) ∧
      Chain (fun rs c rs' => readChar canReadNum rs = .ok c rs') (rs.advance 4) v rs₂ ∧
      readChar canReadNum rs₂ = .ok 0 (rs.advance (wire .spString v).length) := by
  simp only [wire, mod_of_le_maxContainerCount hmax, List.append_assoc] at h
  have hcount := readCount_of_remaining hmax h
  have hnext : (rs.advance 4).remaining = v.flatMap (fun c => [c]) ++ ([0] ++ rest) := by
    have hadv := remaining_advance _ h
    rwa [length_encode, ← List.flatMap_singleton' v] at hadv
  have hchain := chain_of_images (R := fun rs c rs' => readChar canReadNum rs = .ok c rs') v
    (fun c _ rs rest h => readChar_of_remaining h) _ _ hnext
  have hlast := readChar_of_remaining (remaining_advance _ hnext)
  simp only [List.flatMap_singleton', advance_advance] at hchain hlast
  refine ⟨_, hcount, hchain, ?_⟩
  simp only [wire, List.length_append, length_encode, List.length_singleton, ← Nat.add_assoc]
  exact hlast

/-- The wire format of a representable value stands for it, whatever follows. -/
theorem decodes_of_wire {α : Type} (s : Schema α) (v : α) (hv : Representable s v)
    (rs : ReadStream) (rest : List UInt8) (h : rs.remaining = wire s v ++ rest) :
    Decodes canReadNum s rs v (rs.advance (wire s v).length) := by
  induction s using @Schema.rec _
    (fun _ fs => ∀ v, WithinLimitsFields fs v → emptyCountFields fs v = 0 →
      ∀ rs rest, rs.remaining = wireFields fs v ++ rest →
        DecodesFields canReadNum fs rs v (rs.advance (wireFields fs v).length))
    generalizing rs rest with
  | scalar w size =>
      have hread := read_of_remaining size.1 h
      simp only [wire, List.Vector.toList_length]
      exact hread
  | bool => exact readBool_of_remaining h
  | empty => exact absurd hv.2 Nat.one_ne_zero
  | string =>
      have hread := readString_of_remaining [] hv.1 (by simpa [wire] using h)
      simpa [Decodes, wire] using hread
  | array s n ih =>
      obtain ⟨hlim, hempty⟩ := hv
      rw [emptyCount, List.sum_eq_zero_iff_forall_eq_nat, List.forall_mem_map] at hempty
      exact chain_of_images v.toList (fun x hx => ih x ⟨hlim x hx, hempty x hx⟩) rs rest h
  | spContainer s ih =>
      obtain ⟨⟨hmax, hlim⟩, hempty⟩ := hv
      rw [emptyCount, List.sum_eq_zero_iff_forall_eq_nat, List.forall_mem_map] at hempty
      simp only [wire, mod_of_le_maxContainerCount hmax, List.append_assoc] at h
      have hcount := readCount_of_remaining hmax h
      have hnext := remaining_advance _ h
      rw [length_encode] at hnext
      have hchain := chain_of_images v (fun x hx => ih x ⟨hlim x hx, hempty x hx⟩) _ rest hnext
      rw [advance_advance] at hchain
      simp only [wire, List.length_append, length_encode]
      exact ⟨rs.advance 4, hcount, hchain⟩
  | spString =>
      obtain ⟨rs₂, hcount, hchain, hlast⟩ := chars_of_remaining hv.1 h
      exact ⟨_, rs₂, 0, hcount, hchain, hlast⟩
  | optional s ih =>
      cases v with
      | none =>
          have hcan : canRead canReadNum rs = true := canReadNum_of_remaining [0] (by simp) h
          exact .inr (.inl ⟨hcan, readBool_of_remaining h, rfl⟩)
      | some x =>
          have hcan : canRead canReadNum rs = true := canReadNum_of_remaining [1] (by simp) h
          have hx := ih x ⟨hv.1 x rfl, hv.2⟩ (rs.advance 1) rest (remaining_advance [1] h)
          rw [advance_advance] at hx
          simp only [wire, List.length_cons, Nat.add_comm _ 1]
          exact .inr (.inr ⟨_, 1, x, hcan, readBool_of_remaining h, by decide, hx, rfl⟩)
  | constrained s cs ih => exact ih v ⟨hv.1.1, hv.2⟩ rs rest h
  | struct holder fs ih => exact ih v hv.1 hv.2 rs rest h
  | last name init s ih v hlim hempty rs rest h => exact ih v ⟨hlim, hempty⟩ rs rest h
  | cons name init s fs ih ihfs v hlim hempty rs rest h =>
      obtain ⟨hempty₁, hempty₂⟩ := Nat.add_eq_zero_iff.mp hempty
      simp only [wireFields, List.append_assoc] at h
      have hfirst := ih v.1 ⟨hlim.1, hempty₁⟩ rs _ h
      have hrest := ihfs v.2 hlim.2 hempty₂ _ rest (remaining_advance _ h)
      rw [advance_advance, ← List.length_append] at hrest
      exact ⟨_, hfirst, hrest⟩

/-- The constraints hold of a value within the limits when nothing else shows. -/
theorem satisfied_of_withinLimits {α : Type} {s : Schema α} (t v : α) (hv : WithinLimits s v)
    (hclean : Clean s t v) : Satisfied s t v := by
  induction s using @Schema.rec _
    (fun _ fs => ∀ t v, WithinLimitsFields fs v → CleanFields fs t v → SatisfiedFields fs t v) with
  | array s n ih => exact fun x hx => ih _ x (hv x hx) (hclean x hx)
  | spContainer s ih => exact fun x hx => ih _ x (hv.2 x hx) (hclean.2 x hx)
  | optional s ih =>
      intro x hx
      cases hx
      exact ih _ x (hv x rfl) hclean
  | constrained s cs ih =>
      refine ⟨ih t v hv.1 hclean, ?_⟩
      have hmerge : merge s t v = v := (merge_eq_iff t v).mpr hclean
      rw [hmerge]
      exact hv.2
  | struct holder fs ih => exact ih t v hv hclean
  | last name init s ih t v hv hclean => exact ih t v hv hclean
  | cons name init s fs ih ihfs t v hv hclean =>
      exact ⟨ih t.1 v.1 hv.1 hclean.1, ihfs t.2 v.2 hv.2 hclean.2⟩
  | _ => trivial

/-- A reader returns a representable value from its wire format, whatever follows, exactly
when nothing that it reads into shows. -/
theorem read_wire_iff_clean {α : Type} {s : Schema α} {t v : α} (hv : Representable s v)
    {rs rs' : ReadStream} {rest : List UInt8} (h : rs.remaining = wire s v ++ rest) :
    read canReadNum s t rs = .ok v rs' ↔ rs' = rs.advance (wire s v).length ∧ Clean s t v := by
  have hdec := decodes_of_wire s v hv rs rest h
  rw [read_ok_iff_decodes]
  constructor
  · rintro ⟨w, hw, -, hmerge⟩
    obtain ⟨rfl, rfl⟩ := decodes_unique _ _ _ _ _ hw hdec
    exact ⟨rfl, (merge_eq_iff t w).mp hmerge.symm⟩
  · rintro ⟨rfl, hclean⟩
    exact ⟨v, hdec, satisfied_of_withinLimits t v hv.1 hclean,
      ((merge_eq_iff t v).mpr hclean).symm⟩

mutual

/-- What the reader puts together again in an object that holds `t`: nothing that it reads
into shows, the limits hold, and no value of an empty class occurs. A size-prefixed
container may have more elements before it is read into only if they take no bytes and the
size prefix, which wraps around, does not count them. -/
def Restores {α : Type} : Schema α → α → α → Prop
  | .scalar _ _, _, _ => True
  | .bool, _, _ => True
  | .empty, _, _ => False
  | .string, t, v => t = [] ∧ (0 : UInt8) ∉ v
  | .array s _, _, v => ∀ x ∈ v.toList, Restores s (fresh s) x
  | .spContainer s, t, v =>
      ∃ elems, v = t ++ elems ∧ t.flatMap (wire s) = [] ∧ v.length % 2 ^ 32 = elems.length ∧
        elems.length ≤ maxContainerCount ∧ ∀ x ∈ elems, Restores s (fresh s) x
  | .spString, t, v => t = [] ∧ v.length ≤ maxContainerCount
  | .optional _, t, none => t = none
  | .optional s, _, some x => Restores s (fresh s) x
  | .constrained s cs, t, v => Restores s t v ∧ cs.all (fun check => check v) = true
  | .struct _ fs, t, v => RestoresFields fs t v

def RestoresFields {α : Type} : Fields α → α → α → Prop
  | .last _ _ s, t, v => Restores s t v
  | .cons _ _ s fs, t, v => Restores s t.1 v.1 ∧ RestoresFields fs t.2 v.2

end

/-- The reader returns such a value from its wire format, whatever follows. -/
theorem read_of_restores {α : Type} (s : Schema α) (t v : α) (hv : Restores s t v)
    (rs : ReadStream) (rest : List UInt8) (h : rs.remaining = wire s v ++ rest) :
    read canReadNum s t rs = .ok v (rs.advance (wire s v).length) := by
  induction s using @Schema.rec _
    (fun _ fs => ∀ holder t v, RestoresFields fs t v →
      ∀ rs rest, rs.remaining = wireFields fs v ++ rest →
        readObject canReadNum holder fs t rs = .ok v (rs.advance (wireFields fs v).length))
    generalizing rs rest with
  | scalar w size =>
      have hread := read_of_remaining size.1 h
      simp only [wire, List.Vector.toList_length]
      exact hread
  | bool => exact readBool_of_remaining h
  | empty => exact hv.elim
  | string =>
      obtain ⟨rfl, hzero⟩ := hv
      have hread := readString_of_remaining [] hzero (by simpa [wire] using h)
      simpa [read, wire] using hread
  | array s n ih =>
      have hchain := chain_of_images (R := Returns canReadNum s) v.toList
        (fun x hx => ih _ x (hv x hx)) rs rest h
      exact read_array_ok_iff.mpr hchain
  | spContainer s ih =>
      obtain ⟨elems, rfl, hnil, hlen, hmax, helems⟩ := hv
      simp only [wire, hlen, List.flatMap_append, hnil, List.nil_append, List.append_assoc] at h ⊢
      have hcount := readCount_of_remaining hmax h
      have hnext := remaining_advance _ h
      rw [length_encode] at hnext
      have hchain := chain_of_images (R := Returns canReadNum s) elems
        (fun x hx => ih _ x (helems x hx)) _ rest hnext
      rw [advance_advance] at hchain
      simp only [List.length_append, length_encode]
      exact read_spContainer_ok_iff.mpr ⟨elems, rs.advance 4, hcount, hchain, rfl⟩
  | spString =>
      obtain ⟨rfl, hmax⟩ := hv
      obtain ⟨rs₂, hcount, hchain, hlast⟩ := chars_of_remaining hmax h
      exact read_spString_ok_iff.mpr ⟨v, _, rs₂, 0, hcount, hchain, hlast, rfl⟩
  | optional s ih =>
      cases v with
      | none =>
          have hcan : canRead canReadNum rs = true :=
            canReadNum_of_remaining [0] (by simp) h
          exact read_optional_ok_iff.mpr (.inr (.inl ⟨hcan, readBool_of_remaining h, hv.symm⟩))
      | some x =>
          have hcan : canRead canReadNum rs = true :=
            canReadNum_of_remaining [1] (by simp) h
          have hflag := readBool_of_remaining h
          have hnext : (rs.advance 1).remaining = wire s x ++ rest :=
            remaining_advance [1] h
          have hx : Returns canReadNum s (rs.advance 1) x _ := ih _ x hv _ rest hnext
          rw [advance_advance] at hx
          simp only [wire, List.length_cons, Nat.add_comm _ 1]
          exact read_optional_ok_iff.mpr
            (.inr (.inr ⟨_, 1, x, hcan, hflag, by decide, hx, rfl⟩))
  | constrained s cs ih =>
      exact read_constrained_ok_iff.mpr ⟨ih t v hv.1 rs rest h, hv.2⟩
  | struct holder fs ih => exact ih holder t v hv rs rest h
  | last name init s ih holder t v hv rs rest h => exact inField_ok_iff.mpr (ih t v hv rs rest h)
  | cons name init s fs ih ihfs holder t v hv rs rest h =>
      simp only [wireFields, List.append_assoc] at h
      have hfirst := ih t.1 v.1 hv.1 rs _ h
      have hrest := ihfs holder t.2 v.2 hv.2 _ rest (remaining_advance _ h)
      rw [advance_advance, ← List.length_append] at hrest
      exact readObject_cons_ok_iff.mpr ⟨_, hfirst, hrest⟩

/-! ## How many bytes a read takes -/

/-- A value of an empty class has a byte in the wire format. -/
theorem emptyCount_le_length_wire {α : Type} (s : Schema α) (v : α) :
    emptyCount s v ≤ (wire s v).length := by
  have hlist : ∀ {β : Type} {s : Schema β} (l : List β),
      (∀ x, emptyCount s x ≤ (wire s x).length) →
        (l.map (emptyCount s)).sum ≤ (l.flatMap (wire s)).length := by
    intro β s l h
    induction l with
    | nil => exact Nat.le_refl 0
    | cons x l ih =>
        rw [List.map_cons, List.sum_cons, List.flatMap_cons, List.length_append]
        exact Nat.add_le_add (h x) ih
  induction s using @Schema.rec _
    (fun _ fs => ∀ v, emptyCountFields fs v ≤ (wireFields fs v).length) with
  | scalar w size => exact Nat.zero_le _
  | bool => exact Nat.zero_le _
  | empty => exact Nat.le_refl 1
  | string => exact Nat.zero_le _
  | array s n ih => exact hlist v.toList ih
  | spContainer s ih =>
      rw [emptyCount, wire, List.length_append]
      exact (hlist v ih).trans (Nat.le_add_left _ _)
  | spString => exact Nat.zero_le _
  | optional s ih =>
      cases v with
      | none => exact Nat.zero_le _
      | some x => exact (ih x).trans (Nat.le_succ _)
  | constrained s cs ih => exact ih v
  | struct holder fs ih => exact ih v
  | last name init s ih v => exact ih v
  | cons name init s fs ih ihfs v =>
      rw [wireFields, List.length_append]
      exact Nat.add_le_add (ih v.1) (ihfs v.2)

/-- A read that returned stayed on its buffer, and the value in its target has at least
one byte in its wire format for each byte that was taken and for each value of an
empty class. -/
structure Consumes (rs rs' : ReadStream) (image : List UInt8) (empties : ℕ) : Prop where
  bytes_eq : rs'.bytes = rs.bytes
  position_le : rs.position ≤ rs'.position
  position_add_le : rs'.position + empties ≤ rs.position + image.length

theorem Consumes.advance {rs : ReadStream} {image : List UInt8} {n k : ℕ}
    (h : n + k ≤ image.length) : Consumes rs (rs.advance n) image k :=
  { bytes_eq := rfl
    position_le := Nat.le_add_right _ _
    position_add_le := by
      rw [advance_position]
      omega }

theorem Consumes.trans {rs rs₁ rs₂ : ReadStream} {image₁ image₂ : List UInt8} {m n : ℕ}
    (h₁ : Consumes rs rs₁ image₁ m) (h₂ : Consumes rs₁ rs₂ image₂ n) :
    Consumes rs rs₂ (image₁ ++ image₂) (m + n) := by
  have hle₁ := h₁.position_add_le
  have hle₂ := h₂.position_add_le
  exact { bytes_eq := h₂.bytes_eq.trans h₁.bytes_eq
          position_le := h₁.position_le.trans h₂.position_le
          position_add_le := by rw [List.length_append]; omega }

/-- Two reads that took as many bytes as they could took as many as they could each. -/
theorem Consumes.split {rs rs₁ rs₂ : ReadStream} {image₁ image₂ : List UInt8} {m n : ℕ}
    (h₁ : Consumes rs rs₁ image₁ m) (h₂ : Consumes rs₁ rs₂ image₂ n)
    (hpos : rs₂.position = rs.position + (image₁ ++ image₂).length) :
    rs₁ = rs.advance image₁.length ∧ rs₂.position = rs₁.position + image₂.length := by
  have hle₁ := h₁.position_add_le
  have hle₂ := h₂.position_add_le
  rw [List.length_append] at hpos
  have hfirst : rs₁.position = rs.position + image₁.length := by omega
  constructor
  · cases rs₁
    cases h₁.bytes_eq
    cases hfirst
    rfl
  · omega

/-- The elements of a list that were read one after the other. -/
theorem Consumes.chain {α : Type} {R : ReadStream → α → ReadStream → Prop}
    {image : α → List UInt8} {empties : α → ℕ}
    (hR : ∀ rs x rs', R rs x rs' → Consumes rs rs' (image x) (empties x))
    {rs rs' : ReadStream} {l : List α} (h : Chain R rs l rs') :
    Consumes rs rs' (l.flatMap image) (l.map empties).sum := by
  induction h with
  | nil rs => exact Consumes.advance (n := 0) (Nat.le_refl 0)
  | cons hx _ ih =>
      rw [List.flatMap_cons, List.map_cons, List.sum_cons]
      exact (hR _ _ _ hx).trans ih

theorem Consumes.count {G : Guard} {rs rs' : ReadStream} {size : ℕ} (n : ℕ)
    (h : readCount G rs = .ok size rs') : Consumes rs rs' (encode 4 n) 0 := by
  obtain ⟨-, -, -, -, rfl⟩ := readCount_ok_iff.mp h
  exact .advance (by simp)

/-- The characters of an `sp_string` that were read one after the other. -/
theorem Consumes.chars {G : Guard} {rs rs' : ReadStream} {l : Text}
    (h : Chain (fun rs c rs' => readChar G rs = .ok c rs') rs l rs') : Consumes rs rs' l 0 := by
  induction h with
  | nil rs => exact .advance (n := 0) (Nat.le_refl 0)
  | @cons rs rs₁ rs₂ c l hc _ ih =>
      obtain ⟨-, -, -, rfl⟩ := readChar_ok_iff.mp hc
      have hone : Consumes rs (rs.advance 1) [c] 0 := .advance (Nat.le_refl 1)
      exact hone.trans ih

/-- No read takes more bytes than the value that it leaves in its target has. -/
theorem consumes_of_read {G : Guard} {α : Type} {s : Schema α} (t v : α) (rs rs' : ReadStream)
    (h : read G s t rs = .ok v rs') : Consumes rs rs' (wire s v) (emptyCount s v) := by
  induction s using @Schema.rec _
    (fun _ fs => ∀ holder t v rs rs', readObject G holder fs t rs = .ok v rs' →
      Consumes rs rs' (wireFields fs v) (emptyCountFields fs v)) generalizing rs rs' with
  | scalar w size =>
      obtain ⟨-, -, -, rfl⟩ := read_ok_iff.mp h
      exact .advance (by simp [wire, emptyCount])
  | bool =>
      obtain ⟨-, -, -, rfl⟩ := readBool_ok_iff.mp h
      exact .advance (Nat.le_refl 1)
  | empty =>
      cases h
      exact .advance (n := 0) (Nat.le_refl 1)
  | string =>
      obtain ⟨w, rfl, -, -, -, rfl⟩ := readStringLoop_ok h
      exact .advance (by simp [wire, emptyCount])
  | array s n ih =>
      exact Consumes.chain (fun _ _ _ hx => ih _ _ _ _ hx) (read_array_ok_iff.mp h)
  | spContainer s ih =>
      obtain ⟨elems, rs₁, hcount, hchain, rfl⟩ := read_spContainer_ok_iff.mp h
      have htarget : Consumes rs₁ rs₁ (t.flatMap (wire s)) (t.map (emptyCount s)).sum :=
        .advance (n := 0) (by
          rw [Nat.zero_add]
          exact emptyCount_le_length_wire (.array s t.length) ⟨t, rfl⟩)
      have helems := htarget.trans (Consumes.chain (fun _ _ _ hx => ih _ _ _ _ hx) hchain)
      have hall := (Consumes.count ((t ++ elems).length % 2 ^ 32) hcount).trans helems
      rw [Nat.zero_add, ← List.flatMap_append, ← List.sum_append, ← List.map_append] at hall
      exact hall
  | spString =>
      obtain ⟨chars, rs₁, rs₂, c, hcount, hchain, hlast, rfl⟩ := read_spString_ok_iff.mp h
      obtain ⟨-, -, -, rfl⟩ := readChar_ok_iff.mp hlast
      have htarget : Consumes rs₁ rs₁ t 0 := .advance (n := 0) (Nat.zero_le _)
      have hterm : Consumes rs₂ (rs₂.advance 1) [0] 0 := .advance (Nat.le_refl 1)
      exact (Consumes.count ((t ++ chars).length % 2 ^ 32) hcount).trans
        ((htarget.trans (Consumes.chars hchain)).trans hterm)
  | optional s ih =>
      have htarget : emptyCount (.optional s) t + 1 ≤ (wire (.optional s) t).length := by
        cases t with
        | none => exact Nat.le_refl 1
        | some x => exact Nat.succ_le_succ (emptyCount_le_length_wire s x)
      rcases read_optional_ok_iff.mp h with ⟨-, rfl, rfl⟩ | ⟨-, hflag, rfl⟩ |
        ⟨rs₁, has, x, -, hflag, -, hx, rfl⟩
      · exact .advance (n := 0) (by omega)
      · obtain ⟨-, -, -, rfl⟩ := readBool_ok_iff.mp hflag
        exact .advance (by omega)
      · obtain ⟨-, -, -, rfl⟩ := readBool_ok_iff.mp hflag
        have hone : Consumes rs (rs.advance 1) [1] 0 := .advance (Nat.le_refl 1)
        have hall := hone.trans (ih _ _ _ _ hx)
        rwa [Nat.zero_add] at hall
  | constrained s cs ih => exact ih t v rs rs' (read_constrained_ok_iff.mp h).1
  | struct holder fs ih => exact ih holder t v rs rs' h
  | last name init s ih holder t v rs rs' h => exact ih t v rs rs' (inField_ok_iff.mp h)
  | cons name init s fs ih ihfs holder t v rs rs' h =>
      obtain ⟨rs₁, hfirst, hrest⟩ := readObject_cons_ok_iff.mp h
      exact (ih _ _ _ _ hfirst).trans (ihfs _ _ _ _ _ hrest)

/-- Nor do the reads of elements one after the other. -/
theorem consumes_of_chain {G : Guard} {α : Type} {s : Schema α} {rs rs' : ReadStream} {l : List α}
    (h : Chain (Returns G s) rs l rs') :
    Consumes rs rs' (l.flatMap (wire s)) (l.map (emptyCount s)).sum :=
  Consumes.chain (fun _ _ _ hx => consumes_of_read _ _ _ _ hx) h

/-! ## Only such values come back -/

/-- Elements that were read back from their images. -/
theorem restores_of_chain {G : Guard} {α : Type} {s : Schema α}
    (ih : ∀ t v rs rs' rest, rs.remaining = wire s v ++ rest → read G s t rs = .ok v rs' →
      rs'.position = rs.position + (wire s v).length → Restores s t v)
    {rs rs' : ReadStream} {l : List α} (h : Chain (Returns G s) rs l rs') (rest : List UInt8)
    (hrem : rs.remaining = l.flatMap (wire s) ++ rest)
    (hpos : rs'.position = rs.position + (l.flatMap (wire s)).length) :
    ∀ x ∈ l, Restores s (fresh s) x := by
  induction h with
  | nil rs => exact fun x hx => absurd hx List.not_mem_nil
  | cons hx hl ihl =>
      rw [List.flatMap_cons, List.append_assoc] at hrem
      rw [List.flatMap_cons] at hpos
      obtain ⟨rfl, hpos'⟩ := (consumes_of_read _ _ _ _ hx).split (consumes_of_chain hl) hpos
      exact List.forall_mem_cons.mpr ⟨ih _ _ _ _ _ hrem hx rfl,
        ihl (remaining_advance _ hrem) hpos'⟩

/-- A value that is read back from its wire format, to its last byte, is restored. -/
theorem restores_of_read {G : Guard} {α : Type} {s : Schema α} (t v : α) (rs rs' : ReadStream)
    (rest : List UInt8) (hrem : rs.remaining = wire s v ++ rest) (h : read G s t rs = .ok v rs')
    (hpos : rs'.position = rs.position + (wire s v).length) : Restores s t v := by
  induction s using @Schema.rec _
    (fun _ fs => ∀ holder t v rs rs' rest, rs.remaining = wireFields fs v ++ rest →
      readObject G holder fs t rs = .ok v rs' →
        rs'.position = rs.position + (wireFields fs v).length → RestoresFields fs t v)
    generalizing rs rs' rest with
  | scalar w size => trivial
  | bool => trivial
  | empty =>
      cases h
      simp [wire] at hpos
  | string =>
      obtain ⟨w, rfl, hzero, -, -, rfl⟩ := readStringLoop_ok h
      simp only [wire, advance_position, List.length_append, List.length_singleton] at hpos
      have hnil : t = [] := List.eq_nil_of_length_eq_zero (by omega)
      exact ⟨hnil, by rwa [hnil, List.nil_append]⟩
  | array s n ih => exact restores_of_chain ih (read_array_ok_iff.mp h) rest hrem hpos
  | spContainer s ih =>
      obtain ⟨elems, rs₁, hcount, hchain, rfl⟩ := read_spContainer_ok_iff.mp h
      obtain ⟨-, -, htake, hmax, rfl⟩ := readCount_ok_iff.mp hcount
      simp only [wire, List.flatMap_append, List.append_assoc] at hrem hpos
      have hencode : encode 4 ((t ++ elems).length % 2 ^ 32) = encode 4 elems.length := by
        rw [← htake, hrem, List.take_left' (length_encode 4 _)]
      have hsmall : elems.length < 256 ^ 4 := by
        unfold maxContainerCount at hmax
        omega
      have hlen : (t ++ elems).length % 2 ^ 32 = elems.length :=
        encode_inj_of_lt (Nat.mod_lt _ (by decide)) hsmall hencode
      have hrest := remaining_advance _ hrem
      have hle := (consumes_of_chain hchain).position_add_le
      simp only [List.length_append, length_encode, advance_position] at hpos hle hrest
      have hnil : t.flatMap (wire s) = [] := List.eq_nil_of_length_eq_zero (by omega)
      rw [hnil, List.nil_append] at hrest
      rw [hnil] at hpos
      refine ⟨elems, rfl, hnil, hlen, hmax, restores_of_chain ih hchain rest hrest ?_⟩
      rw [hpos, List.length_nil, advance_position]
      omega
  | spString =>
      obtain ⟨chars, rs₁, rs₂, c, hcount, hchain, hlast, rfl⟩ := read_spString_ok_iff.mp h
      obtain ⟨-, -, -, hmax, rfl⟩ := readCount_ok_iff.mp hcount
      obtain ⟨-, -, -, rfl⟩ := readChar_ok_iff.mp hlast
      have hle := (Consumes.chars hchain).position_add_le
      simp only [wire, advance_position, List.length_append, length_encode,
        List.length_singleton] at hpos hle
      have hnil : t = [] := List.eq_nil_of_length_eq_zero (by omega)
      rw [hnil, List.nil_append]
      exact ⟨rfl, hmax⟩
  | optional s ih =>
      have hhead : (wire (.optional s) v).length ≠ 0 := by
        cases v <;> exact Nat.succ_ne_zero _
      rcases read_optional_ok_iff.mp h with ⟨-, rfl, rfl⟩ | ⟨-, hflag, rfl⟩ |
        ⟨rs₁, has, x, -, hflag, hset, hx, rfl⟩
      · exact absurd (Nat.left_eq_add.mp hpos) hhead
      · obtain ⟨-, -, hbyte, -⟩ := readBool_ok_iff.mp hflag
        rw [hrem] at hbyte
        cases v with
        | none => rfl
        | some x => exact absurd hbyte (by simp [wire])
      · obtain ⟨-, -, -, rfl⟩ := readBool_ok_iff.mp hflag
        simp only [wire, List.length_cons] at hpos
        refine ih _ x _ rs' rest (remaining_advance [1] hrem) hx ?_
        rw [hpos, advance_position, List.length_singleton]
        omega
  | constrained s cs ih =>
      obtain ⟨hread, hcs⟩ := read_constrained_ok_iff.mp h
      exact ⟨ih t v rs rs' rest hrem hread hpos, hcs⟩
  | struct holder fs ih => exact ih holder t v rs rs' rest hrem h hpos
  | last name init s ih holder t v rs rs' rest hrem h hpos =>
      exact ih t v rs rs' rest hrem (inField_ok_iff.mp h) hpos
  | cons name init s fs ih ihfs holder t v rs rs' rest hrem h hpos =>
      obtain ⟨rs₁, hfirst, hothers⟩ := readObject_cons_ok_iff.mp h
      have hrest : read G (.struct holder fs) t.2 rs₁ = .ok v.2 rs' := hothers
      rw [wireFields, List.append_assoc] at hrem
      obtain ⟨rfl, hpos'⟩ := (consumes_of_read _ _ _ _ hfirst).split
        (consumes_of_read _ _ _ _ hrest) hpos
      exact ⟨ih _ _ _ _ _ hrem hfirst rfl,
        ihfs holder _ _ _ _ rest (remaining_advance _ hrem) hothers hpos'⟩

/-! ## The domain of the round trip -/

/-- What is restored has no value of an empty class. -/
theorem emptyCount_of_restores {α : Type} {s : Schema α} (t v : α) (h : Restores s t v) :
    emptyCount s v = 0 := by
  induction s using @Schema.rec _
    (fun _ fs => ∀ t v, RestoresFields fs t v → emptyCountFields fs v = 0) with
  | scalar w size => rfl
  | bool => rfl
  | empty => exact h.elim
  | string => rfl
  | array s n ih =>
      rw [emptyCount, List.sum_eq_zero_iff_forall_eq_nat]
      exact List.forall_mem_map.mpr fun x hx => ih _ x (h x hx)
  | spContainer s ih =>
      obtain ⟨elems, rfl, hnil, -, -, helems⟩ := h
      have htarget : (t.map (emptyCount s)).sum ≤ (t.flatMap (wire s)).length :=
        emptyCount_le_length_wire (.array s t.length) ⟨t, rfl⟩
      have hsum : (elems.map (emptyCount s)).sum = 0 := by
        rw [List.sum_eq_zero_iff_forall_eq_nat]
        exact List.forall_mem_map.mpr fun x hx => ih _ x (helems x hx)
      rw [hnil, List.length_nil] at htarget
      rw [emptyCount, List.map_append, List.sum_append, hsum]
      omega
  | spString => rfl
  | optional s ih =>
      cases v with
      | none => rfl
      | some x => exact ih _ x h
  | constrained s cs ih => exact ih t v h.1
  | struct holder fs ih => exact ih t v h
  | last name init s ih t v h => exact ih t v h
  | cons name init s fs ih ihfs t v h =>
      exact Nat.add_eq_zero_iff.mpr ⟨ih t.1 v.1 h.1, ihfs t.2 v.2 h.2⟩

/-- A representable value is restored exactly when nothing that it is read into shows. -/
theorem restores_iff_clean {α : Type} {s : Schema α} (t v : α) (hv : Representable s v) :
    Restores s t v ↔ Clean s t v := by
  induction s using @Schema.rec _
    (fun _ fs => ∀ t v, WithinLimitsFields fs v → emptyCountFields fs v = 0 →
      (RestoresFields fs t v ↔ CleanFields fs t v)) with
  | scalar w size => exact Iff.rfl
  | bool => exact Iff.rfl
  | empty => exact absurd hv.2 Nat.one_ne_zero
  | string => exact and_iff_left hv.1
  | array s n ih =>
      obtain ⟨hlim, hempty⟩ := hv
      rw [emptyCount, List.sum_eq_zero_iff_forall_eq_nat, List.forall_mem_map] at hempty
      exact forall₂_congr fun x hx => ih _ x ⟨hlim x hx, hempty x hx⟩
  | spContainer s ih =>
      obtain ⟨⟨hmax, hlim⟩, hempty⟩ := hv
      rw [emptyCount, List.sum_eq_zero_iff_forall_eq_nat, List.forall_mem_map] at hempty
      have hall : (∀ x ∈ v, Restores s (fresh s) x) ↔ ∀ x ∈ v, Clean s (fresh s) x :=
        forall₂_congr fun x hx => ih _ x ⟨hlim x hx, hempty x hx⟩
      constructor
      · rintro ⟨elems, rfl, -, hlen, -, helems⟩
        -- A count that does not wrap around counts what the target held.
        rw [mod_of_le_maxContainerCount hmax, List.length_append] at hlen
        have hnil : t = [] := List.eq_nil_of_length_eq_zero (by omega)
        rw [hnil, List.nil_append] at hall ⊢
        exact ⟨rfl, hall.mp helems⟩
      · rintro ⟨rfl, hclean⟩
        exact ⟨v, rfl, rfl, mod_of_le_maxContainerCount hmax, hmax, hall.mpr hclean⟩
  | spString => exact and_iff_left hv.1
  | optional s ih =>
      cases v with
      | none => exact Iff.rfl
      | some x => exact ih _ x ⟨hv.1 x rfl, hv.2⟩
  | constrained s cs ih => exact (and_iff_left hv.1.2).trans (ih t v ⟨hv.1.1, hv.2⟩)
  | struct holder fs ih => exact ih t v hv.1 hv.2
  | last name init s ih t v hlim hempty => exact ih t v ⟨hlim, hempty⟩
  | cons name init s fs ih ihfs t v hlim hempty =>
      obtain ⟨hempty₁, hempty₂⟩ := Nat.add_eq_zero_iff.mp hempty
      exact and_congr (ih t.1 v.1 ⟨hlim.1, hempty₁⟩) (ihfs t.2 v.2 hlim.2 hempty₂)

/-- Written and read into an object that holds `t`, with `rest` behind it, the value `v`
comes back, and the stream stops at the end of its bytes. -/
def ReadsBack (uninit : ℕ → UInt8) {α : Type} (s : Schema α) (t v : α) (rest : List UInt8)
    (h : (written uninit s v ++ rest).length < sizeRange) : Prop :=
  ∃ rs', read canReadNum s t (ofBytes (written uninit s v ++ rest) h) = .ok v rs' ∧
    rs'.position = (written uninit s v).length

theorem readsBack_iff_restores (uninit : ℕ → UInt8) {α : Type} (s : Schema α) (t v : α)
    (rest : List UInt8) (h : (written uninit s v ++ rest).length < sizeRange) :
    ReadsBack uninit s t v rest h ↔ Restores s t v := by
  have hremaining : emptyCount s v = 0 →
      (ofBytes (written uninit s v ++ rest) h).remaining = wire s v ++ rest :=
    fun hempty => congrArg (· ++ rest) (written_eq_wire uninit hempty)
  constructor
  · rintro ⟨rs', hread, hpos⟩
    have hle := (consumes_of_read _ _ _ _ hread).position_add_le
    rw [hpos, length_written] at hle
    have hzero : (ofBytes (written uninit s v ++ rest) h).position = 0 := rfl
    refine restores_of_read t v _ rs' rest (hremaining (by omega)) hread ?_
    rw [hpos, length_written, hzero, Nat.zero_add]
  · intro hv
    have hempty := emptyCount_of_restores t v hv
    refine ⟨_, read_of_restores s t v hv _ rest (hremaining hempty), ?_⟩
    rw [advance_position, length_written]
    exact Nat.zero_add _

/-- Whether a value comes back is what representability says, exactly for the representable
values that are read into nothing that shows, and for the other values unless the size
prefix of an initialiser has wrapped around. -/
theorem readsBack_iff_representable_iff (uninit : ℕ → UInt8) {α : Type} (s : Schema α) (t v : α)
    (rest : List UInt8) (h : (written uninit s v ++ rest).length < sizeRange) :
    (ReadsBack uninit s t v rest h ↔ Representable s v) ↔
      (Representable s v ∧ Clean s t v) ∨ (¬ Representable s v ∧ ¬ Restores s t v) := by
  rw [readsBack_iff_restores]
  by_cases hv : Representable s v
  · simp only [hv, iff_true, true_and, not_true_eq_false, false_and, or_false]
    exact restores_iff_clean t v hv
  · simp only [hv, iff_false, false_and, not_false_eq_true, true_and, false_or]

/-- `struct Item { std::string name = "x"; }` -/
def item : Schema Text :=
  .struct (text "Item") (.last (text "name") (some (text "x")) .string)

/-- An item that holds `A` can be carried, and comes back as `xA` in a container that was
empty. -/
theorem item_not_read_back :
    ¬ (ReadsBack (fun _ => 0) (.spContainer item) [] [text "A"] [] (by decide) ↔
      Representable (.spContainer item) [text "A"]) := by
  intro h
  have hv : Representable (.spContainer item) [text "A"] := by
    simp [Representable, WithinLimits, WithinLimitsFields, emptyCount, emptyCountFields, item,
      maxContainerCount, text]
  rw [readsBack_iff_restores, restores_iff_clean _ _ hv] at h
  have hclean : text "x" = [] := (h.mpr hv).2 (text "A") List.mem_cons_self
  exact absurd hclean (by decide)

/-- A packet of a bounded name, a list of optional numbers and a text. -/
def samplePacket : Schema (Text × List (Option (List.Vector UInt8 2)) × Text) :=
  .struct (text "SamplePacket")
    (.cons (text "name") none (.constrained .string [fun name => maxContainerSize 4 name.length])
      (.cons (text "numbers") none (.spContainer (.optional (.scalar 2 (by decide))))
        (.last (text "note") none .spString)))

/-- The round trip of one packet, with a byte of the next one behind it. -/
theorem samplePacket_reads_back :
    ReadsBack (fun _ => 0) samplePacket ([], [], [])
        ([65, 66], [some ⟨[1, 2], rfl⟩, none], [67, 0]) [9] (by decide) ↔
      Representable samplePacket ([65, 66], [some ⟨[1, 2], rfl⟩, none], [67, 0]) := by
  refine (readsBack_iff_representable_iff (fun _ => 0) samplePacket ([], [], [])
    ([65, 66], [some ⟨[1, 2], rfl⟩, none], [67, 0]) [9] (by decide)).mpr (.inl ⟨?_, ?_⟩)
  · simp [Representable, WithinLimits, WithinLimitsFields, emptyCount, emptyCountFields,
      samplePacket, maxContainerCount, maxContainerSize, containerSizeConstraint]
  · simp [Clean, CleanFields, samplePacket, fresh]

end BacsEnv.Plakpacs
