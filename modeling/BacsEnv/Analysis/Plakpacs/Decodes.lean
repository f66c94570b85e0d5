import BacsEnv.Analysis.Plakpacs.StreamReads

/-!
# What the bytes of a stream stand for

`Decodes s rs w rs'` says what the bytes of a stream stand for, whatever object is
read into. What a read leaves in the object is `merge s a w`: the walkers of strings
and size-prefixed containers append to what the object `a` held, and that of an
optional leaves it alone when the flag is `0` or the stream is exhausted. Elements and
values of optionals are merged with what `T value;` made. The constraints are checked
on the result (`Satisfied`). `read_ok_iff_decodes` connects them with the reader.
-/

set_option autoImplicit false

namespace BacsEnv.Plakpacs

open StatefulRun ReadStream

/-- A read of `s` into an object `T value;` that returned the value `v`. -/
def Returns (G : Guard) {α : Type} (s : Schema α) (rs : ReadStream) (v : α) (rs' : ReadStream) :
    Prop :=
  read G s (fresh s) rs = .ok v rs'

/-! ## What a walker that returned has done -/

/-- The `catch` clause around a field lets a value through unchanged. -/
theorem inField_ok_iff {α : Type} {holder name : Text} {m : ReadM α} {rs rs' : ReadStream} {v : α} :
    inField holder name m rs = .ok v rs' ↔ m rs = .ok v rs' := by
  unfold inField
  split <;> simp_all

section Walkers

variable {G : Guard} {α β : Type} {s : Schema α} {rs rs' : ReadStream}

/-- The elements of a fixed-size container replace those of the target. -/
theorem read_array_ok_iff {n : ℕ} {target v : List.Vector α n} :
    read G (.array s n) target rs = .ok v rs' ↔ Chain (Returns G s) rs v.toList rs' := by
  simp only [read, bind_ok_iff, repeatAppend_ok_iff]
  constructor
  · rintro ⟨a, rs₁, ⟨xs, hlen, hchain, rfl⟩, hpure⟩
    obtain ⟨rfl, rfl⟩ := EStateM.Result.ok.inj hpure
    rw [FixedAppender.toList_foldl_append_all xs _ hlen]
    exact hchain
  · intro hchain
    have hall := FixedAppender.toList_foldl_append_all v.toList target v.toList_length
    refine ⟨_, rs', ⟨v.toList, v.toList_length, hchain, rfl⟩, ?_⟩
    exact congrArg (EStateM.Result.ok · rs') (Subtype.ext hall)

/-- The elements of a size-prefixed container are pushed behind those of the target. -/
theorem read_spContainer_ok_iff {target v : List α} :
    read G (.spContainer s) target rs = .ok v rs' ↔
      ∃ elems rs₁, readCount G rs = .ok elems.length rs₁ ∧ Chain (Returns G s) rs₁ elems rs' ∧
        v = target ++ elems := by
  simp only [read, bind_ok_iff, repeatAppend_ok_iff, foldl_pushBack]
  constructor
  · rintro ⟨size, rs₁, hcount, elems, hlen, hchain, hv⟩
    exact ⟨elems, rs₁, by rw [hlen, hcount], hchain, hv⟩
  · rintro ⟨elems, rs₁, hcount, hchain, hv⟩
    exact ⟨elems.length, rs₁, hcount, elems, rfl, hchain, hv⟩

/-- So are the characters of an `sp_string`, whose terminator is dropped. -/
theorem read_spString_ok_iff {target v : Text} :
    read G .spString target rs = .ok v rs' ↔
      ∃ chars rs₁ rs₂ c, readCount G rs = .ok chars.length rs₁ ∧
        Chain (fun rs c rs' => readChar G rs = .ok c rs') rs₁ chars rs₂ ∧
        readChar G rs₂ = .ok c rs' ∧ v = target ++ chars := by
  simp only [read, bind_ok_iff, repeatAppend_ok_iff, foldl_pushBack]
  constructor
  · rintro ⟨size, rs₁, hcount, value, rs₂, ⟨chars, hlen, hchain, hv⟩, c, rs₃, hchar, hpure⟩
    obtain ⟨rfl, rfl⟩ := EStateM.Result.ok.inj hpure
    exact ⟨chars, rs₁, rs₂, c, by rw [hlen, hcount], hchain, hchar, hv⟩
  · rintro ⟨chars, rs₁, rs₂, c, hcount, hchain, hchar, rfl⟩
    exact ⟨chars.length, rs₁, hcount, _, rs₂, ⟨chars, rfl, hchain, rfl⟩, c, rs', hchar, rfl⟩

/-- The three ways in which the read of an optional returns. -/
theorem read_optional_ok_iff {target v : Option α} :
    read G (.optional s) target rs = .ok v rs' ↔
      (canRead G rs = false ∧ v = target ∧ rs' = rs) ∨
      (canRead G rs = true ∧ readBool G rs = .ok 0 rs' ∧ v = target) ∨
      (∃ rs₁ has x, canRead G rs = true ∧ readBool G rs = .ok has rs₁ ∧ has ≠ 0 ∧
        Returns G s rs₁ x rs' ∧ v = some x) := by
  simp only [read]
  rw [bind_of_ok (rfl : (get : ReadM ReadStream) rs = .ok rs rs)]
  cases hcan : canRead G rs with
  | false =>
      rw [if_neg Bool.false_ne_true]
      constructor
      · intro h
        obtain ⟨rfl, rfl⟩ := EStateM.Result.ok.inj h
        exact .inl ⟨rfl, rfl, rfl⟩
      · rintro (⟨-, rfl, rfl⟩ | ⟨hcan', -⟩ | ⟨rs₁, has, x, hcan', -⟩)
        · rfl
        · cases hcan'
        · cases hcan'
  | true =>
      rw [if_pos rfl, bind_ok_iff]
      constructor
      · rintro ⟨has, rs₂, hflag, h⟩
        by_cases hzero : has = 0
        · rw [hzero] at hflag h
          obtain ⟨rfl, rfl⟩ := EStateM.Result.ok.inj h
          exact .inr (.inl ⟨rfl, hflag, rfl⟩)
        · rw [if_pos (bne_iff_ne.mpr hzero)] at h
          obtain ⟨x, rs₃, hread, hpure⟩ := bind_ok_iff.mp h
          obtain ⟨rfl, rfl⟩ := EStateM.Result.ok.inj hpure
          exact .inr (.inr ⟨rs₂, has, x, rfl, hflag, hzero, hread, rfl⟩)
      · rintro (⟨hcan', -⟩ | ⟨-, hflag, rfl⟩ | ⟨rs₁, has, x, -, hflag, hzero, hx, rfl⟩)
        · cases hcan'
        · exact ⟨0, rs', hflag, rfl⟩
        · refine ⟨has, rs₁, hflag, ?_⟩
          rw [if_pos (bne_iff_ne.mpr hzero)]
          exact bind_ok_iff.mpr ⟨x, rs', hx, rfl⟩

/-- The constraints hold of what is in the target then. -/
theorem read_constrained_ok_iff {cs : List (α → Bool)} {target v : α} :
    read G (.constrained s cs) target rs = .ok v rs' ↔
      read G s target rs = .ok v rs' ∧ cs.all (fun check => check v) = true := by
  simp only [read, bind_ok_iff]
  constructor
  · rintro ⟨x, rs₁, hread, h⟩
    by_cases hcs : cs.all (fun check => check x) = true
    · rw [if_pos hcs] at h
      obtain ⟨rfl, rfl⟩ := EStateM.Result.ok.inj h
      exact ⟨hread, hcs⟩
    · rw [if_neg hcs] at h
      cases h
  · rintro ⟨hread, hcs⟩
    refine ⟨v, rs', hread, ?_⟩
    rw [if_pos hcs]
    rfl

/-- The first field of an object, and then the others. -/
theorem readObject_cons_ok_iff {holder name : Text} {init : Option α} {fs : Fields β}
    {target v : α × β} :
    readObject G holder (.cons name init s fs) target rs = .ok v rs' ↔
      ∃ rs₁, read G s target.1 rs = .ok v.1 rs₁ ∧
        readObject G holder fs target.2 rs₁ = .ok v.2 rs' := by
  simp only [readObject, bind_ok_iff, inField_ok_iff]
  constructor
  · rintro ⟨x, rs₁, hread, xs, rs₂, hrest, hpure⟩
    obtain ⟨rfl, rfl⟩ := EStateM.Result.ok.inj hpure
    exact ⟨rs₁, hread, hrest⟩
  · rintro ⟨rs₁, hread, hrest⟩
    exact ⟨v.1, rs₁, hread, v.2, rs', hrest, rfl⟩

end Walkers

/-! ## What the bytes stand for -/

mutual

/-- The bytes from `rs` to `rs'` stand for the value `w`. -/
def Decodes (G : Guard) {α : Type} : Schema α → ReadStream → α → ReadStream → Prop
  | .scalar w _, rs, v, rs' => ReadStream.read G w rs = .ok v rs'
  | .bool, rs, v, rs' => readBool G rs = .ok v rs'
  | .empty, rs, _, rs' => rs' = rs
  | .string, rs, v, rs' => readString G [] rs = .ok v rs'
  | .array s _, rs, v, rs' => Chain (Decodes G s) rs v.toList rs'
  | .spContainer s, rs, v, rs' =>
      ∃ rs₁, readCount G rs = .ok v.length rs₁ ∧ Chain (Decodes G s) rs₁ v rs'
  | .spString, rs, v, rs' =>
      ∃ rs₁ rs₂ c, readCount G rs = .ok v.length rs₁ ∧
        Chain (fun rs c rs' => readChar G rs = .ok c rs') rs₁ v rs₂ ∧ readChar G rs₂ = .ok c rs'
  | .optional s, rs, v, rs' =>
      (canRead G rs = false ∧ v = none ∧ rs' = rs) ∨
      (canRead G rs = true ∧ readBool G rs = .ok 0 rs' ∧ v = none) ∨
      ∃ rs₁ has x, canRead G rs = true ∧ readBool G rs = .ok has rs₁ ∧ has ≠ 0 ∧
        Decodes G s rs₁ x rs' ∧ v = some x
  | .constrained s _, rs, v, rs' => Decodes G s rs v rs'
  | .struct _ fs, rs, v, rs' => DecodesFields G fs rs v rs'

/-- The bytes from `rs` to `rs'` stand for the fields, in order. -/
def DecodesFields (G : Guard) {α : Type} : Fields α → ReadStream → α → ReadStream → Prop
  | .last _ _ s, rs, v, rs' => Decodes G s rs v rs'
  | .cons _ _ s fs, rs, v, rs' => ∃ rs₁, Decodes G s rs v.1 rs₁ ∧ DecodesFields G fs rs₁ v.2 rs'

end

mutual

/-- What an object that held `a` holds when the bytes stand for `w`. Elements and values of
optionals are read into objects of their own. -/
def merge {α : Type} : Schema α → α → α → α
  | .scalar _ _, _, w => w
  | .bool, _, w => w
  | .empty, _, w => w
  | .string, a, w => a ++ w
  | .array s _, _, w => w.map (merge s (fresh s))
  | .spContainer s, a, w => a ++ w.map (merge s (fresh s))
  | .spString, a, w => a ++ w
  | .optional _, a, none => a
  | .optional s, _, some x => some (merge s (fresh s) x)
  | .constrained s _, a, w => merge s a w
  | .struct _ fs, a, w => mergeFields fs a w

def mergeFields {α : Type} : Fields α → α → α → α
  | .last _ _ s, a, w => merge s a w
  | .cons _ _ s fs, a, w => (merge s a.1 w.1, mergeFields fs a.2 w.2)

end

mutual

/-- Every constraint that is checked holds of what is in the object then. -/
def Satisfied {α : Type} : Schema α → α → α → Prop
  | .array s _, _, w => ∀ x ∈ w.toList, Satisfied s (fresh s) x
  | .spContainer s, _, w => ∀ x ∈ w, Satisfied s (fresh s) x
  | .optional s, _, w => ∀ x ∈ w, Satisfied s (fresh s) x
  | .constrained s cs, a, w =>
      Satisfied s a w ∧ cs.all (fun check => check (merge s a w)) = true
  | .struct _ fs, a, w => SatisfiedFields fs a w
  | _, _, _ => True

def SatisfiedFields {α : Type} : Fields α → α → α → Prop
  | .last _ _ s, a, w => Satisfied s a w
  | .cons _ _ s fs, a, w => Satisfied s a.1 w.1 ∧ SatisfiedFields fs a.2 w.2

end

/-! ## What a read does to its target -/

/-- A string loop appends the characters it reads to what it starts with. -/
theorem readStringLoop_ok_iff {G : Guard} {fuel : ℕ} {value v : Text} {rs rs' : ReadStream} :
    readStringLoop G fuel value rs = .ok v rs' ↔
      ∃ w, readStringLoop G fuel [] rs = .ok w rs' ∧ v = value ++ w := by
  induction fuel generalizing value v rs with
  | zero => simp [readStringLoop]
  | succ fuel ih =>
      simp only [readStringLoop, bind_ok_iff]
      constructor
      · rintro ⟨c, rs₁, hread, hrest⟩
        by_cases hzero : c = 0
        · rw [if_pos hzero] at hrest
          cases hrest
          exact ⟨[], ⟨c, _, hread, by rw [if_pos hzero]; rfl⟩, (List.append_nil _).symm⟩
        · rw [if_neg hzero] at hrest
          obtain ⟨w, hw, hv⟩ := ih.mp hrest
          refine ⟨c :: w, ⟨c, rs₁, hread, ?_⟩, by simp [hv]⟩
          rw [if_neg hzero]
          exact ih.mpr ⟨w, hw, rfl⟩
      · rintro ⟨w, ⟨c, rs₁, hread, hrest⟩, hv⟩
        refine ⟨c, rs₁, hread, ?_⟩
        by_cases hzero : c = 0
        · rw [if_pos hzero] at hrest ⊢
          cases hrest
          rw [hv, List.append_nil]
          rfl
        · rw [if_neg hzero] at hrest ⊢
          obtain ⟨w', hw', hw⟩ := ih.mp hrest
          exact ih.mpr ⟨w', hw', by simp [hv, hw]⟩

/-- The elements of a container are read into objects of their own. -/
theorem chain_returns_iff {G : Guard} {α : Type} {s : Schema α}
    (ih : ∀ a rs v rs', read G s a rs = .ok v rs' ↔
      ∃ w, Decodes G s rs w rs' ∧ Satisfied s a w ∧ v = merge s a w)
    {rs rs' : ReadStream} {l : List α} :
    Chain (Returns G s) rs l rs' ↔
      ∃ ws, Chain (Decodes G s) rs ws rs' ∧ (∀ w ∈ ws, Satisfied s (fresh s) w) ∧
        l = ws.map (merge s (fresh s)) :=
  chain_iff_exists_map fun rs v rs' => ih (fresh s) rs v rs'

/-- A read returns exactly when the bytes stand for a value and the constraints hold of
what is in the object then, which is what it leaves there. -/
theorem read_ok_iff_decodes {G : Guard} {α : Type} {s : Schema α} (a : α) (rs : ReadStream) (v : α)
    (rs' : ReadStream) :
    read G s a rs = .ok v rs' ↔ ∃ w, Decodes G s rs w rs' ∧ Satisfied s a w ∧ v = merge s a w := by
  induction s using @Schema.rec _
    (fun _ fs => ∀ holder a rs v rs', readObject G holder fs a rs = .ok v rs' ↔
      ∃ w, DecodesFields G fs rs w rs' ∧ SatisfiedFields fs a w ∧ v = mergeFields fs a w)
    generalizing rs rs' with
  | scalar w size | bool =>
      constructor
      · exact fun h => ⟨v, h, trivial, rfl⟩
      · rintro ⟨w, hw, -, rfl⟩
        exact hw
  | empty =>
      constructor
      · intro h
        cases h
        exact ⟨(), rfl, trivial, rfl⟩
      · rintro ⟨w, hw, -, rfl⟩
        cases hw
        rfl
  | string =>
      have hloop : readString G a rs = .ok v rs' ↔
          ∃ w, readString G [] rs = .ok w rs' ∧ v = a ++ w := readStringLoop_ok_iff
      simp only [read, Decodes, Satisfied, merge, true_and]
      exact hloop
  | array s n ih =>
      rw [read_array_ok_iff, chain_returns_iff ih]
      constructor
      · rintro ⟨ws, hdec, hsat, hv⟩
        have hlen : ws.length = n := by
          have hlength := congrArg List.length hv
          rw [v.toList_length, List.length_map] at hlength
          exact hlength.symm
        exact ⟨⟨ws, hlen⟩, hdec, hsat, Subtype.ext hv⟩
      · rintro ⟨w, hdec, hsat, rfl⟩
        exact ⟨w.toList, hdec, hsat, List.Vector.toList_map w _⟩
  | spContainer s ih =>
      rw [read_spContainer_ok_iff]
      constructor
      · rintro ⟨elems, rs₁, hcount, hchain, rfl⟩
        obtain ⟨ws, hdec, hsat, rfl⟩ := (chain_returns_iff ih).mp hchain
        rw [List.length_map] at hcount
        exact ⟨ws, ⟨rs₁, hcount, hdec⟩, hsat, rfl⟩
      · rintro ⟨ws, ⟨rs₁, hcount, hdec⟩, hsat, rfl⟩
        rw [← List.length_map (merge s (fresh s))] at hcount
        exact ⟨_, rs₁, hcount, (chain_returns_iff ih).mpr ⟨ws, hdec, hsat, rfl⟩, rfl⟩
  | spString =>
      rw [read_spString_ok_iff]
      constructor
      · rintro ⟨w, rs₁, rs₂, c, hcount, hchain, hlast, rfl⟩
        exact ⟨w, ⟨rs₁, rs₂, c, hcount, hchain, hlast⟩, trivial, rfl⟩
      · rintro ⟨w, ⟨rs₁, rs₂, c, hcount, hchain, hlast⟩, -, rfl⟩
        exact ⟨w, rs₁, rs₂, c, hcount, hchain, hlast, rfl⟩
  | optional s ih =>
      rw [read_optional_ok_iff]
      constructor
      · rintro (⟨hend, rfl, rfl⟩ | ⟨hcan, hflag, rfl⟩ |
          ⟨rs₁, has, x, hcan, hflag, hset, hread, rfl⟩)
        · exact ⟨none, .inl ⟨hend, rfl, rfl⟩, by simp [Satisfied], rfl⟩
        · exact ⟨none, .inr (.inl ⟨hcan, hflag, rfl⟩), by simp [Satisfied], rfl⟩
        · obtain ⟨w, hw, hsat, rfl⟩ := (ih _ _ _ _).mp hread
          exact ⟨some w, .inr (.inr ⟨rs₁, has, w, hcan, hflag, hset, hw, rfl⟩),
            by simpa [Satisfied] using hsat, rfl⟩
      · rintro ⟨w, ⟨hend, rfl, rfl⟩ | ⟨hcan, hflag, rfl⟩ |
          ⟨rs₁, has, x, hcan, hflag, hset, hx, rfl⟩, hsat, rfl⟩
        · exact .inl ⟨hend, rfl, rfl⟩
        · exact .inr (.inl ⟨hcan, hflag, rfl⟩)
        · have hread : Returns G s rs₁ (merge s (fresh s) x) rs' :=
            (ih _ _ _ _).mpr ⟨x, hx, hsat x rfl, rfl⟩
          exact .inr (.inr ⟨rs₁, has, _, hcan, hflag, hset, hread, rfl⟩)
  | constrained s cs ih =>
      rw [read_constrained_ok_iff, ih]
      constructor
      · rintro ⟨⟨w, hw, hsat, rfl⟩, hcs⟩
        exact ⟨w, hw, ⟨hsat, hcs⟩, rfl⟩
      · rintro ⟨w, hw, ⟨hsat, hcs⟩, rfl⟩
        exact ⟨⟨w, hw, hsat, rfl⟩, hcs⟩
  | struct holder fs ih => exact ih holder a rs v rs'
  | last name init s ih holder a rs v rs' => exact inField_ok_iff.trans (ih a rs v rs')
  | cons name init s fs ih ihfs holder a rs v rs' =>
      rw [readObject_cons_ok_iff]
      constructor
      · rintro ⟨rs₁, hread, hrest⟩
        obtain ⟨w, hw, hsat, hv⟩ := (ih _ _ _ _).mp hread
        obtain ⟨ws, hws, hsats, hvs⟩ := (ihfs _ _ _ _ _).mp hrest
        exact ⟨(w, ws), ⟨rs₁, hw, hws⟩, ⟨hsat, hsats⟩, Prod.ext hv hvs⟩
      · rintro ⟨w, ⟨rs₁, hw, hws⟩, ⟨hsat, hsats⟩, rfl⟩
        exact ⟨rs₁, (ih _ _ _ _).mpr ⟨w.1, hw, hsat, rfl⟩,
          (ihfs _ _ _ _ _).mpr ⟨w.2, hws, hsats, rfl⟩⟩

/-- The bytes of a stream stand for one value. -/
theorem decodes_unique {G : Guard} {α : Type} {s : Schema α} (rs : ReadStream) (v w : α)
    (rs₁ rs₂ : ReadStream) (hv : Decodes G s rs v rs₁) (hw : Decodes G s rs w rs₂) :
    v = w ∧ rs₁ = rs₂ := by
  induction s using @Schema.rec _
    (fun _ fs => ∀ rs v w rs₁ rs₂, DecodesFields G fs rs v rs₁ → DecodesFields G fs rs w rs₂ →
      v = w ∧ rs₁ = rs₂) generalizing rs rs₁ rs₂ with
  | scalar w size => exact EStateM.Result.ok.inj (hv.symm.trans hw)
  | bool => exact EStateM.Result.ok.inj (hv.symm.trans hw)
  | empty =>
      cases hv
      cases hw
      exact ⟨rfl, rfl⟩
  | string => exact EStateM.Result.ok.inj (hv.symm.trans hw)
  | array s n ih =>
      have hlen : v.toList.length = w.toList.length := by simp
      obtain ⟨hvw, hrs⟩ := Chain.unique ih hv hw hlen
      exact ⟨Subtype.ext hvw, hrs⟩
  | spContainer s ih =>
      obtain ⟨rs₃, hcount, hv⟩ := hv
      obtain ⟨rs₄, hcount', hw⟩ := hw
      obtain ⟨hlen, hrs⟩ := EStateM.Result.ok.inj (hcount.symm.trans hcount')
      rw [← hrs] at hw
      exact Chain.unique ih hv hw hlen
  | spString =>
      obtain ⟨rs₃, rs₄, c, hcount, hv, hlast⟩ := hv
      obtain ⟨rs₅, rs₆, d, hcount', hw, hlast'⟩ := hw
      obtain ⟨hlen, hrs⟩ := EStateM.Result.ok.inj (hcount.symm.trans hcount')
      rw [← hrs] at hw
      have hchar : ∀ (rs : ReadStream) (c d : UInt8) (rs₁ rs₂ : ReadStream),
          readChar G rs = .ok c rs₁ → readChar G rs = .ok d rs₂ → c = d ∧ rs₁ = rs₂ :=
        fun _ _ _ _ _ hc hd => EStateM.Result.ok.inj (hc.symm.trans hd)
      obtain ⟨hvw, hend⟩ := Chain.unique hchar hv hw hlen
      rw [← hend] at hlast'
      exact ⟨hvw, (hchar _ _ _ _ _ hlast hlast').2⟩
  | optional s ih =>
      rcases hv with ⟨hcan, rfl, rfl⟩ | ⟨hcan, hflag, rfl⟩ |
          ⟨rs₃, has, x, hcan, hflag, hset, hx, rfl⟩ <;>
        rcases hw with ⟨hcan', rfl, rfl⟩ | ⟨hcan', hflag', rfl⟩ |
          ⟨rs₄, has', y, hcan', hflag', hset', hy, rfl⟩ <;>
        try exact absurd (hcan.symm.trans hcan') Bool.noConfusion
      · exact ⟨rfl, rfl⟩
      · exact ⟨rfl, (EStateM.Result.ok.inj (hflag.symm.trans hflag')).2⟩
      · exact absurd (EStateM.Result.ok.inj (hflag.symm.trans hflag')).1.symm hset'
      · exact absurd (EStateM.Result.ok.inj (hflag.symm.trans hflag')).1 hset
      · obtain ⟨-, hrs⟩ := EStateM.Result.ok.inj (hflag.symm.trans hflag')
        rw [← hrs] at hy
        obtain ⟨hxy, hend⟩ := ih _ _ _ _ _ hx hy
        exact ⟨congrArg some hxy, hend⟩
  | constrained s cs ih => exact ih rs v w rs₁ rs₂ hv hw
  | struct holder fs ih => exact ih rs v w rs₁ rs₂ hv hw
  | last name init s ih rs v w rs₁ rs₂ hv hw => exact ih rs v w rs₁ rs₂ hv hw
  | cons name init s fs ih ihfs rs v w rs₁ rs₂ hv hw =>
      obtain ⟨rs₃, hv₁, hv₂⟩ := hv
      obtain ⟨rs₄, hw₁, hw₂⟩ := hw
      obtain ⟨hfst, hrs⟩ := ih _ _ _ _ _ hv₁ hw₁
      rw [← hrs] at hw₂
      obtain ⟨hsnd, hend⟩ := ihfs _ _ _ _ _ hv₂ hw₂
      exact ⟨Prod.ext hfst hsnd, hend⟩

/-- A read of bytes that stand for a value succeeds when the constraints hold. -/
theorem exists_read_iff {G : Guard} {α : Type} {s : Schema α} {a w : α} {rs rs' : ReadStream}
    (hw : Decodes G s rs w rs') : (∃ v rs₁, read G s a rs = .ok v rs₁) ↔ Satisfied s a w := by
  constructor
  · rintro ⟨v, rs₁, hread⟩
    obtain ⟨u, hu, hsat, -⟩ := (read_ok_iff_decodes _ _ _ _).mp hread
    have huw : u = w := (decodes_unique _ _ _ _ _ hu hw).1
    rwa [huw] at hsat
  · intro hsat
    exact ⟨_, _, (read_ok_iff_decodes _ _ _ _).mpr ⟨w, hw, hsat, rfl⟩⟩

end BacsEnv.Plakpacs
