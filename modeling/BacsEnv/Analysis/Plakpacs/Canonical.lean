import BacsEnv.Analysis.Plakpacs.RoundTrip

/-!
# Accepted bytes are nearly canonical

`marks s v rs` records what a read of `s` does with each of the bytes that stand for
`v`: most bytes are kept in the value, the flag of an optional only matters for being
zero or not, the terminator of an `sp_string` is dropped. It also has an entry for every
optional that is met with the stream exhausted, which takes no byte. The wire format of
the value is the taken bytes, normalised by their marks, and then a zero byte for each
exhausted optional (`Accounts`).
-/

set_option autoImplicit false

namespace BacsEnv.Plakpacs

open LittleEndian StatefulRun ReadStream

/-- What the reader did with a byte, or did without one. -/
inductive Mark
  /-- The byte is part of the value. -/
  | kept
  /-- The byte was read as the flag of an optional. -/
  | flag
  /-- The byte was dropped. -/
  | ignored
  /-- An optional was met with the stream exhausted. -/
  | exhausted
  deriving DecidableEq

/-- Whether a byte was taken. -/
def Mark.takes : Mark → Bool
  | .exhausted => false
  | _ => true

/-- The byte that stands for a taken byte when the value is written again. -/
def Mark.norm : Mark → UInt8 → UInt8
  | .flag, b => if b = 0 then 0 else 1
  | .ignored, _ => 0
  | _, b => b

/-- The number of bytes that were taken. -/
def takenCount (ms : List Mark) : ℕ := (ms.filter Mark.takes).length

/-- The number of optionals that were met with the stream exhausted. -/
def exhaustedCount (ms : List Mark) : ℕ := ms.count .exhausted

/-- Taken bytes, normalised by their marks. -/
def norm (ms : List Mark) (bytes : List UInt8) : List UInt8 :=
  List.zipWith Mark.norm (ms.filter Mark.takes) bytes

/-- The marks of elements that were read one after the other. -/
def marksLoop {α : Type} (m : α → ReadStream → List Mark) : List α → ReadStream → List Mark
  | [], _ => []
  | x :: l, rs => m x rs ++ marksLoop m l (rs.advance (takenCount (m x rs)))

mutual

/-- The marks of the bytes from `rs` on that stand for a value. -/
def marks (G : Guard) {α : Type} : Schema α → α → ReadStream → List Mark
  | .scalar w _, _, _ => List.replicate w .kept
  | .bool, _, _ => [.kept]
  | .empty, _, _ => []
  | .string, v, _ => List.replicate (v.length + 1) .kept
  | .array s _, v, rs => marksLoop (marks G s) v.toList rs
  | .spContainer s, v, rs => List.replicate 4 .kept ++ marksLoop (marks G s) v (rs.advance 4)
  | .spString, v, _ => List.replicate (4 + v.length) .kept ++ [.ignored]
  | .optional _, none, rs => if canRead G rs then [.flag] else [.exhausted]
  | .optional s, some x, rs => .flag :: marks G s x (rs.advance 1)
  | .constrained s _, v, rs => marks G s v rs
  | .struct _ fs, v, rs => marksFields G fs v rs

def marksFields (G : Guard) {α : Type} : Fields α → α → ReadStream → List Mark
  | .last _ _ s, v, rs => marks G s v rs
  | .cons _ _ s fs, (v, vs), rs =>
      marks G s v rs ++ marksFields G fs vs (rs.advance (takenCount (marks G s v rs)))

end

mutual

/-- No empty class type occurs in the schema. -/
def NoEmptyClass {α : Type} : Schema α → Prop
  | .empty => False
  | .array s _ => NoEmptyClass s
  | .spContainer s => NoEmptyClass s
  | .optional s => NoEmptyClass s
  | .constrained s _ => NoEmptyClass s
  | .struct _ fs => NoEmptyClassFields fs
  | _ => True

def NoEmptyClassFields {α : Type} : Fields α → Prop
  | .last _ _ s => NoEmptyClass s
  | .cons _ _ s fs => NoEmptyClass s ∧ NoEmptyClassFields fs

end

/-- The mark that a value gives to a byte of its wire format, where an exhausted
optional and one with flag `0` are the same. -/
def Mark.settle : Mark → Mark
  | .exhausted => .flag
  | m => m

mutual

/-- The marks of the wire format of a value. -/
def layout {α : Type} : Schema α → α → List Mark
  | .scalar w _, _ => List.replicate w .kept
  | .bool, _ => [.kept]
  | .empty, _ => []
  | .string, v => List.replicate (v.length + 1) .kept
  | .array s _, v => v.toList.flatMap (layout s)
  | .spContainer s, v => List.replicate 4 .kept ++ v.flatMap (layout s)
  | .spString, v => List.replicate (4 + v.length) .kept ++ [.ignored]
  | .optional _, none => [.flag]
  | .optional s, some x => .flag :: layout s x
  | .constrained s _, v => layout s v
  | .struct _ fs, v => layoutFields fs v

def layoutFields {α : Type} : Fields α → α → List Mark
  | .last _ _ s, v => layout s v
  | .cons _ _ s fs, (v, vs) => layout s v ++ layoutFields fs vs

end

/-! ## Marks and their numbers -/

@[simp] theorem takenCount_append (ms₁ ms₂ : List Mark) :
    takenCount (ms₁ ++ ms₂) = takenCount ms₁ + takenCount ms₂ := by
  rw [takenCount, List.filter_append, List.length_append]
  rfl

@[simp] theorem exhaustedCount_append (ms₁ ms₂ : List Mark) :
    exhaustedCount (ms₁ ++ ms₂) = exhaustedCount ms₁ + exhaustedCount ms₂ :=
  List.count_append

theorem exhaustedCount_replicate_kept (n : ℕ) : exhaustedCount (List.replicate n .kept) = 0 :=
  List.count_eq_zero.mpr fun hmem => Mark.noConfusion (List.eq_of_mem_replicate hmem)

/-- Marks without an exhausted optional all take a byte and are settled. -/
theorem takes_of_exhaustedCount_eq_zero {ms : List Mark} (h : exhaustedCount ms = 0) :
    ms.filter Mark.takes = ms ∧ ms.map Mark.settle = ms := by
  have hne : ∀ m ∈ ms, m ≠ .exhausted :=
    fun m hm heq => List.count_eq_zero.mp h (heq ▸ hm)
  constructor
  · apply List.filter_eq_self.mpr
    intro m hm
    have hm' := hne m hm
    cases m <;> simp_all [Mark.takes]
  · conv_rhs => rw [← List.map_id ms]
    apply List.map_congr_left
    intro m hm
    have hm' := hne m hm
    cases m <;> simp_all [Mark.settle]

theorem settle_marksLoop {α : Type} {m : α → ReadStream → List Mark} {f : α → List Mark}
    (hm : ∀ x rs, (m x rs).map Mark.settle = f x) (l : List α) (rs : ReadStream) :
    (marksLoop m l rs).map Mark.settle = l.flatMap f := by
  induction l generalizing rs with
  | nil => rfl
  | cons x l ih => rw [marksLoop, List.map_append, hm, ih, List.flatMap_cons]

/-- Settled, the marks of a value are those of its wire format. -/
theorem settle_marks (G : Guard) {α : Type} (s : Schema α) (v : α) (rs : ReadStream) :
    (marks G s v rs).map Mark.settle = layout s v := by
  induction s using @Schema.rec _
    (fun _ fs => ∀ v rs, (marksFields G fs v rs).map Mark.settle = layoutFields fs v)
    generalizing rs with
  | scalar w size => exact List.map_replicate
  | bool => rfl
  | empty => rfl
  | string => exact List.map_replicate
  | array s n ih => exact settle_marksLoop ih v.toList rs
  | spContainer s ih =>
      rw [marks, layout, List.map_append, List.map_replicate, settle_marksLoop ih]
      rfl
  | spString =>
      rw [marks, layout, List.map_append, List.map_replicate]
      rfl
  | optional s ih =>
      cases v with
      | none =>
          rw [marks, layout]
          cases canRead G rs <;> rfl
      | some x => exact congrArg (Mark.flag :: ·) (ih x _)
  | constrained s cs ih => exact ih v rs
  | struct holder fs ih => exact ih v rs
  | last name init s ih v rs => exact ih v rs
  | cons name init s fs ih ihfs v rs =>
      rw [marksFields, layoutFields, List.map_append, ih, ihfs]

/-- Every mark takes a byte or is that of an exhausted optional. -/
theorem length_eq_takenCount_add (ms : List Mark) :
    ms.length = takenCount ms + exhaustedCount ms := by
  induction ms with
  | nil => rfl
  | cons m ms ih =>
      have hone : [m].length = takenCount [m] + exhaustedCount [m] := by
        cases m <;> rfl
      change ([m] ++ ms).length = takenCount ([m] ++ ms) + exhaustedCount ([m] ++ ms)
      rw [List.length_append, takenCount_append, exhaustedCount_append, hone, ih]
      omega

/-- The account of a read from `rs` to `rs'` with the marks `ms`: each taken byte has its
mark, an optional is exhausted only at the end of the buffer, and, without a value of an
empty class, `image` is the normalised bytes and then a zero byte for each exhausted
optional. -/
structure Accounts (rs rs' : ReadStream) (ms : List Mark) (image : List UInt8) (empties : ℕ) :
    Prop where
  advance_eq : rs' = rs.advance (takenCount ms)
  fits : 0 < takenCount ms → rs.position + takenCount ms ≤ rs.bytes.length
  at_end : exhaustedCount ms ≠ 0 → rs.bytes.length ≤ rs.position + takenCount ms
  image_eq : empties = 0 →
    image = norm ms (rs.remaining.take (takenCount ms)) ++ List.replicate (exhaustedCount ms) 0

namespace Accounts

theorem trans {rs rs₁ rs₂ : ReadStream} {ms₁ ms₂ : List Mark} {image₁ image₂ : List UInt8}
    {m n : ℕ} (h₁ : Accounts rs rs₁ ms₁ image₁ m) (h₂ : Accounts rs₁ rs₂ ms₂ image₂ n) :
    Accounts rs rs₂ (ms₁ ++ ms₂) (image₁ ++ image₂) (m + n) := by
  obtain ⟨rfl, hfits₁, hend₁, himage₁⟩ := h₁
  obtain ⟨rfl, hfits₂, hend₂, himage₂⟩ := h₂
  rw [advance_bytes, advance_position] at hfits₂ hend₂
  refine { advance_eq := ?_, fits := ?_, at_end := ?_, image_eq := ?_ }
  · rw [advance_advance, takenCount_append]
  · rw [takenCount_append]
    omega
  · rw [takenCount_append, exhaustedCount_append]
    omega
  · intro hzero
    have hdrop : (rs.advance (takenCount ms₁)).remaining =
        rs.remaining.drop (takenCount ms₁) := by
      simp [remaining]
    have hsplit : norm (ms₁ ++ ms₂) (rs.remaining.take (takenCount ms₁ + takenCount ms₂)) =
        norm ms₁ (rs.remaining.take (takenCount ms₁)) ++
          norm ms₂ ((rs.remaining.drop (takenCount ms₁)).take (takenCount ms₂)) := by
      have hlen : (ms₁.filter Mark.takes).length =
          (rs.remaining.take (takenCount ms₁)).length := by
        rw [List.length_take, length_remaining]
        unfold takenCount at hfits₁ ⊢
        omega
      rw [norm, List.filter_append, List.take_add, List.zipWith_append hlen]
      rfl
    rw [takenCount_append, exhaustedCount_append, hsplit, himage₁ (by omega), himage₂ (by omega),
      hdrop]
    by_cases hnone : exhaustedCount ms₁ = 0
    · simp [hnone]
    · -- After an exhausted optional nothing is left to be taken.
      have hstop : takenCount ms₂ = 0 := by
        have hend := hend₁ hnone
        omega
      simp [hstop, norm]

/-- The account of a read that took nothing and met no optional. -/
theorem refl (rs : ReadStream) : Accounts rs rs [] [] 0 :=
  { advance_eq := rfl, fits := fun h => absurd h (Nat.lt_irrefl 0),
    at_end := fun h => absurd rfl h, image_eq := fun _ => rfl }

/-- The account of a read that took the next bytes, each with a mark that takes one. -/
theorem of_taken {rs : ReadStream} {ms : List Mark} (taken : List UInt8) {image : List UInt8}
    (hms : exhaustedCount ms = 0) (hlen : ms.length = taken.length)
    (hfit : rs.position + taken.length ≤ rs.bytes.length)
    (htaken : rs.remaining.take taken.length = taken)
    (himage : image = List.zipWith Mark.norm ms taken) :
    Accounts rs (rs.advance taken.length) ms image 0 := by
  have hcount : takenCount ms = taken.length := by
    rw [takenCount, (takes_of_exhaustedCount_eq_zero hms).1, hlen]
  refine { advance_eq := by rw [hcount], fits := fun _ => by rwa [hcount],
           at_end := fun hne => absurd hms hne, image_eq := fun _ => ?_ }
  rw [hcount, htaken, hms, norm, (takes_of_exhaustedCount_eq_zero hms).1, himage]
  exact (List.append_nil _).symm

/-- The account of a read that kept the next bytes. -/
theorem of_kept {rs : ReadStream} (taken : List UInt8)
    (hfit : rs.position + taken.length ≤ rs.bytes.length)
    (htaken : rs.remaining.take taken.length = taken) :
    Accounts rs (rs.advance taken.length) (List.replicate taken.length .kept) taken 0 := by
  have hzip : ∀ l : List UInt8,
      l = List.zipWith Mark.norm (List.replicate l.length .kept) l := by
    intro l
    induction l with
    | nil => rfl
    | cons b l ih =>
        rw [List.length_cons, List.replicate_succ, List.zipWith_cons_cons, ← ih]
        rfl
  exact of_taken taken (exhaustedCount_replicate_kept _) (List.length_replicate ..) hfit htaken
    (hzip taken)

/-- The account of a byte that is part of the value. -/
theorem of_readBool {rs rs' : ReadStream} {b : UInt8} {G : Guard} (h : readBool G rs = .ok b rs') :
    Accounts rs rs' [.kept] [b] 0 := by
  obtain ⟨-, hfit, hbyte, rfl⟩ := readBool_ok_iff.mp h
  exact of_kept [b] hfit hbyte

/-- The account of the flag of an optional. -/
theorem of_flag {rs rs' : ReadStream} {has : UInt8} {G : Guard} (h : readBool G rs = .ok has rs') :
    Accounts rs rs' [.flag] [if has = 0 then 0 else 1] 0 := by
  obtain ⟨-, hfit, hbyte, rfl⟩ := readBool_ok_iff.mp h
  exact of_taken [has] rfl rfl hfit hbyte rfl

/-- The account of a size prefix. -/
theorem of_readCount {rs rs' : ReadStream} {size : ℕ} {G : Guard}
    (h : readCount G rs = .ok size rs') :
    Accounts rs rs' (List.replicate 4 .kept) (encode 4 (size % 2 ^ 32)) 0 := by
  obtain ⟨-, hfit, hbytes, hmax, rfl⟩ := readCount_ok_iff.mp h
  have hkept := of_kept (encode 4 size) (by rwa [length_encode]) (by rwa [length_encode])
  rw [length_encode] at hkept
  rw [mod_of_le_maxContainerCount hmax]
  exact hkept

/-- The account of the characters of an `sp_string`. -/
theorem of_chars {G : Guard} {rs rs' : ReadStream} {l : Text}
    (h : Chain (fun rs c rs' => readChar G rs = .ok c rs') rs l rs') :
    Accounts rs rs' (List.replicate l.length .kept) l 0 := by
  induction h with
  | nil rs => exact refl rs
  | @cons rs rs₁ rs₂ c l hc _ ih =>
      obtain ⟨-, hfit, hbyte, rfl⟩ := readChar_ok_iff.mp hc
      exact (of_kept [c] hfit hbyte).trans ih

/-- The account of a byte that was dropped. -/
theorem of_ignored {G : Guard} {rs rs' : ReadStream} {c : UInt8}
    (h : readChar G rs = .ok c rs') : Accounts rs rs' [.ignored] [0] 0 := by
  obtain ⟨-, hfit, hbyte, rfl⟩ := readChar_ok_iff.mp h
  exact of_taken [c] rfl rfl hfit hbyte rfl

/-- The account of an optional that was met with the stream exhausted. -/
theorem of_exhausted {rs : ReadStream} (h : canRead canReadNum rs = false) :
    Accounts rs rs [.exhausted] [0] 0 := by
  have hend : rs.bytes.length ≤ rs.position := by
    by_contra hlt
    have hpass := (canReadNum_iff rs (n := 1) (by omega)).mpr (by omega)
    simp [canRead, hpass] at h
  exact { advance_eq := rfl, fits := fun h => absurd h (Nat.lt_irrefl 0),
          at_end := fun _ => hend, image_eq := fun _ => rfl }

/-- The account of a list of elements that were read one after the other. -/
theorem of_chain {α : Type} {R : ReadStream → α → ReadStream → Prop}
    {m : α → ReadStream → List Mark} {image : α → List UInt8} {empties : α → ℕ}
    (hR : ∀ rs x rs', R rs x rs' → Accounts rs rs' (m x rs) (image x) (empties x))
    {rs rs' : ReadStream} {l : List α} (h : Chain R rs l rs') :
    Accounts rs rs' (marksLoop m l rs) (l.flatMap image) (l.map empties).sum := by
  induction h with
  | nil rs => exact refl rs
  | @cons rs rs₁ rs₂ x l hx _ ih =>
      have hacc := hR _ _ _ hx
      rw [marksLoop, ← hacc.advance_eq, List.flatMap_cons, List.map_cons, List.sum_cons]
      exact hacc.trans ih

end Accounts

/-- The account of the bytes that stand for a value. -/
theorem accounts_of_decodes {α : Type} {s : Schema α} (rs : ReadStream) (v : α) (rs' : ReadStream)
    (h : Decodes canReadNum s rs v rs') :
    Accounts rs rs' (marks canReadNum s v rs) (wire s v) (emptyCount s v) := by
  induction s using @Schema.rec _
    (fun _ fs => ∀ rs v rs', DecodesFields canReadNum fs rs v rs' →
      Accounts rs rs' (marksFields canReadNum fs v rs) (wireFields fs v) (emptyCountFields fs v))
    generalizing rs rs' with
  | scalar w size =>
      obtain ⟨-, hfit, hv, rfl⟩ := read_ok_iff.mp h
      have hkept := Accounts.of_kept v.toList (by rwa [v.toList_length])
        (by rw [v.toList_length, hv])
      rw [v.toList_length] at hkept
      exact hkept
  | bool => exact Accounts.of_readBool h
  | empty =>
      obtain rfl : rs' = rs := h
      exact { advance_eq := rfl, fits := fun h => absurd h (Nat.lt_irrefl 0),
              at_end := fun h => absurd rfl h, image_eq := fun h => absurd h Nat.one_ne_zero }
  | string =>
      obtain ⟨w, hw, -, hfit, htake, rfl⟩ := readStringLoop_ok h
      obtain rfl : v = w := hw
      have hkept := Accounts.of_kept (v ++ [0]) (by simpa using hfit) (by simpa using htake)
      rw [List.length_append, List.length_singleton] at hkept
      exact hkept
  | array s n ih => exact Accounts.of_chain ih h
  | spContainer s ih =>
      obtain ⟨rs₁, hcount, hchain⟩ := h
      have hhead := Accounts.of_readCount hcount
      have hacc := hhead.trans (Accounts.of_chain ih hchain)
      rw [Nat.zero_add, hhead.advance_eq] at hacc
      exact hacc
  | spString =>
      obtain ⟨rs₁, rs₂, c, hcount, hchain, hlast⟩ := h
      have hacc := (Accounts.of_readCount hcount).trans
        ((Accounts.of_chars hchain).trans (Accounts.of_ignored hlast))
      rw [← List.append_assoc, List.replicate_append_replicate] at hacc
      exact hacc
  | optional s ih =>
      rcases h with ⟨hcan, rfl, rfl⟩ | ⟨hcan, hflag, rfl⟩ |
        ⟨rs₁, has, x, hcan, hflag, hset, hx, rfl⟩
      · have hacc := Accounts.of_exhausted hcan
        simp only [marks, hcan]
        exact hacc
      · have hacc := Accounts.of_flag hflag
        simp only [marks, hcan]
        exact hacc
      · have hhead := Accounts.of_flag hflag
        rw [if_neg hset] at hhead
        have hacc := hhead.trans (ih _ _ _ hx)
        rw [Nat.zero_add, hhead.advance_eq] at hacc
        exact hacc
  | constrained s cs ih => exact ih rs v rs' h
  | struct holder fs ih => exact ih rs v rs' h
  | last name init s ih rs v rs' h => exact ih rs v rs' h
  | cons name init s fs ih ihfs rs v rs' h =>
      obtain ⟨rs₁, hfirst, hrest⟩ := h
      have hhead := ih _ _ _ hfirst
      have hacc := hhead.trans (ihfs _ _ _ hrest)
      rw [hhead.advance_eq] at hacc
      exact hacc

/-- A value of a schema without empty classes has no value of an empty class. -/
theorem emptyCount_of_noEmptyClass {α : Type} {s : Schema α} (hs : NoEmptyClass s) (v : α) :
    emptyCount s v = 0 := by
  induction s using @Schema.rec _
    (fun _ fs => ∀ v, NoEmptyClassFields fs → emptyCountFields fs v = 0) with
  | scalar w size => rfl
  | bool => rfl
  | empty => exact hs.elim
  | string => rfl
  | array s n ih =>
      have hall : ∀ x ∈ v.toList, emptyCount s x = 0 := fun x _ => ih hs x
      simpa [emptyCount, List.sum_eq_zero_iff_forall_eq_nat] using hall
  | spContainer s ih =>
      have hall : ∀ x ∈ v, emptyCount s x = 0 := fun x _ => ih hs x
      simpa [emptyCount, List.sum_eq_zero_iff_forall_eq_nat] using hall
  | spString => rfl
  | optional s ih =>
      cases v with
      | none => rfl
      | some x => exact ih hs x
  | constrained s cs ih => exact ih hs v
  | struct holder fs ih => exact ih v hs
  | last name init s ih v hs => exact ih hs v
  | cons name init s fs ih ihfs v hs =>
      have hv := ih hs.1 v.1
      have hvs := ihfs v.2 hs.2
      simp [emptyCountFields, hv, hvs]

/-- Where two byte strings with the same normal form differ, the mark says that the
byte was dropped, or that it was a flag and both bytes are not zero. -/
theorem differ_of_norm_eq {ms : List Mark} {bytes bytes₂ : List UInt8}
    (hms : exhaustedCount ms = 0) (hlen : ms.length = bytes.length)
    (hlen₂ : ms.length = bytes₂.length) (h : norm ms bytes = norm ms bytes₂) {i : ℕ}
    (hne : bytes[i]? ≠ bytes₂[i]?) :
    ms[i]? = some .ignored ∨
      ms[i]? = some .flag ∧ bytes[i]? ≠ some 0 ∧ bytes₂[i]? ≠ some 0 := by
  unfold norm at h
  rw [(takes_of_exhaustedCount_eq_zero hms).1] at h
  by_cases hi : i < ms.length
  · have hb := congrArg (fun l => l[i]?) h
    simp only [List.getElem?_zipWith, List.getElem?_eq_getElem hi,
      List.getElem?_eq_getElem (hlen ▸ hi), List.getElem?_eq_getElem (hlen₂ ▸ hi),
      Option.some.injEq, ne_eq] at hb hne ⊢
    cases hm : ms[i] with
    | kept =>
        rw [hm] at hb
        exact absurd hb hne
    | ignored => exact .inl rfl
    | exhausted =>
        have hmem := List.getElem_mem hi
        rw [hm] at hmem
        exact absurd hmem (List.count_eq_zero.mp hms)
    | flag =>
        rw [hm] at hb
        refine .inr ⟨rfl, ?_, ?_⟩
        · intro hzero
          rw [hzero] at hb hne
          simp [Mark.norm, Ne.symm hne] at hb
        · intro hzero
          rw [hzero] at hb hne
          simp [Mark.norm, hne] at hb
  · have hnone : bytes[i]? = none := List.getElem?_eq_none (by omega)
    have hnone₂ : bytes₂[i]? = none := List.getElem?_eq_none (by omega)
    exact absurd (hnone.trans hnone₂.symm) hne

/-! ## Writing what was read -/

/-- A read that returned `v`, of which nothing was in any object before it was read into. -/
structure CleanRead {α : Type} (s : Schema α) (t : α) (rs : ReadStream) (v : α)
    (rs' : ReadStream) : Prop where
  returns : read canReadNum s t rs = .ok v rs'
  clean : ∀ w rs₁, Decodes canReadNum s rs w rs₁ → Clean s t w

/-- It returned what the bytes stand for. -/
theorem CleanRead.decodes {α : Type} {s : Schema α} {t v : α} {rs rs' : ReadStream}
    (h : CleanRead s t rs v rs') : Decodes canReadNum s rs v rs' := by
  obtain ⟨w, hw, -, rfl⟩ := (read_ok_iff_decodes _ _ _ _).mp h.returns
  rwa [(merge_eq_iff t w).mpr (h.clean w rs' hw)]

/-- The account of a read that starts at the first byte of a buffer. -/
theorem CleanRead.accounts {α : Type} {s : Schema α} (hs : NoEmptyClass s) {bytes : List UInt8}
    {hsize : bytes.length < sizeRange} {t v : α} {rs' : ReadStream}
    (h : CleanRead s t (ofBytes bytes hsize) v rs') :
    let ms := marks canReadNum s v (ofBytes bytes hsize)
    wire s v = norm ms (bytes.take rs'.position) ++ List.replicate (exhaustedCount ms) 0 ∧
      takenCount ms = rs'.position ∧ rs'.position ≤ bytes.length ∧
      (exhaustedCount ms ≠ 0 → rs'.position = bytes.length) := by
  intro ms
  have hacc := accounts_of_decodes _ _ _ h.decodes
  have hpos : rs'.position = takenCount ms := by
    rw [hacc.advance_eq]
    exact Nat.zero_add _
  have hle : takenCount ms ≤ bytes.length := by
    by_cases hmove : 0 < takenCount ms
    · exact (Nat.zero_add _).symm.trans_le (hacc.fits hmove)
    · omega
  rw [hpos]
  refine ⟨hacc.image_eq (emptyCount_of_noEmptyClass hs v), rfl, hle, ?_⟩
  intro hne
  exact le_antisymm hle ((hacc.at_end hne).trans_eq (Nat.zero_add _))

/-- Writing what was read gives the bytes that were taken, with the terminator of each
`sp_string` set to `0` and each flag of an optional that is not zero set to `1`, and then
a zero byte for each optional that was met with the stream exhausted, which happens only
at the end of the buffer. Two buffers that are read as the same value without an
exhausted optional have taken parts that differ in those bytes only. -/
theorem written_of_read (uninit : ℕ → UInt8) {α : Type} {s : Schema α} (hs : NoEmptyClass s)
    {bytes : List UInt8} {hsize : bytes.length < sizeRange} {t v : α} {rs' : ReadStream}
    (h : CleanRead s t (ofBytes bytes hsize) v rs') :
    let ms := marks canReadNum s v (ofBytes bytes hsize)
    written uninit s v =
        norm ms (bytes.take rs'.position) ++ List.replicate (exhaustedCount ms) 0 ∧
      takenCount ms = rs'.position ∧ rs'.position ≤ bytes.length ∧
      (exhaustedCount ms > 0 → rs'.position = bytes.length) ∧
      ∀ {bytes₂ : List UInt8} {hsize₂ : bytes₂.length < sizeRange} {t₂ : α} {rs₂' : ReadStream},
        CleanRead s t₂ (ofBytes bytes₂ hsize₂) v rs₂' →
        exhaustedCount ms = 0 →
        exhaustedCount (marks canReadNum s v (ofBytes bytes₂ hsize₂)) = 0 →
        rs₂'.position = rs'.position ∧
          ∀ i < rs'.position, bytes[i]? ≠ bytes₂[i]? →
            ms[i]? = some .ignored ∨
              ms[i]? = some .flag ∧ bytes[i]? ≠ some 0 ∧ bytes₂[i]? ≠ some 0 := by
  intro ms
  obtain ⟨hwire, hlen, hle, hend⟩ := h.accounts hs
  have hwritten := written_eq_wire uninit (emptyCount_of_noEmptyClass hs v)
  refine ⟨hwritten.trans hwire, hlen, hle, fun hpos => hend (Nat.pos_iff_ne_zero.mp hpos), ?_⟩
  intro bytes₂ hsize₂ t₂ rs₂' h₂ hzero hzero₂
  obtain ⟨hwire₂, hlen₂, hle₂, -⟩ := h₂.accounts hs
  -- Without exhausted optionals the marks of both reads are the layout of the value.
  have hms : marks canReadNum s v (ofBytes bytes₂ hsize₂) = ms := by
    rw [← (takes_of_exhaustedCount_eq_zero hzero₂).2, settle_marks,
      ← (takes_of_exhaustedCount_eq_zero hzero).2, settle_marks]
  rw [hms] at hwire₂ hlen₂
  have hpos : rs₂'.position = rs'.position := hlen₂.symm.trans hlen
  refine ⟨hpos, ?_⟩
  intro i hi hne
  have hcount := length_eq_takenCount_add ms
  rw [hwire, hpos] at hwire₂
  have hnorm := List.append_cancel_right hwire₂
  have hdiff := differ_of_norm_eq hzero (i := i)
    (by rw [List.length_take]; omega) (by rw [List.length_take]; omega) hnorm
  simp only [List.getElem?_take, if_pos hi] at hdiff
  exact hdiff hne

/-- The byte `7` of a `bool` is written back as it is, and the initialiser of an item
behind the size of the container is written back with the character that was read. -/
theorem written_back_differently :
    (∃ v rs', read canReadNum .bool 0 (ofBytes [7] (by decide)) = .ok v rs' ∧
        written (fun _ => 0) .bool v ≠ [1]) ∧
      ∃ v rs', read canReadNum (.spContainer item) []
          (ofBytes [1, 0, 0, 0, 65, 0] (by decide)) = .ok v rs' ∧
        written (fun _ => 0) (.spContainer item) v ≠ [1, 0, 0, 0, 65, 0] := by
  constructor
  · exact ⟨7, (ofBytes [7] (by decide)).advance 1, rfl, by decide⟩
  · refine ⟨[text "xA"], (ofBytes [1, 0, 0, 0, 65, 0] (by decide)).advance 6, ?_, ?_⟩
    · simp only [read, item, readObject, fresh, freshFields]
      rfl
    · decide

/-- A flag and an optional flag that is missing at the end of the buffer. -/
def sampleFlags : Schema (UInt8 × Option UInt8) :=
  .struct (text "SampleFlags")
    (.cons (text "set") none .bool (.last (text "more") none (.optional .bool)))

/-- The byte `7` is read with the optional exhausted. -/
theorem cleanRead_sampleFlags :
    CleanRead sampleFlags (0, none) (ofBytes [7] (by decide)) (7, none)
      ((ofBytes [7] (by decide)).advance 1) := by
  constructor
  · simp only [sampleFlags, read, readObject]
    rfl
  · rintro ⟨b, more⟩ rs₁ -
    cases more <;> simp [sampleFlags, Clean, CleanFields]

/-- The byte `7` is written back, and the exhausted optional as `0`. -/
theorem sampleFlags_written_of_read :
    written (fun _ => 0) sampleFlags (7, none) =
      norm (marks canReadNum sampleFlags (7, none) (ofBytes [7] (by decide))) ([7].take 1) ++
        List.replicate (exhaustedCount
          (marks canReadNum sampleFlags (7, none) (ofBytes [7] (by decide)))) 0 := by
  have hschema : NoEmptyClass sampleFlags := ⟨trivial, trivial⟩
  exact (written_of_read (fun _ => 0) hschema cleanRead_sampleFlags).1

end BacsEnv.Plakpacs
