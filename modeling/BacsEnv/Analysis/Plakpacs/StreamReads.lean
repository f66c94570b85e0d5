import BacsEnv.Model.Plakpacs.Serializer

/-!
# What the stream operations do

The guard `can_read_num` answers right exactly for the widths that are no larger
than the whole buffer (`canReadNum_right_iff`); for a wider request the unsigned
subtraction wraps around and the guard lets everything through
(`canReadNum_of_wide`). The rest of the file says what each operation of
`read_stream` did when it returned, and that it returns when the bytes are there.
-/

set_option autoImplicit false

namespace BacsEnv.Plakpacs

open LittleEndian StatefulRun

namespace ReadStream

/-- The bytes that have not been read yet. -/
def remaining (rs : ReadStream) : List UInt8 := rs.bytes.drop rs.position

@[simp] theorem length_remaining (rs : ReadStream) :
    rs.remaining.length = rs.bytes.length - rs.position := by
  simp [remaining]

@[simp] theorem advance_advance (rs : ReadStream) (m n : ℕ) :
    (rs.advance m).advance n = rs.advance (m + n) := by
  simp [advance, Nat.add_assoc]

theorem remaining_advance {rs : ReadStream} (bs : List UInt8) {rest : List UInt8}
    (h : rs.remaining = bs ++ rest) : (rs.advance bs.length).remaining = rest := by
  have hdrop : (rs.advance bs.length).remaining = rs.remaining.drop bs.length := by
    simp [remaining]
  rw [hdrop, h, List.drop_left]

/-! ## The guard -/

/-- The wrapped subtraction is the difference when nothing wraps. -/
theorem sizeSub_of_le {a b : ℕ} (hb : b ≤ a) (ha : a < sizeRange) : sizeSub a b = a - b := by
  have hsum : a + sizeRange - b = a - b + sizeRange := by omega
  unfold sizeSub
  rw [hsum, Nat.add_mod_right, Nat.mod_eq_of_lt (by omega)]

/-- A request that the whole buffer could satisfy is answered right. -/
theorem canReadNum_iff (rs : ReadStream) {n : ℕ} (hn : n ≤ rs.bytes.length) :
    canReadNum rs n = true ↔ rs.position + n ≤ rs.bytes.length := by
  unfold canReadNum
  rw [sizeSub_of_le hn rs.size_lt, decide_eq_true_eq]
  omega

/-- A request wider than the whole buffer passes the guard. -/
theorem canReadNum_of_wide {rs : ReadStream} {n : ℕ} (hpos : rs.position ≤ rs.bytes.length)
    (hn : rs.bytes.length < n) (hrange : n < sizeRange) : canReadNum rs n = true := by
  have hwrap : sizeSub rs.bytes.length n = rs.bytes.length + sizeRange - n := by
    unfold sizeSub
    exact Nat.mod_eq_of_lt (by omega)
  have hsize := rs.size_lt
  unfold canReadNum
  rw [hwrap, decide_eq_true_eq]
  omega

/-- The guard answers right exactly for the widths the whole buffer could satisfy. -/
theorem canReadNum_right_iff {rs : ReadStream} {n : ℕ} (hpos : rs.position ≤ rs.bytes.length)
    (hrange : n < sizeRange) :
    (canReadNum rs n = true ↔ rs.position + n ≤ rs.bytes.length) ↔ n ≤ rs.bytes.length := by
  constructor
  · intro h
    by_contra hn
    have hpass := canReadNum_of_wide hpos (by omega) hrange
    have hfits := h.mp hpass
    omega
  · intro hn
    exact canReadNum_iff rs hn

/-! ## Reads that returned -/

/-- What a read of `w` bytes did when it returned. -/
theorem read_ok_iff {G : Guard} {w : ℕ} {rs rs' : ReadStream} {v : List.Vector UInt8 w} :
    read G w rs = .ok v rs' ↔
      G rs w = true ∧ rs.position + w ≤ rs.bytes.length ∧
        v.toList = rs.remaining.take w ∧ rs' = rs.advance w := by
  unfold read
  by_cases hG : G rs w = true
  · by_cases hfit : rs.position + w ≤ rs.bytes.length
    · simp only [hG, hfit, if_true, dite_true, true_and]
      constructor
      · intro h
        obtain ⟨rfl, rfl⟩ := EStateM.Result.ok.inj h
        exact ⟨rfl, rfl⟩
      · rintro ⟨hv, rfl⟩
        exact congrArg (EStateM.Result.ok · _) (Subtype.ext hv.symm)
    · simp [hG, hfit]
  · simp [hG]

/-- A vector of one element is that element. -/
theorem toList_eq_head (v : List.Vector UInt8 1) : v.toList = [v.head] := by
  obtain ⟨l, hl⟩ := v
  obtain ⟨c, rfl⟩ := List.length_eq_one_iff.mp hl
  rfl

/-- A read of one byte that returned found it at the position. -/
theorem readChar_ok_iff {G : Guard} {rs rs' : ReadStream} {c : UInt8} :
    readChar G rs = .ok c rs' ↔
      G rs 1 = true ∧ rs.position + 1 ≤ rs.bytes.length ∧
        rs.remaining.take 1 = [c] ∧ rs' = rs.advance 1 := by
  unfold readChar
  rw [bind_ok_iff]
  constructor
  · rintro ⟨v, rs₁, hread, hpure⟩
    obtain ⟨hG, hfit, hv, rfl⟩ := read_ok_iff.mp hread
    obtain ⟨rfl, rfl⟩ := EStateM.Result.ok.inj hpure
    exact ⟨hG, hfit, by rw [← hv, toList_eq_head], rfl⟩
  · rintro ⟨hG, hfit, hc, rfl⟩
    exact ⟨⟨[c], rfl⟩, _, read_ok_iff.mpr ⟨hG, hfit, hc.symm, rfl⟩, rfl⟩

/-- So did a read of a `bool`. -/
theorem readBool_ok_iff {G : Guard} {rs rs' : ReadStream} {b : UInt8} :
    readBool G rs = .ok b rs' ↔
      G rs 1 = true ∧ rs.position + 1 ≤ rs.bytes.length ∧
        rs.remaining.take 1 = [b] ∧ rs' = rs.advance 1 := readChar_ok_iff

/-- A size prefix that was accepted is the code of a count within the limit. -/
theorem readCount_ok_iff {G : Guard} {rs rs' : ReadStream} {size : ℕ} :
    readCount G rs = .ok size rs' ↔
      G rs 4 = true ∧ rs.position + 4 ≤ rs.bytes.length ∧
        rs.remaining.take 4 = encode 4 size ∧ size ≤ maxContainerCount ∧
        rs' = rs.advance 4 := by
  unfold readCount readUInt32
  rw [bind_ok_iff]
  constructor
  · rintro ⟨n, rs₁, hread, hcheck⟩
    obtain ⟨v, rs₂, hv, hpure⟩ := bind_ok_iff.mp hread
    obtain ⟨hG, hfit, hbytes, rfl⟩ := read_ok_iff.mp hv
    obtain ⟨rfl, rfl⟩ := EStateM.Result.ok.inj hpure
    by_cases hmax : decode v.toList > maxContainerCount
    · simp [hmax] at hcheck
    · rw [if_neg hmax] at hcheck
      obtain ⟨rfl, rfl⟩ := EStateM.Result.ok.inj hcheck
      have hcode := encode_decode v.toList
      rw [v.toList_length] at hcode
      exact ⟨hG, hfit, by rw [hcode, hbytes], by omega, rfl⟩
  · rintro ⟨hG, hfit, hbytes, hmax, rfl⟩
    refine ⟨size, rs.advance 4, ?_, by simp [Nat.not_lt.mpr hmax]⟩
    refine bind_ok_iff.mpr ⟨⟨encode 4 size, length_encode 4 size⟩, rs.advance 4, ?_, ?_⟩
    · exact read_ok_iff.mpr ⟨hG, hfit, hbytes.symm, rfl⟩
    · have hlt : size < 256 ^ 4 := by unfold maxContainerCount at hmax; omega
      change EStateM.Result.ok (decode (encode 4 size)) _ = _
      rw [decode_encode_of_lt hlt]

/-! ## Reads of bytes that are there -/

/-- Bytes that remain fit between the position and the end. -/
theorem fits_of_remaining {rs : ReadStream} (bs : List UInt8) {rest : List UInt8} (hbs : bs ≠ [])
    (h : rs.remaining = bs ++ rest) : rs.position + bs.length ≤ rs.bytes.length := by
  have hlen := congrArg List.length h
  have hpos := List.length_pos_iff.mpr hbs
  rw [length_remaining, List.length_append] at hlen
  omega

/-- The guard lets a read of bytes that remain pass. -/
theorem canReadNum_of_remaining {rs : ReadStream} (bs : List UInt8) {rest : List UInt8} (hbs : bs ≠ [])
    (h : rs.remaining = bs ++ rest) : canReadNum rs bs.length = true := by
  have hfit := fits_of_remaining bs hbs h
  exact (canReadNum_iff rs (by omega)).mpr hfit

theorem read_of_remaining {w : ℕ} {rs : ReadStream} {v : List.Vector UInt8 w}
    {rest : List UInt8} (hw : 0 < w) (h : rs.remaining = v.toList ++ rest) :
    read canReadNum w rs = .ok v (rs.advance w) := by
  have hne : v.toList ≠ [] := by
    intro hnil
    have hlen := v.toList_length
    simp [hnil] at hlen
    omega
  have hG := canReadNum_of_remaining _ hne h
  have hfit := fits_of_remaining _ hne h
  rw [v.toList_length] at hG hfit
  refine read_ok_iff.mpr ⟨hG, hfit, ?_, rfl⟩
  rw [h, List.take_left' v.toList_length]

theorem readChar_of_remaining {rs : ReadStream} {c : UInt8} {rest : List UInt8}
    (h : rs.remaining = c :: rest) : readChar canReadNum rs = .ok c (rs.advance 1) := by
  have hG := canReadNum_of_remaining [c] (by simp) h
  have hfit := fits_of_remaining [c] (by simp) h
  exact readChar_ok_iff.mpr ⟨hG, hfit, by simp [h], rfl⟩

theorem readBool_of_remaining {rs : ReadStream} {b : UInt8} {rest : List UInt8}
    (h : rs.remaining = b :: rest) : readBool canReadNum rs = .ok b (rs.advance 1) :=
  readChar_of_remaining h

theorem readCount_of_remaining {rs : ReadStream} {size : ℕ} {rest : List UInt8}
    (hmax : size ≤ maxContainerCount) (h : rs.remaining = encode 4 size ++ rest) :
    readCount canReadNum rs = .ok size (rs.advance 4) := by
  have hne : encode 4 size ≠ [] := by simp [encode]
  have hG := canReadNum_of_remaining _ hne h
  have hfit := fits_of_remaining _ hne h
  rw [length_encode] at hG hfit
  refine readCount_ok_iff.mpr ⟨hG, hfit, ?_, hmax, rfl⟩
  rw [h, List.take_left' (length_encode 4 size)]

/-! ## The loop of a string -/

/-- A string loop that returned took the characters up to the first zero byte,
and that byte with them. -/
theorem readStringLoop_ok {G : Guard} {fuel : ℕ} {value w : Text} {rs rs' : ReadStream}
    (h : readStringLoop G fuel value rs = .ok w rs') :
    ∃ v : Text, w = value ++ v ∧ (0 : UInt8) ∉ v ∧
      rs.position + (v.length + 1) ≤ rs.bytes.length ∧
      rs.remaining.take (v.length + 1) = v ++ [0] ∧ rs' = rs.advance (v.length + 1) := by
  induction fuel generalizing value rs with
  | zero => simp [readStringLoop] at h
  | succ fuel ih =>
      rw [readStringLoop, bind_ok_iff] at h
      obtain ⟨c, rs₁, hread, hrest⟩ := h
      obtain ⟨-, hfit, hc, rfl⟩ := readChar_ok_iff.mp hread
      by_cases hzero : c = 0
      · rw [if_pos hzero] at hrest
        obtain ⟨rfl, rfl⟩ := EStateM.Result.ok.inj hrest
        exact ⟨[], by simp, by simp, by simpa using hfit, by simpa [hzero] using hc, rfl⟩
      · rw [if_neg hzero] at hrest
        obtain ⟨v, rfl, hv, hfit', htake, rfl⟩ := ih hrest
        refine ⟨c :: v, by simp, by simp [hv, Ne.symm hzero], ?_, ?_, ?_⟩
        · simp only [advance_bytes, advance_position] at hfit'
          simp only [List.length_cons]
          omega
        · have hrem : rs.remaining = c :: (rs.advance 1).remaining := by
            have hsplit := List.take_append_drop 1 rs.remaining
            rw [hc] at hsplit
            simpa [remaining] using hsplit.symm
          rw [hrem, List.length_cons, List.take_succ_cons, htake]
          rfl
        · simp [Nat.add_comm]

/-- With fuel for every character and the terminator, a string loop returns. -/
theorem readStringLoop_of_remaining {fuel : ℕ} {value v : Text} {rs : ReadStream}
    {rest : List UInt8} (hv : (0 : UInt8) ∉ v) (hfuel : v.length < fuel)
    (h : rs.remaining = v ++ 0 :: rest) :
    readStringLoop canReadNum fuel value rs = .ok (value ++ v) (rs.advance (v.length + 1)) := by
  induction v generalizing fuel value rs with
  | nil =>
      obtain ⟨fuel, rfl⟩ := Nat.exists_eq_succ_of_ne_zero (Nat.ne_of_gt hfuel)
      rw [readStringLoop, bind_of_ok (readChar_of_remaining h)]
      simp
  | cons c v ih =>
      obtain ⟨fuel, rfl⟩ := Nat.exists_eq_succ_of_ne_zero (by omega : fuel ≠ 0)
      obtain ⟨hc, hv⟩ : (0 : UInt8) ≠ c ∧ (0 : UInt8) ∉ v := by simpa using hv
      have hnext : (rs.advance 1).remaining = v ++ 0 :: rest :=
        remaining_advance [c] h
      rw [readStringLoop, bind_of_ok (readChar_of_remaining h), if_neg hc.symm,
        ih hv (by simpa using hfuel) hnext]
      simp [Nat.add_comm]

theorem readString_of_remaining (value : Text) {v : Text} {rs : ReadStream} {rest : List UInt8}
    (hv : (0 : UInt8) ∉ v) (h : rs.remaining = v ++ 0 :: rest) :
    readString canReadNum value rs = .ok (value ++ v) (rs.advance (v.length + 1)) := by
  have hlen := congrArg List.length h
  rw [length_remaining, List.length_append, List.length_cons] at hlen
  exact readStringLoop_of_remaining hv (by omega) h

end ReadStream

end BacsEnv.Plakpacs
