import BacsEnv.Analysis.Bacs.ReadSteps

/-!
# The announced and the transmitted size

`async_write_sp` announces `std::size * sizeof` bytes, converted to `size_type`, but the
buffer of the body has `std::size` bytes. The two agree for containers of single bytes
that are not too long for `size_type`, and for empty ones, as long as what the socket
takes from the two buffers is what was put there.
-/

set_option autoImplicit false

namespace BacsEnv.Bacs

variable {T : SPTraits} {c : Container} {f : Frame} {header body : List UInt8}

/-- A size that `SPTraits::out` lets through comes back from `SPTraits::in`. -/
def InvertsOut (T : SPTraits) : Prop :=
  ∀ size sent, T.sizeOut size = some sent → T.sizeIn sent = some size

/-- The peer recovers the size of the transmitted body from the transmitted header, that is
the size of the container, and gets exactly the container's bytes with the next frame behind
them. -/
structure HeaderMatchesBody (T : SPTraits) (c : Container) (header body : List UInt8) : Prop where
  announced : ∃ size, T.sizeIn (T.ofBytes header) = some size ∧ size.val = body.length
  transmitted : body.length = c.count * c.elementSize
  received : ∀ (heap : Heap) (input : Incoming) (position : ℕ) (later : List UInt8),
    (∀ position size, heap.allocates position size = true) →
      input.rest position = header ++ (body ++ later) →
        asyncReadSp T heap input position =
          some ({ failed := false, bytesRead := c.bytes.length, buffer := c.bytes },
            position + (header.length + body.length))

/-- The buffers of a container whose size `SPTraits::out` lets through. -/
theorem asyncWriteSp_eq_some_iff :
    asyncWriteSp T c = some f ↔
      ∃ sent, T.sizeOut (T.cast (c.count * c.elementSize)) = some sent ∧
        f = { header := T.toBytes sent, body := c.bytes.take c.count } := by
  simp only [asyncWriteSp, Option.bind_eq_bind, Option.pure_def, Option.bind_eq_some_iff,
    Option.some.injEq]
  constructor
  · rintro ⟨sent, hout, rfl⟩
    exact ⟨sent, hout, rfl⟩
  · rintro ⟨sent, hout, rfl⟩
    exact ⟨sent, hout, rfl⟩

/-- The peer recovers the size of the container, reduced to `size_type`. -/
theorem sizeIn_header (hinverts : InvertsOut T) (h : asyncWriteSp T c = some f) :
    T.sizeIn (T.ofBytes f.header) = some (T.cast (c.count * c.elementSize)) := by
  obtain ⟨sent, hout, rfl⟩ := asyncWriteSp_eq_some_iff.mp h
  simp only [T.ofBytes_toBytes]
  exact hinverts _ _ hout

theorem length_headerBuffer (h : asyncWriteSp T c = some f) : f.header.length = T.width := by
  obtain ⟨sent, -, rfl⟩ := asyncWriteSp_eq_some_iff.mp h
  exact T.length_toBytes sent

/-- The body has one byte for each element. -/
theorem length_body (hsize : 1 ≤ c.elementSize) (h : asyncWriteSp T c = some f) :
    f.body.length = c.count := by
  obtain ⟨sent, -, rfl⟩ := asyncWriteSp_eq_some_iff.mp h
  have hle : c.count ≤ c.count * c.elementSize := Nat.le_mul_of_pos_right _ hsize
  simp only [List.length_take, c.length_bytes]
  exact Nat.min_eq_left hle

/-- A body that has all bytes of the container is the container's bytes. -/
theorem body_eq_bytes (hall : c.count = c.count * c.elementSize)
    (h : asyncWriteSp T c = some f) : f.body = c.bytes := by
  obtain ⟨sent, -, rfl⟩ := asyncWriteSp_eq_some_iff.mp h
  apply List.take_of_length_le
  rw [c.length_bytes, ← hall]

/-- A header that announces the body behind it is read back with this body. -/
theorem asyncReadSp_of_announced {heap : Heap} {input : Incoming} {position : ℕ}
    {later : List UInt8} {size : SizeType T.width}
    (hheap : ∀ position size, heap.allocates position size = true)
    (hwidth : header.length = T.width)
    (hin : T.sizeIn (T.ofBytes header) = some size) (hsize : size.val = body.length)
    (hrest : input.rest position = header ++ (body ++ later)) :
    asyncReadSp T heap input position =
      some ({ failed := false, bytesRead := body.length, buffer := body },
        position + (header.length + body.length)) := by
  have hat : HeaderAt T input position := by
    unfold HeaderAt
    rw [hrest, List.length_append, hwidth]
    omega
  have hheader : headerAt T input position = header := by
    unfold headerAt
    rw [hrest, List.take_left' hwidth]
  have hbehind : behindHeader T input position = body ++ later := by
    unfold behindHeader
    rw [hrest, List.drop_left' hwidth]
  have haccept : acceptSize T heap position (headerAt T input position) = some body.length := by
    unfold acceptSize
    rw [hheader]
    simp [hin, hheap, hsize]
  have hfits : body.length ≤ (behindHeader T input position).length := by
    rw [hbehind, List.length_append]
    omega
  rw [asyncReadSp_of_frame hat haccept hfits, hbehind, List.take_left]
  simp [hwidth, Nat.add_assoc]

/-- The peer gets the bytes of the body that were transmitted. -/
theorem HeaderMatchesBody.body_eq (hm : HeaderMatchesBody T c header body)
    (hwidth : header.length = T.width) : body = c.bytes := by
  obtain ⟨size, hin, hsize⟩ := hm.announced
  have hrest : ({ bytes := header ++ (body ++ []), ended := false } : Incoming).rest 0 =
      header ++ (body ++ []) := rfl
  have hheap : ∀ position size, Heap.ample.allocates position size = true := fun _ _ => rfl
  have hread := asyncReadSp_of_announced hheap hwidth hin hsize hrest
  have hreceived := hm.received Heap.ample _ 0 [] hheap hrest
  rw [hread] at hreceived
  exact congrArg (fun call => call.1.buffer) (Option.some.inj hreceived)

/-- The header and the body of a container that is written agree if and only if its size in
bytes is a value of `size_type`, its elements are single bytes or there are none, and what
the socket took is read as the size that was put into the header's buffer and is what was
put into the body's. -/
theorem headerMatchesBody_iff (hsize : 1 ≤ c.elementSize) (hinverts : InvertsOut T)
    (h : asyncWriteSp T c = some f) {atOnce atOnce' : ℕ}
    (hheader : Transmits f.header atOnce header) (hbody : Transmits f.body atOnce' body) :
    HeaderMatchesBody T c header body ↔
      (c.count * c.elementSize < 256 ^ T.width ∧ (c.elementSize = 1 ∨ c.count = 0)) ∧
        T.sizeIn (T.ofBytes header) = T.sizeIn (T.ofBytes f.header) ∧ body = f.body := by
  have hin := sizeIn_header hinverts h
  have hwidth : header.length = T.width := hheader.length_eq.trans (length_headerBuffer h)
  have hcount : body.length = c.count := hbody.length_eq.trans (length_body hsize h)
  have hval : (T.cast (c.count * c.elementSize)).val =
      c.count * c.elementSize % 256 ^ T.width := rfl
  constructor
  · intro hm
    obtain ⟨size, hin', hannounced⟩ := hm.announced
    have htransmitted := hm.transmitted
    have hlt := size.isLt
    have hfit : c.count * c.elementSize < 256 ^ T.width := by omega
    have hall : c.count = c.count * c.elementSize := by omega
    refine ⟨⟨hfit, ?_⟩, ?_, ?_⟩
    · rcases Nat.eq_zero_or_pos c.count with hzero | hpos
      · exact Or.inr hzero
      · exact Or.inl (Nat.eq_of_mul_eq_mul_left hpos (by omega))
    · have hsame : size = T.cast (c.count * c.elementSize) := by
        apply Fin.ext
        rw [hval, Nat.mod_eq_of_lt hfit, hannounced, htransmitted]
      rw [hin', hin, hsame]
    · rw [hm.body_eq hwidth, body_eq_bytes hall h]
  · rintro ⟨⟨hfit, hsingle⟩, hread, rfl⟩
    have hall : c.count = c.count * c.elementSize := by
      rcases hsingle with hone | hzero
      · rw [hone, Nat.mul_one]
      · rw [hzero, Nat.zero_mul]
    rw [hin] at hread
    have hannounced : (T.cast (c.count * c.elementSize)).val = f.body.length := by
      rw [hval, Nat.mod_eq_of_lt hfit, hcount]
      exact hall.symm
    refine ⟨⟨_, hread, hannounced⟩, hcount.trans hall, ?_⟩
    intro heap input position later hheap hrest
    have hcall := asyncReadSp_of_announced hheap hwidth hread hannounced hrest
    rw [hcall, body_eq_bytes hall h]

/-- A container of two-byte elements. -/
def twoByteElements (bytes : List UInt8) (h : bytes.length % 2 = 0) : Container :=
  { elementSize := 2, count := bytes.length / 2, bytes := bytes, length_bytes := by omega }

/-- A vector of three bytes, of which the socket takes one at once. -/
theorem bytes_headerMatchesBody :
    HeaderMatchesBody spDefault (Container.ofBytes [1, 2, 3]) [3, 0, 0, 0] [1, 2, 3] ↔
      (3 * 1 < 256 ^ 4 ∧ ((1 : ℕ) = 1 ∨ (3 : ℕ) = 0)) ∧
        spDefault.sizeIn (spDefault.ofBytes [3, 0, 0, 0]) =
          spDefault.sizeIn (spDefault.ofBytes [3, 0, 0, 0]) ∧
        ([1, 2, 3] : List UInt8) = [1, 2, 3] := by
  have hinverts : InvertsOut spDefault := by
    intro size sent hout
    cases hout
    rfl
  have h : asyncWriteSp spDefault (Container.ofBytes [1, 2, 3]) =
      some ⟨[3, 0, 0, 0], [1, 2, 3]⟩ := rfl
  have hheader : Transmits [3, 0, 0, 0] 4 [3, 0, 0, 0] := ⟨rfl, rfl⟩
  have hbody : Transmits [1, 2, 3] 1 [1, 2, 3] := ⟨rfl, rfl⟩
  exact headerMatchesBody_iff (by decide) hinverts h hheader hbody

/-- Two elements of two bytes are announced as four bytes, and two bytes follow. -/
theorem elements_headerMismatch :
    asyncWriteSp spDefault (twoByteElements [1, 2, 3, 4] rfl) = some ⟨[4, 0, 0, 0], [1, 2]⟩ ∧
      ¬ HeaderMatchesBody spDefault (twoByteElements [1, 2, 3, 4] rfl) [4, 0, 0, 0] [1, 2] := by
  constructor
  · rfl
  · intro h
    have htransmitted := h.transmitted
    revert htransmitted
    decide

end BacsEnv.Bacs
