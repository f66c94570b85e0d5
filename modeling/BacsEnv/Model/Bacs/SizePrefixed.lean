import BacsEnv.Library.LittleEndian

/-!
# Size-prefixed frames

The traits of a frame's size header, and the two buffers that `async_write_sp` hands
to `boost::asio::async_write`: the header first, the body once the header is written.

A function of the traits that gives no value is one that throws.
-/

set_option autoImplicit false

namespace BacsEnv.Bacs

/-- `SPTraits::size_type`: an unsigned integer of `width` bytes. -/
abbrev SizeType (width : ℕ) : Type := Fin (256 ^ width)

/-- The `SPTraits` of a stream: the width of `size_type`, and what `SPTraits::in` and
`SPTraits::out` make of a size. -/
structure SPTraits where
  width : ℕ
  width_pos : 0 < width
  sizeIn : SizeType width → Option (SizeType width)
  sizeOut : SizeType width → Option (SizeType width)

/-- `sp_default`: sizes are left as they are. -/
def spDefault : SPTraits :=
  { width := 4, width_pos := by decide, sizeIn := some, sizeOut := some }

namespace SPTraits

/-- The conversion `(size_type)(n)`. -/
def cast (T : SPTraits) (n : ℕ) : SizeType T.width :=
  ⟨n % 256 ^ T.width, Nat.mod_lt _ (by positivity)⟩

/-- The bytes of an object of type `size_type`. -/
def toBytes (T : SPTraits) (size : SizeType T.width) : List UInt8 :=
  LittleEndian.encode T.width size.val

/-- The `size_type` that a header's bytes hold. -/
def ofBytes (T : SPTraits) (header : List UInt8) : SizeType T.width :=
  T.cast (LittleEndian.decode header)

@[simp] theorem length_toBytes (T : SPTraits) (size : SizeType T.width) :
    (T.toBytes size).length = T.width :=
  LittleEndian.length_encode _ _

/-- A size is read back from its own bytes. -/
theorem ofBytes_toBytes (T : SPTraits) (size : SizeType T.width) :
    T.ofBytes (T.toBytes size) = size := by
  apply Fin.ext
  unfold ofBytes toBytes cast
  rw [LittleEndian.decode_encode_of_lt size.isLt]
  exact Nat.mod_eq_of_lt size.isLt

end SPTraits

/-- A container that `std::data` and `std::size` apply to: `count` elements of
`elementSize` bytes, one after the other in `bytes`. -/
structure Container where
  elementSize : ℕ
  count : ℕ
  bytes : List UInt8
  length_bytes : bytes.length = count * elementSize

/-- A `std::vector<uint8_t>`. -/
def Container.ofBytes (bytes : List UInt8) : Container :=
  { elementSize := 1, count := bytes.length, bytes := bytes, length_bytes := by simp }

/-- The bytes of the two buffers of one frame. -/
structure Frame where
  header : List UInt8
  body : List UInt8
deriving DecidableEq, Repr

/-- A whole frame as the peer should meet it. -/
def Frame.bytes (f : Frame) : List UInt8 := f.header ++ f.body

/-- The buffers of `async_write_sp`. The size in the header counts bytes, the length of
the body's buffer is `std::size` of the container. -/
def asyncWriteSp (T : SPTraits) (container : Container) : Option Frame := do
  let size ← T.sizeOut (T.cast (container.count * container.elementSize))
  pure { header := T.toBytes size, body := container.bytes.take container.count }

/-- The bytes `wire` that the socket has taken when an `async_write` of a buffer succeeds. The
first `atOnce` of them are taken before the call that starts the write returns. Behind it
`async_write_sp` has released the object that the header is read from, and the copy of the
container likewise, so the others are what its memory holds by then. -/
structure Transmits (buffer : List UInt8) (atOnce : ℕ) (wire : List UInt8) : Prop where
  length_eq : wire.length = buffer.length
  take_eq : wire.take atOnce = buffer.take atOnce

/-- The frame of a packet's bytes. -/
def frame (T : SPTraits) (payload : List UInt8) : Option Frame :=
  asyncWriteSp T (Container.ofBytes payload)

/-- The frames of several packets, one after the other. -/
def frames (T : SPTraits) : List (List UInt8) → Option (List UInt8)
  | [] => some []
  | payload :: payloads => do
      let f ← frame T payload
      let fs ← frames T payloads
      pure (f.bytes ++ fs)

/-- The frame of a byte container holds the size that `SPTraits::out` makes of its
length, and all its bytes. -/
theorem frame_eq_some_iff {T : SPTraits} {payload : List UInt8} {f : Frame} :
    frame T payload = some f ↔
      ∃ size, T.sizeOut (T.cast payload.length) = some size ∧
        f = { header := T.toBytes size, body := payload } := by
  have hsize : payload.length * 1 = payload.length := Nat.mul_one _
  simp only [frame, asyncWriteSp, Container.ofBytes, hsize, List.take_length,
    Option.bind_eq_bind, Option.pure_def, Option.bind_eq_some_iff, Option.some.injEq]
  constructor
  · rintro ⟨size, hout, rfl⟩
    exact ⟨size, hout, rfl⟩
  · rintro ⟨size, hout, rfl⟩
    exact ⟨size, hout, rfl⟩

theorem length_header {T : SPTraits} {payload : List UInt8} {f : Frame}
    (h : frame T payload = some f) : f.header.length = T.width := by
  obtain ⟨size, -, rfl⟩ := frame_eq_some_iff.mp h
  exact T.length_toBytes size

theorem body_eq {T : SPTraits} {payload : List UInt8} {f : Frame}
    (h : frame T payload = some f) : f.body = payload := by
  obtain ⟨size, -, rfl⟩ := frame_eq_some_iff.mp h
  rfl

/-- The bytes of a list of packets are those of their frames. -/
theorem frames_eq_some_iff {T : SPTraits} {payloads : List (List UInt8)} {bytes : List UInt8} :
    frames T payloads = some bytes ↔
      ∃ fs : List Frame, payloads.map (frame T) = fs.map some ∧
        bytes = (fs.map Frame.bytes).flatten := by
  induction payloads generalizing bytes with
  | nil =>
      constructor
      · intro h
        exact ⟨[], rfl, (Option.some.inj h).symm⟩
      · rintro ⟨fs, hfs, rfl⟩
        obtain rfl : fs = [] := by simpa using hfs.symm
        rfl
  | cons payload payloads ih =>
      simp only [frames, Option.bind_eq_bind, Option.bind_eq_some_iff, Option.pure_def,
        Option.some.injEq]
      constructor
      · rintro ⟨f, hf, rest, hrest, rfl⟩
        obtain ⟨fs, hfs, rfl⟩ := ih.mp hrest
        exact ⟨f :: fs, by simp [hf, hfs], by simp⟩
      · rintro ⟨fs, hfs, rfl⟩
        cases fs with
        | nil => simp at hfs
        | cons f fs =>
            obtain ⟨hf, hrest⟩ := List.cons.inj hfs
            exact ⟨f, hf, _, ih.mpr ⟨fs, hrest, rfl⟩, by simp⟩

end BacsEnv.Bacs
