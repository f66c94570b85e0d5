import BacsEnv.Library.LittleEndian
import BacsEnv.Library.StatefulRun
import BacsEnv.Model.Text
import Mathlib.Data.Vector.Basic

/-!
# `plakpacs::write_stream` and `plakpacs::read_stream`

A write stream is the byte vector it has collected. A read stream is a byte
vector with a read position. Reading can go wrong in three ways, which the model
keeps apart: a `std::exception` is thrown, a byte past the end of the vector is
dereferenced (undefined behaviour, after which nothing is said), or a loop goes
on for ever.

The walkers of `plakpacs.hpp` are templates over the `Stream` they work on. The
model abstracts the one operation that the bounds rest on: the guard
`can_read_num`. `ReadStream.canReadNum` is the guard of the source;
`ReadStream.fits` is the exact one it is compared with.
-/

set_option autoImplicit false

namespace BacsEnv.Plakpacs

open LittleEndian

/-- The number of values of `std::size_t`. -/
def sizeRange : ℕ := 2 ^ 64

/-- Subtraction of `std::size_t` values, which wraps around. -/
def sizeSub (a b : ℕ) : ℕ := (a + sizeRange - b) % sizeRange

/-- `plakpacs::write_stream`. -/
structure WriteStream where
  bytes : List UInt8 := []

/-- `write_stream::write`: append the bytes of a value to the stream. -/
def WriteStream.write (ws : WriteStream) (bytes : List UInt8) : WriteStream :=
  { bytes := ws.bytes ++ bytes }

@[simp] theorem WriteStream.write_bytes (ws : WriteStream) (bytes : List UInt8) :
    (ws.write bytes).bytes = ws.bytes ++ bytes := rfl

/-- `plakpacs::read_stream`. Its vector is no longer than `std::size_t` can count. -/
structure ReadStream where
  bytes : List UInt8
  position : ℕ := 0
  size_lt : bytes.length < sizeRange

/-- Why a read did not return a value. -/
inductive ReadError
  /-- A `std::exception` with its `what()` was thrown. -/
  | exception (what : Text)
  /-- The byte at `index`, past the end of the vector, was dereferenced. -/
  | outOfBounds (index : ℕ)
  /-- A loop was still running when its fuel ran out. -/
  | diverges
  deriving DecidableEq

/-- A computation that reads from a stream. -/
abbrev ReadM := EStateM ReadError ReadStream

/-- What a walker's stream type decides: whether `num` more bytes can be read. -/
abbrev Guard := ReadStream → ℕ → Bool

namespace ReadStream

/-- The constructor `read_stream(container)`: reading starts at the first byte. -/
def ofBytes (bytes : List UInt8) (h : bytes.length < sizeRange) : ReadStream :=
  { bytes := bytes, size_lt := h }

/-- `read_stream::can_read_num`: `_position <= _bytes.size() - num` in `std::size_t`. -/
def canReadNum : Guard := fun rs num =>
  decide (rs.position ≤ sizeSub rs.bytes.length num)

/-- The exact guard: `num` bytes remain. -/
def fits : Guard := fun rs num =>
  decide (rs.position + num ≤ rs.bytes.length)

/-- `read_stream::can_read`. -/
def canRead (G : Guard) (rs : ReadStream) : Bool := G rs 1

/-- The stream after `num` bytes were taken. -/
def advance (rs : ReadStream) (num : ℕ) : ReadStream :=
  { rs with position := rs.position + num }

@[simp] theorem advance_bytes (rs : ReadStream) (num : ℕ) :
    (rs.advance num).bytes = rs.bytes := rfl

@[simp] theorem advance_position (rs : ReadStream) (num : ℕ) :
    (rs.advance num).position = rs.position + num := rfl

/-- `what()` of the exception that `read_stream::read` throws. -/
def pastTheEnd : Text :=
  text "plakpacs::read_stream.read<T>() => Can't read past the end of the stream"

/-- `read_stream::read<T>` for a `T` of `w` bytes that is not empty: the object
representation found at the position. The dereference is checked against the
real end of the vector, not against the guard. -/
def read (G : Guard) (w : ℕ) : ReadM (List.Vector UInt8 w) := fun rs =>
  if G rs w then
    if h : rs.position + w ≤ rs.bytes.length then
      .ok ⟨(rs.bytes.drop rs.position).take w, by simp; omega⟩ (rs.advance w)
    else .error (.outOfBounds rs.bytes.length) rs
  else .error (.exception pastTheEnd) rs

/-- `read_stream::read<char>`. -/
def readChar (G : Guard) : ReadM UInt8 := do
  let v ← read G 1
  pure v.head

/-- `read_stream::read<bool>`: the byte is copied, whatever it is. -/
def readBool (G : Guard) : ReadM UInt8 := readChar G

/-- `read_stream::read<std::uint32_t>`, lowest byte first. -/
def readUInt32 (G : Guard) : ReadM ℕ := do
  let v ← read G 4
  pure (decode v.toList)

end ReadStream

end BacsEnv.Plakpacs
