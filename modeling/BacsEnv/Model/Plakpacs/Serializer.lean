import BacsEnv.Model.ContainerAppender
import BacsEnv.Model.Plakpacs.Schema

/-!
# `plakpacs::serializer` and its `binary_walker`s

`write` and `read` follow the specialisations of `binary_walker` constructor by
constructor. Reading takes the object that is read into, because several walkers
keep what they find there: a string is appended to, a container is pushed to, an
optional is left alone when its flag is `0` or the stream is exhausted. Elements and
the value of an optional are read into an object `T value;` of their own, which starts
with its default member initialisers.
-/

set_option autoImplicit false

namespace BacsEnv.Plakpacs

open LittleEndian StatefulRun ReadStream

/-- The largest element count that `binary_walker<sp_container>::read` accepts. -/
def maxContainerCount : ℕ := 65536

/-! ## Writing -/

/-- `write_stream::write` of the number of elements, as `std::uint32_t`. -/
def WriteStream.writeCount (ws : WriteStream) (count : ℕ) : WriteStream :=
  ws.write (encode 4 (count % 2 ^ 32))

mutual

/-- `serializer::write`. An empty class is written from an array of one byte that
is never set: `uninit i` is what that byte holds when it becomes byte `i` of the
output. -/
def write (uninit : ℕ → UInt8) {α : Type} : Schema α → α → WriteStream → WriteStream
  | .scalar _ _, v, ws => ws.write v.toList
  | .bool, v, ws => ws.write [v]
  | .empty, _, ws => ws.write [uninit ws.bytes.length]
  | .string, v, ws => (ws.write v).write [0]
  | .array s _, v, ws => v.toList.foldl (fun ws x => write uninit s x ws) ws
  | .spContainer s, v, ws =>
      v.foldl (fun ws x => write uninit s x ws) (ws.writeCount v.length)
  | .spString, v, ws => ((ws.writeCount v.length).write v).write [0]
  | .optional s, v, ws =>
      match v with
      | none => ws.write [0]
      | some x => write uninit s x (ws.write [1])
  | .constrained s _, v, ws => write uninit s v ws
  | .struct _ fs, v, ws => writeObject uninit fs v ws

/-- `serializer::write_object`: the fields in the order of their indices. -/
def writeObject (uninit : ℕ → UInt8) {α : Type} : Fields α → α → WriteStream → WriteStream
  | .last _ _ s, v, ws => write uninit s v ws
  | .cons _ _ s fs, (v, vs), ws => writeObject uninit fs vs (write uninit s v ws)

end

/-! ## Reading -/

/-- The loop of `binary_walker<std::string>::read`:
`while (auto c = stream.read<char>()) value += c;` -/
def readStringLoop (G : Guard) : ℕ → Text → ReadM Text
  | 0, _ => throw .diverges
  | fuel + 1, value => do
      let c ← readChar G
      if c = 0 then pure value else readStringLoop G fuel (value ++ [c])

/-- `binary_walker<std::string>::read`, with fuel for one turn of the loop more than
bytes remain. -/
def readString (G : Guard) (value : Text) : ReadM Text := fun rs =>
  readStringLoop G (rs.bytes.length - rs.position + 1) value rs

/-- `what()` of the exception for a container that is too long. -/
def invalidContainerSize : Text :=
  text "plakpacs::binary_walker<Stream, sp_container<T>>.read() => Invalid container size..."

/-- The size prefix that `binary_walker<sp_container>::read` starts with. -/
def readCount (G : Guard) : ReadM ℕ := do
  let size ← readUInt32 G
  if size > maxContainerCount then throw (.exception invalidContainerSize) else pure size

/-- `what()` of the exception for a constraint that does not hold. -/
def constraintNotSatisfied : Text := text "Constraint not satisfied"

/-- The `catch` clause of `read_object` around the read of one field. -/
def inField {α : Type} (holder name : Text) (m : ReadM α) : ReadM α := fun rs =>
  match m rs with
  | .error (.exception what) rs' =>
      .error (.exception (text "plakpacs::serializer.read_object: field '" ++ holder ++
        text "." ++ name ++ text "' caught exception - " ++ what)) rs'
  | r => r

mutual

/-- `serializer::read` into the object `target`. -/
def read (G : Guard) {α : Type} : Schema α → α → ReadM α
  | .scalar w _, _ => ReadStream.read G w
  | .bool, _ => readBool G
  | .empty, _ => pure ()
  | .string, target => readString G target
  | .array s n, target => do
      let a ← repeatAppend (read G s (fresh s)) FixedAppender.append n
        ({ container := target } : FixedAppender _ n)
      pure a.container
  | .spContainer s, target => do
      let size ← readCount G
      repeatAppend (read G s (fresh s)) pushBack size target
  | .spString, target => do
      let size ← readCount G
      let value ← repeatAppend (readChar G) pushBack size target
      -- The terminator that `binary_walker<std::string>::write` left is dropped.
      let _ ← readChar G
      pure value
  | .optional s, target => do
      let rs ← get
      if canRead G rs then
        let has ← readBool G
        -- A `bool` with a byte above `1` is undefined behaviour; it is taken for set.
        if has != 0 then
          let value ← read G s (fresh s)
          pure (some value)
        else pure target
      else pure target
  | .constrained s cs, target => do
      let value ← read G s target
      if cs.all (fun check => check value) then pure value
      else throw (.exception constraintNotSatisfied)
  | .struct holder fs, target => readObject G holder fs target

/-- `serializer::read_object`: the fields in the order of their indices. -/
def readObject (G : Guard) (holder : Text) {α : Type} : Fields α → α → ReadM α
  | .last name _ s, target => inField holder name (read G s target)
  | .cons name _ s fs, (target, targets) => do
      let v ← inField holder name (read G s target)
      let vs ← readObject G holder fs targets
      pure (v, vs)

end

/-- The bytes of `serializer::write(v)` on a new stream. -/
def written (uninit : ℕ → UInt8) {α : Type} (s : Schema α) (v : α) : List UInt8 :=
  (write uninit s v {}).bytes

end BacsEnv.Plakpacs
