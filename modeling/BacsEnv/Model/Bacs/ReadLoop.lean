import BacsEnv.Model.Bacs.SizePrefixed

/-!
# Reading size-prefixed frames

`async_read_sp` reads a header and then a body of the size it holds, and
`async_read_sp_loop` does so as long as the handler says `true`. The stream is the
bytes that arrive and whether a read error follows them; a read that they do not
complete either fails with the error or stays pending.

An `error_code` is kept as whether it is failed.
-/

set_option autoImplicit false

namespace BacsEnv.Bacs

/-- What arrives on a socket: some bytes, and then a read error or nothing more. -/
structure Incoming where
  bytes : List UInt8
  ended : Bool
deriving DecidableEq, Repr

/-- The bytes of the stream from a position on. -/
def Incoming.rest (input : Incoming) (position : ℕ) : List UInt8 := input.bytes.drop position

/-- The completion of a read: its `error_code`, and the bytes it put into the buffer. -/
structure ReadCompletion where
  failed : Bool
  data : List UInt8
deriving DecidableEq, Repr

/-- `boost::asio::async_read` of `n` bytes at a position of the stream, when it completes.
It succeeds exactly when all the bytes arrive. -/
def asyncRead (input : Incoming) (position n : ℕ) : Option ReadCompletion :=
  if n ≤ (input.rest position).length then
    some { failed := false, data := (input.rest position).take n }
  else if input.ended then some { failed := true, data := input.rest position }
  else none

/-- What the memory manager does: whether the body's buffer is obtained, for a header read
at a position and a size, and what a new buffer holds. -/
structure Heap where
  allocates : ℕ → ℕ → Bool
  uninit : ℕ → UInt8

/-- A heap that always has memory. -/
def Heap.ample : Heap := { allocates := fun _ _ => true, uninit := fun _ => 0 }

/-- A `shared_buffer` of `size` bytes after a read that put `data` into it. -/
def sharedBuffer (heap : Heap) (size : ℕ) (data : List UInt8) : List UInt8 :=
  data ++ (List.range (size - data.length)).map fun i => heap.uninit (data.length + i)

/-- One call of the handler: the `error_code`, the number of bytes read, the buffer. -/
structure Call where
  failed : Bool
  bytesRead : ℕ
  buffer : List UInt8
deriving DecidableEq, Repr

/-- The size of the body, when the `try` block of `async_read_sp` gets as far as reading
it: `SPTraits::in` takes the size and the buffer is obtained. -/
def acceptSize (T : SPTraits) (heap : Heap) (position : ℕ) (header : List UInt8) : Option ℕ := do
  let size ← T.sizeIn (T.ofBytes header)
  if heap.allocates position size.val then pure size.val else none

/-- `async_read_sp` at a position of the stream: the call of its handler, and the position
that the socket is left at. It may never come to the call. -/
def asyncReadSp (T : SPTraits) (heap : Heap) (input : Incoming) (position : ℕ) :
    Option (Call × ℕ) := do
  let header ← asyncRead input position T.width
  let next := position + header.data.length
  if header.failed then
    pure ({ failed := true, bytesRead := header.data.length, buffer := [] }, next)
  else
    match acceptSize T heap position header.data with
    | none =>
        -- `catch (...)` passes on the `error_code` of the header.
        pure ({ failed := header.failed, bytesRead := header.data.length, buffer := [] }, next)
    | some size => do
        let body ← asyncRead input next size
        pure ({ failed := body.failed, bytesRead := body.data.length,
                buffer := sharedBuffer heap size body.data }, next + body.data.length)

/-- A handler with a state of type `σ`. -/
abbrev Handler (σ : Type) : Type := Call → σ → Bool × σ

/-- One turn of the loop: the position the header is read at, and the handler's call. -/
structure Round where
  start : ℕ
  call : Call
deriving DecidableEq, Repr

/-- `async_read_sp_loop` from a position, for at most `fuel` turns, with the state that the
handler is left in. -/
def asyncReadSpLoop (T : SPTraits) (heap : Heap) (input : Incoming) {σ : Type}
    (handler : Handler σ) : ℕ → ℕ → σ → List Round × σ
  | 0, _, s => ([], s)
  | fuel + 1, position, s =>
      match asyncReadSp T heap input position with
      | none => ([], s)
      | some (call, next) =>
          let (again, s₁) := handler call s
          if again then
            let (rounds, s₂) := asyncReadSpLoop T heap input handler fuel next s₁
            ({ start := position, call := call } :: rounds, s₂)
          else ([{ start := position, call := call }], s₁)

end BacsEnv.Bacs
