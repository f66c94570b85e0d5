import BacsEnv.Model.Bacs.ReadLoop

/-!
# The receive loop, completion by completion

`async_read_sp_loop` as `asio` runs it: the read of a size header is pending, or the read of
a body, or nothing is, when the handler has said `false`.
-/

set_option autoImplicit false

namespace BacsEnv.Bacs

/-- The `async_read` that is pending. -/
inductive Reading
  | header
  | body (size : ℕ)
  | nothing
deriving DecidableEq, Repr

/-- A receive loop: the bytes it has taken from its socket, the read that is pending, the
state of its handler, and the calls of it so far. -/
structure Reader (σ : Type) where
  position : ℕ := 0
  reading : Reading := .header
  state : σ
  calls : List Call := []
deriving DecidableEq, Repr

namespace Reader

variable {σ : Type}

/-- The completion handler of `async_read_sp_loop`: the next header is read if the handler
says so. -/
def handOn (handler : Handler σ) (call : Call) (next : ℕ) (r : Reader σ) : Reader σ :=
  { position := next
    reading := if (handler call r.state).1 then .header else .nothing
    state := (handler call r.state).2
    calls := r.calls ++ [call] }

/-- The completion of the pending read, when it completes. -/
def complete (T : SPTraits) (heap : Heap) (handler : Handler σ) (input : Incoming)
    (r : Reader σ) : Option (Reader σ) :=
  match r.reading with
  | .header => do
      let header ← asyncRead input r.position T.width
      let next := r.position + header.data.length
      let emptyHanded : Call :=
        { failed := header.failed, bytesRead := header.data.length, buffer := [] }
      if header.failed then pure (r.handOn handler emptyHanded next)
      else
        match acceptSize T heap r.position header.data with
        | none => pure (r.handOn handler emptyHanded next)
        | some size => pure { r with position := next, reading := .body size }
  | .body size => do
      let body ← asyncRead input r.position size
      let call : Call :=
        { failed := body.failed, bytesRead := body.data.length,
          buffer := sharedBuffer heap size body.data }
      pure (r.handOn handler call (r.position + body.data.length))
  | .nothing => none

end Reader

end BacsEnv.Bacs
