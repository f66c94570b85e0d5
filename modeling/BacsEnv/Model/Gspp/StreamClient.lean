import BacsEnv.Model.Bacs.ReadLoop
import BacsEnv.Library.Transition

/-!
# `StreamClient`

The sending side is a transition system of one `SharedStateBlock`: the calls of `Send` and `CloseSocket`, the
socket taking bytes of an outstanding write, and the completions of writes. Everything
that changes `write_queue` or `shutdown` happens under `write_lock`, so each of these is
one step.

Two things are left to the environment. A write may be started with an exception
(`make_shared` and `async_write` allocate), and otherwise the call that starts it may
already take bytes. The bytes that are taken later come from a buffer that the program
no longer owns: the completion handlers of `async_write_sp` keep neither the object the
header is read from nor, once the header is written, the copy of the container. Those
bytes are whatever the memory holds by then.

Of `asio`: an operation completes once and never inside the call that starts it,
successfully only when all bytes of its buffer were taken, and a write on a closed socket
takes nothing and fails.

The receiving side is `async_read_sp_loop` with the handler of `StartReceiveLoop`.
-/

set_option autoImplicit false

namespace BacsEnv.Gspp

open BacsEnv.Bacs

/-! ## Sending -/

/-- The bytes of a serialised packet. -/
abbrev Payload : Type := List UInt8

/-- Which of the two `async_write` calls of `async_write_sp` is outstanding. -/
inductive Phase
  | header
  | body
deriving DecidableEq, Repr

/-- An outstanding `async_write`: the frame it is part of, the buffer it writes, and the
number of bytes of it that the socket has taken. -/
structure AsyncWrite where
  frame : Frame
  phase : Phase
  taken : ℕ
deriving DecidableEq, Repr

/-- The bytes that the buffer of a write held when the write was started. -/
def AsyncWrite.buffer (op : AsyncWrite) : List UInt8 :=
  match op.phase with
  | .header => op.frame.header
  | .body => op.frame.body

/-- The part of the buffer that the socket has not taken. -/
def AsyncWrite.unsent (op : AsyncWrite) : List UInt8 := op.buffer.drop op.taken

/-- What must not happen: `pop` of an empty queue, and a close under an outstanding
write. -/
inductive Fault
  | popEmpty
  | closeWhileWriting
deriving DecidableEq, Repr

/-- The shared state of a client. The last four fields record what happened so far: the
bytes that the peer gets, the packets whose `Send` has returned, the frames whose two
writes have succeeded, and the faults. -/
structure State where
  writeQueue : List Payload := []
  shutdown : Bool := false
  closed : Bool := false
  writes : List AsyncWrite := []
  wire : List UInt8 := []
  sent : List Payload := []
  written : List Frame := []
  faults : List Fault := []
deriving DecidableEq, Repr

/-- How a call of `async_write` goes: it throws, or it starts a write and takes the first
bytes of the buffer at once. -/
inductive Start
  | throws
  | starts (taken : ℕ)
deriving DecidableEq, Repr

/-- One step. The bytes of `transfer` are those the socket takes, the numbers point into
the outstanding writes, and a `Start` is used when the step gets to start a write. -/
inductive Event
  | send (packet : Payload) (start : Start)
  | closeSocket
  | transfer (i : ℕ) (bytes : List UInt8)
  | completed (i : ℕ) (ok : Bool) (start : Start)
deriving DecidableEq, Repr

/-- `boost::asio::async_write` of one of the buffers of a frame, and whether the call
returns. -/
def asyncWrite (f : Frame) (phase : Phase) (start : Start) (s : State) :
    Option (State × Bool) :=
  match start with
  | .throws => some (s, false)
  | .starts taken =>
      let op : AsyncWrite := { frame := f, phase := phase, taken := taken }
      if op.buffer.length < taken ∨ (s.closed = true ∧ taken ≠ 0) then none
      else some ({ s with writes := s.writes ++ [op],
                          wire := s.wire ++ op.buffer.take taken }, true)

/-- `SharedStateBlock::WriteAsync`, and whether the call returns. -/
def writeAsync (T : SPTraits) (data : Payload) (start : Start) (s : State) :
    Option (State × Bool) :=
  match frame T data with
  | none => some (s, false)
  | some f => asyncWrite f .header start s

/-- `StreamClient::Send`. -/
def send (T : SPTraits) (packet : Payload) (start : Start) (s : State) : Option State :=
  let s₁ := { s with writeQueue := s.writeQueue ++ [packet] }
  match s₁.writeQueue with
  | [front] => do
      let (s₂, returned) ← writeAsync T front start s₁
      pure (if returned then { s₂ with sent := s₂.sent ++ [packet] } else s₂)
  | _ => some { s₁ with sent := s₁.sent ++ [packet] }

/-- `socket.close()`. -/
def close (s : State) : State :=
  { s with closed := true
           faults := if s.writes = [] then s.faults else s.faults ++ [.closeWhileWriting] }

/-- `StreamClient::CloseSocket`, which `~StreamClient` calls too. -/
def closeSocket (s : State) : State :=
  if s.writeQueue = [] then close s else { s with shutdown := true }

/-- `write_queue.pop()`. -/
def pop (s : State) : State :=
  match s.writeQueue with
  | [] => { s with faults := s.faults ++ [.popEmpty] }
  | _ :: rest => { s with writeQueue := rest }

/-- The handler that `WriteAsync` passes to `async_write_sp`. -/
def onWritten (T : SPTraits) (start : Start) (s : State) : Option State :=
  let s₁ := pop s
  let s₂ := if s₁.shutdown then close s₁ else s₁
  match s₂.writeQueue with
  | [] => some s₂
  | front :: _ => (writeAsync T front start s₂).map Prod.fst

/-- The socket takes some more bytes of a write. -/
def transfer (i : ℕ) (bytes : List UInt8) (s : State) : Option State :=
  match s.writes[i]? with
  | none => none
  | some op =>
      if s.closed = true ∨ op.unsent.length < bytes.length then none
      else some { s with writes := s.writes.set i { op with taken := op.taken + bytes.length }
                         wire := s.wire ++ bytes }

/-- The completion handlers of the two writes of `async_write_sp`. -/
def completed (T : SPTraits) (i : ℕ) (ok : Bool) (start : Start) (s : State) : Option State :=
  match s.writes[i]? with
  | none => none
  | some op =>
      let s₁ := { s with writes := s.writes.eraseIdx i }
      match ok with
      | false => onWritten T start s₁
      | true =>
          if s.closed = true ∨ op.unsent ≠ [] then none
          else match op.phase with
            | .header => (asyncWrite op.frame .body start s₁).map Prod.fst
            | .body => onWritten T start { s₁ with written := s₁.written ++ [op.frame] }

/-- One step of the client, when it can happen. -/
def step (T : SPTraits) (s : State) : Event → Option State
  | .send packet start => send T packet start s
  | .closeSocket => some (closeSocket s)
  | .transfer i bytes => transfer i bytes s
  | .completed i ok start => completed T i ok start s

/-- A client with nothing to send on an open socket. -/
def init : State := {}

/-! ## The handler of `StartReceiveLoop` -/

/-- A call of one of the two callbacks of a `StreamClient`. -/
inductive Notice
  | onHandle (buffer : List UInt8)
  | onDeath
deriving DecidableEq, Repr

/-- The callbacks of a `StreamClient`; an empty `std::function` is `none`. -/
structure Callbacks (σ : Type) where
  onHandle : Option (List UInt8 → σ → Bool × σ)
  onDeath : Option (σ → σ)

/-- The handler passed by `StartReceiveLoop`, with a record of the callbacks it made. -/
def clientHandler {σ : Type} (callbacks : Callbacks σ) : Handler (σ × List Notice) :=
  fun call s =>
    if call.failed then
      match callbacks.onDeath with
      | none => (false, s)
      | some onDeath => (false, onDeath s.1, s.2 ++ [.onDeath])
    else
      match callbacks.onHandle with
      | none => (true, s)
      | some onHandle =>
          let (again, s₁) := onHandle call.buffer s.1
          (again, s₁, s.2 ++ [.onHandle call.buffer])

end BacsEnv.Gspp
