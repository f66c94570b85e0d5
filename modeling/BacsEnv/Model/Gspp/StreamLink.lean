import BacsEnv.Model.Bacs.Reader
import BacsEnv.Model.Gspp.StreamClient

/-!
# Two connected `StreamClient`s

The sending side of one client, the bytes on their way, and the receive loop of the other
one. The bytes that arrive are those that the sender's socket took, in their order, as
many of them as have come so far; a read error may follow them at any time, because the
sender has closed its socket, because the reader has, or because the connection broke.
-/

set_option autoImplicit false

namespace BacsEnv.Gspp

open BacsEnv.Bacs

/-- One direction of a connection: the client that sends, how many bytes of its wire have
arrived, whether a read error follows them, and the client that receives. -/
structure Link (σ : Type) where
  sender : State
  arrived : ℕ
  ended : Bool
  reader : Reader σ
deriving DecidableEq, Repr

namespace Link

variable {σ : Type}

/-- What the reader's socket has to read. -/
def incoming (l : Link σ) : Incoming :=
  { bytes := l.sender.wire.take l.arrived, ended := l.ended }

/-- One step of a connection. -/
inductive Event
  | sender (e : Gspp.Event)
  | arrive (n : ℕ)
  | fail
  | read
deriving DecidableEq, Repr

/-- `n` more bytes arrive. -/
def arrive (n : ℕ) (l : Link σ) : Option (Link σ) :=
  if l.ended = true ∨ l.sender.wire.length < l.arrived + n then none
  else some { l with arrived := l.arrived + n }

/-- One step, when it can happen. -/
def step (T : SPTraits) (heap : Heap) (handler : Handler σ) (l : Link σ) :
    Event → Option (Link σ)
  | .sender e => (Gspp.step T l.sender e).map fun s => { l with sender := s }
  | .arrive n => arrive n l
  | .fail => some { l with ended := true }
  | .read => (l.reader.complete T heap handler l.incoming).map fun r => { l with reader := r }

/-- A connection on which nothing was sent yet, with a receive loop that was started. -/
def opened (state : σ) : Link σ :=
  { sender := init, arrived := 0, ended := false, reader := { state := state } }

/-- The payloads that the handler got without an error. -/
def received (l : Link σ) : List Payload :=
  (l.reader.calls.filter fun call => !call.failed).map Call.buffer

/-- The receive loop has ended or is cut off: its handler said `false`, or got an error. -/
def finished (l : Link σ) : Bool :=
  decide (l.reader.reading = .nothing) || l.reader.calls.any Call.failed

end Link

end BacsEnv.Gspp
