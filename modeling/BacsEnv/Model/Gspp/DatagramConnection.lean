import BacsEnv.Model.Bacs.SizePrefixed
import BacsEnv.Library.Transition

/-!
# `DatagramConnection`

A connection and its `SharedStateBlock` as a transition system: the completions of
`async_receive_from` and of `async_send_to`, the end of a call of `onHandle`, the calls of
`Send` and the destructor. Other steps can come while `onHandle` runs, so its call and its
return are two steps. The next receive is started in the completion handler of the last one;
`started` says whether that goes through (`make_shared` and `async_receive_from` allocate).

Of `asio`: a receive completes once, and with an error if it was started on a closed socket.
One that the close meets on its way may still bring a datagram. A receive that fails may have
written to its buffer.
-/

set_option autoImplicit false

namespace BacsEnv.Gspp.Datagram

open BacsEnv.Bacs

/-- The template arguments, and whether `onHandle` holds a function. -/
structure Config where
  traits : SPTraits := spDefault
  recvSize : ℕ := 0xFFFF
  onHandle : Bool := true

/-- An outstanding `async_receive_from`, and whether its socket was open at the start. -/
structure Receive where
  onOpen : Bool
deriving DecidableEq, Repr

/-- The arguments of a call of `onHandle`. -/
structure HandleCall (Endpoint : Type) where
  ep : Endpoint
  recvBuffer : List UInt8
  bytesTransferred : ℕ
deriving DecidableEq, Repr

/-- `PendingSendOp`: an endpoint and the bytes for it. -/
structure PendingSendOp (Endpoint : Type) where
  ep : Endpoint
  bytes : List UInt8
deriving DecidableEq, Repr

/-- The connection and its shared state: the socket, the outstanding operations, and the
number of calls of `onHandle` that run. The last two fields record the number of receives
that were started and the calls of `onHandle`. -/
structure State (Endpoint : Type) where
  destroyed : Bool := false
  isOpen : Bool
  recvBuffer : List UInt8
  receives : List Receive := []
  handling : ℕ := 0
  sends : List (PendingSendOp Endpoint) := []
  started : ℕ := 0
  handled : List (HandleCall Endpoint) := []
deriving DecidableEq, Repr

/-- One step; the numbers point into the outstanding operations. -/
inductive Event (Endpoint : Type)
  | received (i : ℕ) (ep : Endpoint) (datagram : List UInt8)
  | failed (i : ℕ) (written : List UInt8) (started : Bool)
  | handleReturned (started : Bool)
  | handleThrew
  | send (ep : Endpoint) (packet : List UInt8)
  | sendCompleted (i : ℕ)
  | destroy
deriving DecidableEq, Repr

variable {Endpoint : Type}

/-- The buffer with the first bytes written over. -/
def overwrite (bytes buffer : List UInt8) : List UInt8 :=
  bytes.take buffer.length ++ buffer.drop bytes.length

@[simp] theorem length_overwrite (bytes buffer : List UInt8) :
    (overwrite bytes buffer).length = buffer.length := by
  unfold overwrite
  rw [List.length_append, List.length_take, List.length_drop]
  omega

/-- `SharedStateBlock::RecvLoopAsync` -/
def recvLoopAsync (started : Bool) (s : State Endpoint) : State Endpoint :=
  if started then
    { s with receives := s.receives ++ [{ onOpen := s.isOpen }]
             started := s.started + 1 }
  else s

/-- A receive completes with a datagram: the handler of the constructor calls `onHandle`,
which throws if it is empty. -/
def received (C : Config) (i : ℕ) (ep : Endpoint) (datagram : List UInt8) (s : State Endpoint) :
    Option (State Endpoint) :=
  match s.receives[i]? with
  | none => none
  | some receive =>
      if receive.onOpen = false then none
      else
        let s₁ := { s with receives := s.receives.eraseIdx i
                           recvBuffer := overwrite datagram s.recvBuffer }
        let call : HandleCall Endpoint :=
          { ep := ep, recvBuffer := s₁.recvBuffer,
            bytesTransferred := min datagram.length s₁.recvBuffer.length }
        if C.onHandle then
          some { s₁ with handling := s₁.handling + 1, handled := s₁.handled ++ [call] }
        else some s₁

/-- A receive completes with an error: the handler of the constructor does nothing, and
`RecvLoopAsync` is called again. -/
def failed (i : ℕ) (written : List UInt8) (started : Bool) (s : State Endpoint) :
    Option (State Endpoint) :=
  if i < s.receives.length then
    some (recvLoopAsync started
      { s with receives := s.receives.eraseIdx i
               recvBuffer := overwrite written s.recvBuffer })
  else none

/-- `onHandle` returns, and `RecvLoopAsync` is called again. -/
def handleReturned (started : Bool) (s : State Endpoint) : Option (State Endpoint) :=
  if s.handling = 0 then none
  else some (recvLoopAsync started { s with handling := s.handling - 1 })

/-- An exception leaves `onHandle` and the completion handler. -/
def handleThrew (s : State Endpoint) : Option (State Endpoint) :=
  if s.handling = 0 then none else some { s with handling := s.handling - 1 }

/-- `DatagramConnection::Send` of the bytes of a packet, and `SendAsync`; it throws if
`SPTraits::out` does. -/
def send (C : Config) (ep : Endpoint) (packet : List UInt8) (s : State Endpoint) :
    Option (State Endpoint) :=
  if s.destroyed then none
  else
    match frame C.traits packet with
    | none => some s
    | some f => some { s with sends := s.sends ++ [{ ep := ep, bytes := f.bytes }] }

/-- The completion handler of `async_send_to`. -/
def sendCompleted (i : ℕ) (s : State Endpoint) : Option (State Endpoint) :=
  if i < s.sends.length then some { s with sends := s.sends.eraseIdx i } else none

/-- `~DatagramConnection` -/
def destroy (s : State Endpoint) : Option (State Endpoint) :=
  if s.destroyed then none else some { s with destroyed := true, isOpen := false }

/-- One step of the connection, when it can happen. -/
def step (C : Config) (s : State Endpoint) : Event Endpoint → Option (State Endpoint)
  | .received i ep datagram => received C i ep datagram s
  | .failed i written started => failed i written started s
  | .handleReturned started => handleReturned started s
  | .handleThrew => handleThrew s
  | .send ep packet => send C ep packet s
  | .sendCompleted i => sendCompleted i s
  | .destroy => destroy s

/-- A connection that was just constructed with a socket, open or not. -/
def init (C : Config) (isOpen : Bool) : State Endpoint :=
  recvLoopAsync true { isOpen := isOpen, recvBuffer := List.replicate C.recvSize 0 }

end BacsEnv.Gspp.Datagram
