import BacsEnv.Model.Gspp.StreamClient

/-!
# The lifetime of a `StreamClient`

A `StreamClient` object and its `SharedStateBlock`, which is released with the last
`shared_ptr` to it. The object holds one until its destructor has run. The others are
captured by completion handlers: each outstanding write, each read that a receive loop waits
for and each callback that runs in a completion handler keeps one.

A callback runs while other things happen, so its call and its return are two steps. An empty
`on_handle` behaves like one that returns `true` at once, and an empty `on_death` is not
called. Receive loops are numbered as they start, and the reads and callbacks carry the
number of their loop.

Of `asio`: a read completes once, and with an error if it was started on a closed socket. One
that the close meets on its way may still succeed. The `shared_buffer{0}` of a handler can
always be made.
-/

set_option autoImplicit false

namespace BacsEnv.Gspp

open BacsEnv.Bacs

/-- An outstanding `async_read` of `async_read_sp`: the receive loop that waits for it, and
whether its socket was open at the start. -/
structure PendingRead where
  phase : Phase
  loop : ℕ
  onOpen : Bool
deriving DecidableEq, Repr

/-- The callbacks of a client. -/
inductive Callback
  | onHandle
  | onDeath
deriving DecidableEq, Repr

/-- A callback that one of the receive loops called. -/
structure LoopCall where
  callback : Callback
  loop : ℕ
deriving DecidableEq, Repr

/-- A client and its shared state: whether `on_handle` and `on_death` are set, whether
`~StreamClient` has run, the sending side, the number of receive loops, their reads, the
callbacks that run, and whether the shared state was released. The last two fields record
the callbacks that were called, and count those called after the destructor. -/
structure Client where
  onHandle : Bool
  onDeath : Bool
  destroyed : Bool := false
  state : State := init
  loops : ℕ := 0
  reads : List PendingRead := []
  running : List LoopCall := []
  released : Bool := false
  calls : List LoopCall := []
  late : ℕ := 0
deriving DecidableEq, Repr

namespace Client

/-- One step. The numbers point into the outstanding operations and the callbacks that run.
`accepted` says that `async_read_sp` starts the read of the body, and `started` that the
next header read starts; a call that throws starts nothing. -/
inductive Event
  | sender (e : Gspp.Event)
  | startReceiveLoop (started : Bool)
  | readCompleted (i : ℕ) (ok accepted started : Bool)
  | returned (i : ℕ) (again started : Bool)
  | destroy
deriving DecidableEq, Repr

/-- Start an `async_read`. -/
def startRead (phase : Phase) (loop : ℕ) (c : Client) : Client :=
  { c with reads := c.reads ++ [{ phase := phase, loop := loop, onOpen := !c.state.closed }] }

/-- `bacs::async_read_sp_loop`, which may throw. -/
def asyncReadSpLoop (loop : ℕ) (started : Bool) (c : Client) : Client :=
  if started then c.startRead .header loop else c

/-- A callback is called. -/
def enter (callback : Callback) (loop : ℕ) (c : Client) : Client :=
  { c with running := c.running ++ [{ callback := callback, loop := loop }]
           calls := c.calls ++ [{ callback := callback, loop := loop }]
           late := c.late + c.destroyed.toNat }

/-- `StreamClient::StartReceiveLoop` -/
def startReceiveLoop (started : Bool) (c : Client) : Option Client :=
  if c.destroyed then none
  else some ({ c with loops := c.loops + started.toNat }.asyncReadSpLoop c.loops started)

/-- The handler of `StartReceiveLoop`, called from `async_read_sp_loop`. -/
def loopHandler (loop : ℕ) (ok started : Bool) (c : Client) : Client :=
  if ok = true then
    if c.onHandle = true then c.enter .onHandle loop else c.asyncReadSpLoop loop started
  else
    if c.onDeath = true then c.enter .onDeath loop else c

/-- The completion handlers of `async_read_sp`. A header starts the read of its body, and
goes to the handler when that throws. -/
def readCompleted (i : ℕ) (ok accepted started : Bool) (c : Client) : Option Client :=
  match c.reads[i]? with
  | none => none
  | some read =>
      let c₁ := { c with reads := c.reads.eraseIdx i }
      if ok = true then
        if read.onOpen = true then
          match read.phase with
          | .header =>
              some (if accepted then c₁.startRead .body read.loop
                else c₁.loopHandler read.loop true started)
          | .body => some (c₁.loopHandler read.loop true started)
        else none
      else some (c₁.loopHandler read.loop false started)

/-- A callback returns, or is left by an exception. After `on_handle` said `true`, the next
header is read. -/
def returned (i : ℕ) (again started : Bool) (c : Client) : Option Client :=
  match c.running[i]? with
  | none => none
  | some ⟨.onDeath, _⟩ => some { c with running := c.running.eraseIdx i }
  | some ⟨.onHandle, loop⟩ =>
      let c₁ := { c with running := c.running.eraseIdx i }
      some (if again then c₁.asyncReadSpLoop loop started else c₁)

/-- The calls of `Send` and `CloseSocket` need the client. -/
def usesClient : Gspp.Event → Bool
  | .send _ _ => true
  | .closeSocket => true
  | _ => false

/-- The sending side makes a step. -/
def sender (T : SPTraits) (e : Gspp.Event) (c : Client) : Option Client :=
  if c.destroyed = true ∧ usesClient e = true then none
  else (Gspp.step T c.state e).map fun s => { c with state := s }

/-- `~StreamClient` -/
def destroy (c : Client) : Option Client :=
  if c.destroyed then none
  else some { c with destroyed := true, state := closeSocket c.state }

/-- The number of `shared_ptr`s to the shared state. -/
def useCount (c : Client) : ℕ :=
  (!c.destroyed).toNat + c.state.writes.length + c.reads.length + c.running.length

/-- `~SharedStateBlock`, when the last `shared_ptr` is gone. -/
def release (c : Client) : Client :=
  if c.useCount = 0 then { c with released := true, state := close c.state } else c

/-- One step before a `shared_ptr` is let go. -/
def act (T : SPTraits) (c : Client) : Event → Option Client
  | .sender e => sender T e c
  | .startReceiveLoop started => startReceiveLoop started c
  | .readCompleted i ok accepted started => readCompleted i ok accepted started c
  | .returned i again started => returned i again started c
  | .destroy => destroy c

/-- One step, when it can happen. -/
def step (T : SPTraits) (c : Client) (e : Event) : Option Client := (act T c e).map release

/-- A client that was just constructed with an open socket, with or without its callbacks. -/
def constructed (onHandle onDeath : Bool) : Client := { onHandle := onHandle, onDeath := onDeath }

end Client

end BacsEnv.Gspp
