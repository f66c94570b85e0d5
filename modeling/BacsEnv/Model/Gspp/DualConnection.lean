import BacsEnv.Model.Gspp.HandlerSystem
import BacsEnv.Model.Gspp.StreamClient

/-!
# `gspp::DualConnection`

The callbacks that `SetupStreamClient` gives to its `StreamClient`, and the receive loop
of the connection as a transition function. The functions of the user (`HandlePacket`
of the handler system, `onHandle`, `onDeath` and `onHandleException`) are computations
that may throw a `std::exception` and may read and change the connection and anything
else. `_killed` is private, so all they can do to it is to call `ScheduleDisconnect`.

The connection is modelled with a record of the calls of these functions. The
`GSPP_DEBUG` macros are not defined.
-/

set_option autoImplicit false

namespace BacsEnv.Gspp

/-- What the functions of the user see: `killed()`, and the rest of the program. -/
structure Connection (σ : Type) where
  killed : Bool
  user : σ
deriving DecidableEq, Repr

namespace Connection

variable {σ : Type}

/-- `DualConnection::ScheduleDisconnect` -/
def scheduleDisconnect (c : Connection σ) : Connection σ := { c with killed := true }

@[simp] theorem killed_scheduleDisconnect (c : Connection σ) :
    c.scheduleDisconnect.killed = true := rfl

end Connection

/-- The state that a computation left, whether it returned or threw. -/
def stateAfter {ε τ α : Type} : EStateM.Result ε τ α → τ
  | .ok _ s => s
  | .error _ s => s

@[simp] theorem stateAfter_ok {ε τ α : Type} (a : α) (s : τ) :
    stateAfter (.ok a s : EStateM.Result ε τ α) = s := rfl

@[simp] theorem stateAfter_error {ε τ α : Type} (e : ε) (s : τ) :
    stateAfter (.error e s : EStateM.Result ε τ α) = s := rfl

/-- A function of the user. It returns, or it throws a `std::exception` with its
`what()`. -/
structure UserCode (σ α : Type) where
  run : EStateM Text (Connection σ) α
  killed_run : ∀ c : Connection σ, c.killed = true → (stateAfter (run c)).killed = true

/-- The arguments of `SetupStreamClient`; an empty `std::function` is `none`. -/
structure Setup (σ : Type) where
  handlePacket : List UInt8 → UserCode σ HandlerResult
  onHandle : Option (HandlerResult → UserCode σ Unit)
  onDeath : Option (UserCode σ Unit)
  onHandleException : Option (Text → UserCode σ Unit)

/-- `onHandle`, bound to a result. -/
def Setup.onHandleWith {σ : Type} (setup : Setup σ) (result : HandlerResult) :
    Option (UserCode σ Unit) :=
  setup.onHandle.map fun f => f result

/-- `onHandleException`, bound to an exception. -/
def Setup.onHandleExceptionWith {σ : Type} (setup : Setup σ) (what : Text) :
    Option (UserCode σ Unit) :=
  setup.onHandleException.map fun f => f what

namespace DualConnection

/-- What is called of the user's functions. -/
inductive Callee
  | handlePacket (buffer : List UInt8)
  | onHandle (result : HandlerResult)
  | onHandleException (what : Text)
  | onDeath
deriving DecidableEq, Repr

/-- A call of one of them, and whether it threw. -/
structure UserCall where
  callee : Callee
  threw : Bool
deriving DecidableEq, Repr

/-- A connection on which `StartReceiveLoop` was called. -/
structure Session (σ : Type) where
  connection : Connection σ
  /-- A read of `async_read_sp_loop` is pending. -/
  receiving : Bool
  calls : List UserCall
deriving DecidableEq, Repr

variable {σ : Type}

/-- `killed()` -/
def Session.killed (s : Session σ) : Bool := s.connection.killed

/-- The session after a call of a user's function. -/
def Session.record (s : Session σ) (callee : Callee) (threw : Bool) (c : Connection σ) :
    Session σ :=
  { s with connection := c, calls := s.calls ++ [{ callee := callee, threw := threw }] }

/-- A computation of the connection, which an exception may leave. -/
abbrev SessionM (σ : Type) := EStateM Text (Session σ)

/-- A call of a user's function. -/
def call {α : Type} (callee : Callee) (code : UserCode σ α) : SessionM σ α := fun s =>
  match code.run s.connection with
  | .ok a c => .ok a (s.record callee false c)
  | .error what c => .error what (s.record callee true c)

/-- A call of a callback that may be an empty `std::function`. -/
def notify (callee : Callee) : Option (UserCode σ Unit) → SessionM σ Unit
  | none => pure ()
  | some code => call callee code

/-- `DualConnection::ScheduleDisconnect` -/
def scheduleDisconnect (s : Session σ) : Session σ :=
  { s with connection := s.connection.scheduleDisconnect }

variable (setup : Setup σ)

/-- The `catch` clause of the packet callback. -/
def catchClause (what : Text) : SessionM σ Bool := do
  notify (.onHandleException what) (setup.onHandleExceptionWith what)
  modify scheduleDisconnect
  notify (.onHandle .disconnect) (setup.onHandleWith .disconnect)
  pure false

/-- The packet callback that `SetupStreamClient` makes. -/
def packetCallback (buffer : List UInt8) : SessionM σ Bool :=
  tryCatch
    (do
      let result ← call (.handlePacket buffer) (setup.handlePacket buffer)
      notify (.onHandle result) (setup.onHandleWith result)
      let s ← get
      pure (decide (result = .continue) && !s.killed))
    (catchClause setup)

/-- The death callback that `SetupStreamClient` makes. -/
def deathCallback : SessionM σ Unit := notify .onDeath setup.onDeath

/-- What `async_read_sp_loop` sees of the packet callback. An exception leaves the
completion handler before the next read is started. -/
def goesOn : EStateM.Result Text (Session σ) Bool → Bool × Session σ
  | .ok again s => (again, s)
  | .error _ s => (false, s)

/-- The callbacks of the `StreamClient`. -/
def streamCallbacks : Callbacks (Session σ) where
  onHandle := some fun buffer s => goesOn (packetCallback setup buffer s)
  onDeath := some fun s => stateAfter (deathCallback setup s)

/-- The handler that `StreamClient::StartReceiveLoop` gives to `async_read_sp_loop`. -/
def handler : BacsEnv.Bacs.Handler (Session σ) := fun c s =>
  let (again, s₁) := clientHandler (streamCallbacks setup) c (s, [])
  (again, s₁.1)

/-- A call of the handler by the receive loop, or one of `ScheduleDisconnect` from
outside. -/
inductive Event
  | received (c : BacsEnv.Bacs.Call)
  | scheduleDisconnect

/-- One step of a connection, when it can happen. -/
def step (s : Session σ) : Event → Option (Session σ)
  | .received c =>
      if s.receiving then
        let (again, s₁) := handler setup c s
        some { s₁ with receiving := again }
      else none
  | .scheduleDisconnect => some (scheduleDisconnect s)

/-- A connection right after `StartReceiveLoop`. -/
def started (c : Connection σ) : Session σ := { connection := c, receiving := true, calls := [] }

end DualConnection

end BacsEnv.Gspp
