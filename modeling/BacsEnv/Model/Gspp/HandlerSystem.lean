import BacsEnv.Model.Plakpacs.Serializer

/-!
# `gspp::HandlerSystem`

A `HandlerManager` maps packet ids to the handlers that were registered for them, and
`HandlePacket` reads a header, looks up the handler of its id and lets it read the body
from the same stream. The template arguments that users of the library supply
(`PacketSerializer<Header>`, `HeaderIdExtractor` and, for each packet type, its
`SchemaIdExtractor` and `PacketHandlerFunction`) are the fields of structures.

`HandlePacket` is modelled with a record of the calls of `PacketHandlerFunction`.
-/

set_option autoImplicit false

namespace BacsEnv.Gspp

open BacsEnv.Plakpacs ReadStream

/-- `HandlerSystem::HandlerResult` -/
inductive HandlerResult
  | continue
  | disconnect
deriving DecidableEq, Repr

/-- `PacketSerializer<Header>`. `Deserialize` inverts `Serialize` and consumes exactly its
bytes. It sees the stream through `read_stream`, where only a read that stays within the
bytes moves the position and goes on. -/
structure PacketSerializer (Header : Type) where
  serialize : Header → List UInt8
  deserialize : ReadM Header
  deserialize_serialize : ∀ header rest h,
    deserialize (ofBytes (serialize header ++ rest) h) =
      .ok header ((ofBytes (serialize header ++ rest) h).advance (serialize header).length)
  position_le : ∀ rs header rs', rs.position ≤ rs.bytes.length →
    deserialize rs = .ok header rs' → rs'.position ≤ rs'.bytes.length

/-- A packet type `Schema` with the user's code for it. `value` is the object that
`Schema value;` makes, with its default member initialisers. -/
structure PacketSchema (State Header IdType : Type) where
  /-- `SchemaIdExtractor<Schema>::Extract` -/
  id : IdType
  Body : Type
  schema : Schema Body
  value : Body
  /-- `PacketHandlerFunction<Schema>::Handle`, which may throw a `std::exception`. -/
  handle : Header × Body → EStateM Text State HandlerResult

/-- A call of `PacketHandlerFunction<Schema>::Handle` with a header and a body. -/
structure Handling (State Header IdType : Type) where
  packet : PacketSchema State Header IdType
  header : Header
  body : packet.Body

/-- What a call of `HandlePacket` did: what it returned or why it did not, the `State`
that it left, and the handler functions that it called. -/
structure Dispatch (State Header IdType : Type) where
  result : Except ReadError HandlerResult
  state : State
  handled : List (Handling State Header IdType)

variable {State Header IdType : Type} [DecidableEq IdType]

/-- The effect of one call of a handler function. -/
def Handling.dispatch (call : Handling State Header IdType) (state : State) :
    Dispatch State Header IdType :=
  match call.packet.handle (call.header, call.body) state with
  | .ok result state' => { result := .ok result, state := state', handled := [call] }
  | .error what state' =>
      { result := .error (.exception what), state := state', handled := [call] }

/-- A call that did not come to a handler function. -/
def Dispatch.unhandled (result : Except ReadError HandlerResult) (state : State) :
    Dispatch State Header IdType :=
  { result := result, state := state, handled := [] }

/-- `HandlerImpl<Schema>::HandlePacket` -/
def PacketSchema.handlePacket (packet : PacketSchema State Header IdType) (state : State)
    (header : Header) (rs : ReadStream) : Dispatch State Header IdType :=
  match Plakpacs.read canReadNum packet.schema packet.value rs with
  | .ok body _ => Handling.dispatch ⟨packet, header, body⟩ state
  | .error e _ => .unhandled (.error e) state

/-- `HandlerSystem::HandlerManager`: each id has at most one handler in its
`unordered_map`. A `HandlerImpl<Schema>` is kept as the packet type it is for. -/
structure HandlerManager (State Header IdType : Type) where
  handlers : List (IdType × PacketSchema State Header IdType)
  nodup : (handlers.map Prod.fst).Nodup

namespace HandlerManager

/-- A manager without handlers. -/
def empty : HandlerManager State Header IdType := { handlers := [], nodup := List.nodup_nil }

/-- `_handlers.find` -/
def find (manager : HandlerManager State Header IdType) (id : IdType) :
    Option (PacketSchema State Header IdType) :=
  manager.handlers.lookup id

/-- `RegisterHandler(type, handler)`: a handler that is there already stays. -/
def registerAs (manager : HandlerManager State Header IdType) (type : IdType)
    (handler : PacketSchema State Header IdType) : HandlerManager State Header IdType :=
  if h : type ∈ manager.handlers.map Prod.fst then manager
  else { handlers := manager.handlers ++ [(type, handler)]
         nodup := by
           rw [List.map_append, List.nodup_append]
           refine ⟨manager.nodup, List.nodup_singleton type, ?_⟩
           intro id hid id' hid' heq
           obtain rfl := List.mem_singleton.mp hid'
           rw [heq] at hid
           exact h hid }

/-- `RegisterHandler<Schema>()` -/
def registerHandler (manager : HandlerManager State Header IdType)
    (packet : PacketSchema State Header IdType) : HandlerManager State Header IdType :=
  manager.registerAs packet.id packet

/-- The manager after the `HandlerRegistrator<Schema>` objects of some packet types were
made in this order. -/
def registered (packets : List (PacketSchema State Header IdType)) :
    HandlerManager State Header IdType :=
  packets.foldl registerHandler empty

variable (serializer : PacketSerializer Header) (extract : Header → IdType)

/-- `HandlePacket(State&, const Header&, ReadStream&)` -/
def handleBody (manager : HandlerManager State Header IdType) (state : State) (header : Header)
    (rs : ReadStream) : Dispatch State Header IdType :=
  match manager.find (extract header) with
  | some packet => packet.handlePacket state header rs
  | none => .unhandled (.ok .continue) state

/-- `HandlePacket(State&, ReadStream&)` -/
def handleStream (manager : HandlerManager State Header IdType) (state : State)
    (rs : ReadStream) : Dispatch State Header IdType :=
  match serializer.deserialize rs with
  | .ok header rs' => manager.handleBody extract state header rs'
  | .error e _ => .unhandled (.error e) state

/-- `HandlePacket(State&, const RSConvertible&)` -/
def handlePacket (manager : HandlerManager State Header IdType) (state : State)
    (bytes : List UInt8) (h : bytes.length < sizeRange) : Dispatch State Header IdType :=
  manager.handleStream serializer extract state (ofBytes bytes h)

end HandlerManager

end BacsEnv.Gspp
