import BacsEnv.Library.Medium
import BacsEnv.Model.Gspp.DatagramConnection

/-!
# `DatagramConnection`s on a network

One connection at each endpoint, and a network that may lose, repeat and reorder the
datagrams. A datagram may arrive as soon as `async_send_to` was called for it, and completes
one of the receives that are outstanding at its destination.
-/

set_option autoImplicit false

namespace BacsEnv.Gspp.Datagram

open BacsEnv.Bacs

variable {Endpoint : Type}

/-- Connections that were just constructed, with sockets that are open or not. -/
def constructed (C : Config) (isOpen : Endpoint → Bool) :
    Medium.Net Endpoint (State Endpoint) (List UInt8) where
  parties ep := init C (isOpen ep)
  sent := []

end BacsEnv.Gspp.Datagram
