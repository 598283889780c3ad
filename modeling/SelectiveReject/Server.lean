import SelectiveReject.Channel
import SelectiveReject.FileRequest

/-!
# Requests at the server

The server listens at one address for requests.  Each starts a transfer of its own, which answers
from another address.  Which transfers are under way is kept in a registry, by the address of the
client: while a client has a transfer, its requests are passed over, since they may be copies of
the one that was granted.  The entry goes when the transfer returns, whatever its result; one that is broken off
never returns, and its entry stays.
-/

namespace SelectiveReject

structure Server where
  config : Config
  /-- The clients that have a transfer, with the name of the file. -/
  active : List (Address × String) := []

namespace Server

/-- A server with valid settings. -/
def make (config : Config) : Except Error Server :=
  config.check.map fun _ => { config := config }

/-- The request that a datagram holds. -/
def request (datagram : Arrival) : Except Error (Option FileRequest) :=
  match datagram.packet with
  | .error e => .error e
  | .ok packet =>
      if packet.flag = .fname then (FileRequest.ofPayload packet.payload).map some else .ok none

/-- Whether a client has a transfer. -/
def serves (s : Server) (client : Address) : Bool :=
  s.active.any fun entry => entry.1 = client

/-- Takes a datagram at the listening address: the request that starts a transfer, if it does. -/
def receive (s : Server) (datagram : Arrival) : Server × Option FileRequest :=
  match request datagram with
  | .ok (some r) =>
      if s.serves datagram.source then (s, none)
      else ({ s with active := s.active ++ [(datagram.source, r.name)] }, some r)
  | _ => (s, none)

/-- The transfer of a client has ended. -/
def close (s : Server) (client : Address) : Server :=
  { s with active := s.active.filter fun entry => entry.1 ≠ client }

/-- How many transfers are under way. -/
def activeTransfers (s : Server) : Nat := s.active.length

end Server

end SelectiveReject
