import SelectiveReject.Scenario.Station
import SelectiveReject.Server

/-!
# A server and its transfers

A site is a server with the transfers that are under way.  Each is given an address when it begins;
all share one fault model.  When datagrams arrive, the server reads its own first, so that a transfer
begins only after every datagram at the listening address was looked at.

A transfer that has returned leaves, and its entry in the registry with it.  One that was broken off
stays where it was, without a further move, and so does its entry.
-/

namespace SelectiveReject.Scenario

/-- A transfer under way. -/
structure Transfer where
  /-- The address it sends from. -/
  address : Address
  client : Address
  station : Station Upload

/-- A datagram from a transfer to its client. -/
structure Delivery where
  source : Address
  departure : Departure

structure Site where
  link : Link
  server : Server
  /-- The file of a name. -/
  file : String → Source
  faults : FaultModel
  /-- The address that the n-th transfer is given. -/
  address : Nat → Address
  transfers : List Transfer := []
  /-- How many transfers have begun. -/
  begun : Nat := 0
  now : Nat := 0

namespace Site

/-- Addresses for transfers, no two of them the same. -/
def transferAddress (n : Nat) : Address := ⟨"transfer", n⟩

/-- A site without transfers. -/
def start (link : Link) (server : Server) (file : String → Source)
    (faults : FaultModel := .ofConfig server.config)
    (address : Nat → Address := transferAddress) : Site where
  link := link
  server := server
  file := file
  faults := faults
  address := address

/-- Takes a datagram at the listening address. -/
def receive (s : Site) (datagram : Arrival) : Site :=
  match s.server.receive datagram with
  | (server, none) => { s with server := server }
  | (server, some request) =>
      let upload := Upload.start server.config request datagram.source (s.file request.name)
      { s with
        server := server
        begun := s.begun + 1
        transfers := s.transfers ++
          [⟨s.address s.begun, datagram.source, .start upload⟩] }

/-- Puts a datagram into the queue of the transfer with the given address, if there is one. -/
def forward (s : Site) (address : Address) (datagram : Arrival) : Site :=
  { s with transfers := s.transfers.map fun t =>
      if t.address = address then { t with station := t.station.enqueue [datagram] } else t }

/-- Lets the transfers that can move run, in the order in which they began. -/
def settleAll (s : Site) : List Transfer → Site × List Delivery
  | [] => (s, [])
  | t :: rest =>
      if t.station.canMove then
        let (station, faults, left) := t.station.settle s.link s.now s.faults
        let deliveries := left.map fun d => ⟨t.address, d⟩
        let s :=
          if station.returned then { s with faults := faults, server := s.server.close t.client }
          else { s with
            faults := faults, transfers := s.transfers ++ [{ t with station := station }] }
        let (s, more) := s.settleAll rest
        (s, deliveries ++ more)
      else { s with transfers := s.transfers ++ [t] }.settleAll rest

def settle (s : Site) : Site × List Delivery :=
  { s with transfers := [] }.settleAll s.transfers

/-- The earliest time by `limit` at which the wait of a transfer is over. -/
def dueBy (s : Site) (limit : Nat) : Option Nat :=
  (s.transfers.filterMap (·.station.dueBy limit)).min?

/-- Lets the waits that are over by now run out. -/
def expireDue (s : Site) : Site :=
  { s with transfers := s.transfers.map fun t =>
      if (t.station.dueBy s.now).isSome then { t with station := t.station.expire } else t }

/-- Lets the timers that are due by `limit` run out, at most `count` times. -/
def pass (s : Site) (limit : Nat) : Nat → Site × List Delivery
  | 0 => (s, [])
  | count + 1 =>
      match s.dueBy limit with
      | none => (s, [])
      | some time =>
          let (s, left) := { s with now := time }.expireDue.settle
          let (s, more) := s.pass limit count
          (s, left ++ more)

/-- Lets time pass. -/
def wait (s : Site) (milliseconds : Nat) : Site × List Delivery :=
  let limit := s.now + milliseconds
  let expiries :=
    s.transfers.foldl (fun n t => n + Machine.expiries t.station.machine) 0
  let (s, left) := s.pass limit expiries
  ({ s with now := limit }, left)

end Site

end SelectiveReject.Scenario
