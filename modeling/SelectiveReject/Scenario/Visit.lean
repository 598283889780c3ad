import SelectiveReject.Scenario.Site

/-!
# Clients at a server

Clients send datagrams to a server, all of an action at once, or let time pass.  A client knows the
server's address, and the addresses of the transfers that have sent to it, numbered from one in the
order in which it first heard of them; to any other address it sends nothing.
-/

namespace SelectiveReject.Scenario

/-- A datagram that a client sends: to the server itself, or to one of the transfers it knows. -/
structure Letter where
  client : Address
  transfer : Option Nat
  bytes : Bytes

inductive ClientAction where
  | send (letters : List Letter)
  | wait (milliseconds : Nat)

/-- A datagram that a client got, from the transfer with this number. -/
structure Receipt where
  client : Address
  transfer : Nat
  bytes : Bytes

structure Visit where
  site : Site
  /-- Which transfers have sent to which client, in the order in which they first did. -/
  known : List (Address × Address) := []

/-- What an action shows: what the clients got, and how many transfers are under way after it. -/
structure Glimpse where
  receipts : List Receipt
  active : Nat

namespace Visit

/-- The addresses of the transfers that a client knows. -/
def addresses (v : Visit) (client : Address) : List Address :=
  (v.known.filter (·.1 = client)).map (·.2)

/-- Delivers what a client sends, if it knows the address. -/
def post (v : Visit) (letter : Letter) : Visit :=
  let datagram : Arrival := ⟨letter.client, letter.bytes⟩
  match letter.transfer with
  | none => { v with site := v.site.receive datagram }
  | some 0 => v
  | some (n + 1) =>
      match (v.addresses letter.client)[n]? with
      | some address => { v with site := v.site.forward address datagram }
      | none => v

/-- Hands a datagram of a transfer to its client. -/
def receipt (v : Visit) (d : Delivery) : Visit × Receipt :=
  let client := d.departure.target
  let v := if (v.addresses client).contains d.source then v
    else { v with known := v.known ++ [(client, d.source)] }
  (v, ⟨client, (v.addresses client).idxOf d.source + 1, d.departure.bytes⟩)

def receipts (v : Visit) : List Delivery → Visit × List Receipt
  | [] => (v, [])
  | d :: rest =>
      let (v, first) := v.receipt d
      let (v, more) := v.receipts rest
      (v, first :: more)

def act (v : Visit) (action : ClientAction) : Visit × Glimpse :=
  let (v, left) :=
    match action with
    | .send letters =>
        let v := letters.foldl post v
        let (site, left) := v.site.settle
        ({ v with site := site }, left)
    | .wait milliseconds =>
        let (site, left) := v.site.wait milliseconds
        ({ v with site := site }, left)
  let (v, got) := v.receipts left
  (v, ⟨got, v.site.server.activeTransfers⟩)

def play (v : Visit) : List ClientAction → List Glimpse
  | [] => []
  | action :: rest =>
      let (v, glimpse) := v.act action
      glimpse :: v.play rest

end Visit

/-- Runs clients against a server with the given files. -/
def visit (link : Link) (server : Server) (file : String → Source) (script : List ClientAction)
    (faults : FaultModel := .ofConfig server.config)
    (address : Nat → Address := Site.transferAddress) : Except Abort (List Glimpse) :=
  (connect link).map fun _ => Visit.play ⟨.start link server file faults address, []⟩ script

end SelectiveReject.Scenario
