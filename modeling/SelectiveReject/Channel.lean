import SelectiveReject.FaultModel
import SelectiveReject.Packet

/-!
# Channels

A channel sends to one peer at a time.  Every datagram passes the fault model first: it may be kept
back, which the sender does not notice, or leave with one bit turned over.  Then it is handed to
the network, which takes it or refuses.

Received datagrams are cut to 1500 bytes; one that was longer is then taken for a damaged one.
-/

namespace SelectiveReject

/-- Where a datagram comes from or goes to. -/
structure Address where
  host : String
  port : Nat := 0
  deriving DecidableEq, Repr

/-- A datagram in the queue of the socket that it arrived at. -/
structure Arrival where
  source : Address
  bytes : Bytes
  deriving DecidableEq, Repr

/-- A datagram on its way to a target. -/
structure Departure where
  target : Address
  bytes : Bytes
  deriving DecidableEq, Repr

/-- How many bytes of a datagram are received. -/
def receiveLimit : Nat := 1500

namespace Arrival

/-- The bytes that are received of a datagram. -/
def received (a : Arrival) : Bytes := a.bytes.take receiveLimit

/-- The packet that a datagram holds. -/
def packet (a : Arrival) : Except Error Packet := Packet.decode a.received

end Arrival

/-- What the network does with datagrams. -/
structure Link where
  /-- The reason why it refuses datagrams to a target, if it does. -/
  refusal : Address → Option String

namespace Link

/-- A network that takes every datagram. -/
def up : Link := ⟨fun _ => none⟩

/-- A network without a route to any peer. -/
def down : Link := ⟨fun _ => some "Network is unreachable (os error 101)"⟩

end Link

/-- Turns one bit over; bit `b` is bit `b % 8` of byte `b / 8`. -/
def flipBit (bytes : Bytes) (bit : Nat) : Bytes :=
  bytes.modify (bit / 8) fun byte => byte ^^^ ((1 : UInt8) <<< UInt8.ofNat (bit % 8))

structure Channel where
  peer : Address
  /-- How many datagrams were kept back. -/
  dropped : Nat := 0
  /-- How many datagrams had a bit turned over. -/
  flipped : Nat := 0
  deriving DecidableEq, Repr

/-- What sending leaves: the length sent or the reason why not, the channel, the fault model, and
the datagram that left, if one did. -/
structure Sent (γ : Type := Generator) where
  result : Except Stop Nat
  channel : Channel
  faults : FaultModel γ
  departure : Option Departure

namespace Channel

variable {γ : Type}

/-- Hands bytes to the network; the answer is `length`. -/
def release (c : Channel) (link : Link) (faults : FaultModel γ) (bytes : Bytes) (length : Nat) :
    Sent γ :=
  match link.refusal c.peer with
  | some text => ⟨.error (.error (.io text)), c, faults, none⟩
  | none => ⟨.ok length, c, faults, some ⟨c.peer, bytes⟩⟩

variable [Randomness γ]

/-- Sends bytes through the fault model.  Bytes that are kept back count as sent. -/
def send (c : Channel) (link : Link) (faults : FaultModel γ) (bytes : Bytes) : Sent γ :=
  match faults.sample bytes.length with
  | (.error a, faults) => ⟨.error (.abort a), c, faults, none⟩
  | (.ok .none, faults) => c.release link faults bytes bytes.length
  | (.ok .dropped, faults) => ⟨.ok bytes.length, { c with dropped := c.dropped + 1 }, faults, none⟩
  | (.ok (.flipped bit), faults) =>
      { c with flipped := c.flipped + 1 }.release link faults (flipBit bytes bit) bytes.length

/-- Frames a packet and sends it. -/
def sendPacket (c : Channel) (link : Link) (faults : FaultModel γ) (p : Packet) : Sent γ :=
  match p.encode with
  | .error e => ⟨.error (.error e), c, faults, none⟩
  | .ok bytes => c.send link faults bytes

/-- Sends packets in order, up to the first that cannot be sent. -/
def sendAll (c : Channel) (link : Link) (faults : FaultModel γ) :
    List Packet → Except Stop Unit × Channel × FaultModel γ × List Departure
  | [] => (.ok (), c, faults, [])
  | p :: rest =>
      match c.sendPacket link faults p with
      | ⟨.error e, c, faults, left⟩ => (.error e, c, faults, left.toList)
      | ⟨.ok _, c, faults, left⟩ =>
          let (result, c, faults, more) := c.sendAll link faults rest
          (result, c, faults, left.toList ++ more)

end Channel

end SelectiveReject
