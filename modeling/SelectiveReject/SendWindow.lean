import SelectiveReject.SlotRing
import SelectiveReject.Word
import SelectiveReject.Parameters

/-!
# The window of the sender

The packets `lower, …, current - 1` have been sent and may have to be sent again; `current` is the
number of the next one.  Each waits in the slot of a ring, and at most `size` wait at a time:

```
  lower              current           lower + size
    │ ← sent, kept →    │ ← may be sent →  │
```

A packet is *acknowledged* singly or, as the protocol does it, together with all before it; only
then may `lower` pass it and its slot be used again.  The operations that change the window answer
together with the window they leave, also when they fail.
-/

namespace SelectiveReject

/-- A packet that was sent, kept until it is acknowledged. -/
structure Pane where
  seq : Nat
  payload : Bytes
  acked : Bool
  deriving DecidableEq, Repr

namespace Pane

/-- What an unused slot holds; it counts as acknowledged, so it may be used. -/
def vacant : Pane := ⟨0, [], true⟩

/-- The length of the packet, header included. -/
def packetLength (p : Pane) : Nat := Packet.headerLength + p.payload.length

end Pane

structure SendWindow where
  panes : SlotRing Pane
  lower : Nat
  current : Nat
  deriving DecidableEq

namespace SendWindow

/-- An empty window for `size` packets. -/
def make (size : Nat) : Except Error SendWindow :=
  (SlotRing.forWindow size .vacant).map fun panes => ⟨panes, Word.firstNumber, Word.firstNumber⟩

def size (w : SendWindow) : Nat := w.panes.size

/-- How many packets were sent and not passed by `lower`. -/
def inFlight (w : SendWindow) : Except Abort Nat := Word.minus w.current w.lower

/-- The number belongs to a packet that was sent and not passed by `lower`. -/
def Holds (w : SendWindow) (seq : Nat) : Prop := w.lower ≤ seq ∧ seq < w.current

instance (w : SendWindow) (seq : Nat) : Decidable (w.Holds seq) :=
  inferInstanceAs (Decidable (_ ∧ _))

/-- The numbers from `lower` up to `upper`, without it. -/
def numbersBelow (w : SendWindow) (upper : Nat) : List Nat :=
  List.range' w.lower (upper - w.lower)

/-- Whether another packet may be sent. -/
def isOpen (w : SendWindow) : Except Abort Bool :=
  w.inFlight.map fun n => n < w.size && (w.panes.get w.current).acked

/-- Keeps the payload of the packet `current`. -/
def addPane (w : SendWindow) (payload : Bytes) (seq : Nat) : Except Stop Unit × SendWindow :=
  if seq ≠ w.current then (.error (.error (.outOfOrder w.current seq)), w)
  else
    match w.inFlight with
    | .error a => (.error (.abort a), w)
    | .ok n =>
        if w.size ≤ n then (.error (.error (.windowClosed w.lower w.current)), w)
        else if !(w.panes.get seq).acked then (.error (.error (.slotOccupied seq)), w)
        else
          let w := { w with panes := w.panes.set seq ⟨seq, payload, false⟩ }
          match Word.plus w.current 1 with
          | .error a => (.error (.abort a), w)
          | .ok next => (.ok (), { w with current := next })

/-- Acknowledges one packet. -/
def markAck (w : SendWindow) (seq : Nat) : Except Stop Unit × SendWindow :=
  let pane := w.panes.get seq
  if w.Holds seq ∧ pane.seq = seq then
    (.ok (), { w with panes := w.panes.set seq { pane with acked := true } })
  else (.error (.error (.noSuchPane seq)), w)

/-- Forgets the payload of a packet; its slot stays acknowledged. -/
def release (w : SendWindow) (seq : Nat) : SendWindow :=
  { w with panes := w.panes.set seq { w.panes.get seq with payload := [] } }

/-- Moves `lower` up, over acknowledged packets only. -/
def slide (w : SendWindow) (newLower : Nat) : Except Stop Unit × SendWindow :=
  if newLower < w.lower ∨ w.current < newLower ∨
      (w.numbersBelow newLower).any (fun seq => !(w.panes.get seq).acked) then
    (.error (.error (.invalidSlide w.lower newLower w.current)), w)
  else (.ok (), { (w.numbersBelow newLower).foldl release w with lower := newLower })

/-- Acknowledges packets one after the other, up to the first that cannot be. -/
def markAll (w : SendWindow) : List Nat → Except Stop Unit × SendWindow
  | [] => (.ok (), w)
  | seq :: rest =>
      match w.markAck seq with
      | (.ok (), w) => w.markAll rest
      | stopped => stopped

/-- Acknowledges every packet up to `ack` and moves `lower` behind it.  The answer is by how much
`lower` moved; an old acknowledgement moves nothing. -/
def ackThrough (w : SendWindow) (ack : Nat) : Except Stop Nat × SendWindow :=
  if ack < w.lower then (.ok 0, w)
  else if w.current ≤ ack then (.error (.error (.noSuchPane ack)), w)
  else
    match w.markAll (w.numbersBelow (ack + 1)) with
    | (.error e, marked) => (.error e, marked)
    | (.ok (), marked) =>
        match Word.plus ack 1 with
        | .error a => (.error (.abort a), marked)
        | .ok next =>
            match marked.slide next with
            | (.error e, slid) => (.error e, slid)
            | (.ok (), slid) => (.ok (next - w.lower), slid)

/-- What is kept of a packet. -/
def pane? (w : SendWindow) (seq : Nat) : Option Pane :=
  let pane := w.panes.get seq
  if w.Holds seq ∧ pane.seq = seq then some pane else none

/-- The least number that is not acknowledged. -/
def oldestUnacked (w : SendWindow) : Option Nat :=
  (w.numbersBelow w.current).find? fun seq => !(w.panes.get seq).acked

/-- Whether every packet sent is acknowledged. -/
def allAcked (w : SendWindow) : Bool := w.oldestUnacked.isNone

/-- The packet to send again for a number, under the given flag, if it still waits. -/
def resend (w : SendWindow) (seq : Nat) (flag : Flag) : Except Error Packet :=
  match (w.pane? seq).filter (!·.acked) with
  | some pane => .ok ⟨UInt32.ofNat seq, flag, pane.payload⟩
  | none => .error (.noSuchPane seq)

end SendWindow

end SelectiveReject
