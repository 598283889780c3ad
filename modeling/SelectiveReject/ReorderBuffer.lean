import SelectiveReject.SlotRing
import SelectiveReject.Word
import SelectiveReject.Parameters
import SelectiveReject.Crc32
import SelectiveReject.Sink

/-!
# The buffer of the receiver

Packets may arrive in any order.  Those with numbers in `[next, next + size)` are held in a ring
until the one before each has been written; `flush` writes the run that starts at `next` and moves
`next` behind it.  A number is held at most once, so no packet is written twice.

`pending` counts the packets held.  When a sink fails in the middle of a run, the packet it failed
on has left its slot but is still counted, and the bytes of that call are not added to
`bytesWritten`.
-/

namespace SelectiveReject

/-- What became of a packet given to the buffer. -/
inductive Added where
  | stored
  | duplicate
  deriving DecidableEq, Repr

structure ReorderBuffer where
  slots : SlotRing (Option Bytes)
  /-- The number of the packet to be written next. -/
  next : Nat
  pending : Nat
  bytesWritten : Nat
  crc : Crc32
  deriving DecidableEq

namespace ReorderBuffer

/-- An empty buffer for `size` packets. -/
def make (size : Nat) : Except Error ReorderBuffer :=
  (SlotRing.forWindow size none).map fun slots => ⟨slots, Word.firstNumber, 0, 0, .start⟩

def size (b : ReorderBuffer) : Nat := b.slots.size

/-- Whether fewer packets are counted than there are slots. -/
def isOpen (b : ReorderBuffer) : Bool := b.pending < b.size

/-- The number of the packet that was written last. -/
def lastCommitted (b : ReorderBuffer) : Except Abort Nat := Word.minus b.next 1

/-- Whether the packet to be written next is there. -/
def needsFlush (b : ReorderBuffer) : Bool := (b.slots.get b.next).isSome

/-- The digest of what has been written. -/
def digest (b : ReorderBuffer) : UInt32 := b.crc.digest

/-- Holds a packet, unless its number is out of range or its slot is taken. -/
def add (b : ReorderBuffer) (data : Bytes) (seq : Nat) : Except Stop Added × ReorderBuffer :=
  match Word.plus b.next b.size with
  | .error a => (.error (.abort a), b)
  | .ok high =>
      if seq < b.next ∨ high ≤ seq then (.error (.error (.outsideWindow seq b.next high)), b)
      else if (b.slots.get seq).isSome then (.ok .duplicate, b)
      else
        let b := { b with slots := b.slots.set seq (some data) }
        match Word.plus b.pending 1 with
        | .error a => (.error (.abort a), b)
        | .ok pending => (.ok .stored, { b with pending := pending })

/-- The numbers that may be held. -/
def range (b : ReorderBuffer) : List Nat := List.range' b.next b.size

/-- The least number that is not held while a greater one is. -/
def lowestMissing (b : ReorderBuffer) : Except Abort (Option Nat) :=
  if b.pending = 0 then .ok none
  else
    (Word.plus b.next b.size).map fun _ =>
      match b.range.find? fun seq => (b.slots.get seq).isNone with
      | none => none
      | some gap =>
          if b.range.any fun seq => gap < seq && (b.slots.get seq).isSome then some gap else none

/-- What a failing sink reports. -/
def sinkFull : Error := .io "no room left"

/-- Writes the run of packets that starts at `next`, at most `count` of them; `total` bytes have
been written before. -/
def writeRun (b : ReorderBuffer) (sink : Sink) (total : Nat) :
    Nat → Except Stop Nat × ReorderBuffer × Sink
  | 0 => (.ok total, b, sink)
  | count + 1 =>
      match b.slots.get b.next with
      | none => (.ok total, b, sink)
      | some data =>
          let b := { b with slots := b.slots.set b.next none }
          match sink.write data with
          | (false, sink) => (.error (.error sinkFull), b, sink)
          | (true, sink) =>
              let b := { b with crc := b.crc.update data }
              match Word.minus b.pending 1, Word.plus b.next 1 with
              | .ok pending, .ok next =>
                  writeRun { b with pending := pending, next := next } sink (total + data.length)
                    count
              | .error a, _ => (.error (.abort a), b, sink)
              | .ok _, .error a => (.error (.abort a), b, sink)

/-- Writes the run of packets that starts at `next` and says how many bytes it has.  Each packet
leaves its slot, so a run has at most `size` packets. -/
def flush (b : ReorderBuffer) (sink : Sink) : Except Stop Nat × ReorderBuffer × Sink :=
  match b.writeRun sink 0 b.size with
  | (.ok total, b, sink) => (.ok total, { b with bytesWritten := b.bytesWritten + total }, sink)
  | stopped => stopped

end ReorderBuffer

end SelectiveReject
