import SelectiveReject.Word
import SelectiveReject.Decimal.Fixed
import SelectiveReject.Hexadecimal

/-!
# What a transfer has cost

Both sides count with the same record; a counter that has no meaning on a side stays zero.  The
time a transfer took is kept apart, in a `Stopwatch`, since it says nothing about the protocol.
-/

namespace SelectiveReject

structure Statistics where
  /-- Packets handed to the channel, control packets and injected losses included. -/
  packetsSent : Nat := 0
  /-- Data packets sent for the first time. -/
  dataPackets : Nat := 0
  /-- Data packets sent again because they were asked for. -/
  srejRetransmits : Nat := 0
  /-- Data packets sent again because no answer came. -/
  timeoutRetransmits : Nat := 0
  acksSent : Nat := 0
  srejsSent : Nat := 0
  acksReceived : Nat := 0
  srejsReceived : Nat := 0
  /-- Datagrams thrown away for their checksum. -/
  corruptPackets : Nat := 0
  /-- Data packets that had been received before. -/
  duplicatePackets : Nat := 0
  /-- Packets that the fault model kept back. -/
  injectedDrops : Nat := 0
  /-- Packets that the fault model damaged. -/
  injectedFlips : Nat := 0
  /-- Bytes of the file that have been sent or written. -/
  payloadBytes : Nat := 0
  /-- The digest of these bytes. -/
  digest : UInt32 := 0
  deriving DecidableEq, Repr

/-- When something began and, once it has ended, when it ended, in nanoseconds. -/
structure Stopwatch where
  started : Int
  ended : Option Int := none
  deriving DecidableEq, Repr

namespace Stopwatch

/-- Stops the watch; a watch that has been stopped keeps its time. -/
def finish (w : Stopwatch) (now : Int) : Stopwatch :=
  { w with ended := some (w.ended.getD now) }

/-- The nanoseconds between the start and the end, or `now` while it runs; never below zero. -/
def elapsed (w : Stopwatch) (now : Int) : Nat :=
  (w.ended.getD now - w.started).toNat

end Stopwatch

/-- Nanoseconds as seconds: the whole seconds and the rest are converted apart. -/
def seconds (nanoseconds : Nat) : Float :=
  Float.ofNat (nanoseconds / 1000000000) + Float.ofNat (nanoseconds % 1000000000) / 1e9

namespace Statistics

/-- All packets sent again, in a counter of 64 bits. -/
def retransmits (s : Statistics) : Except Abort Nat :=
  if s.srejRetransmits + s.timeoutRetransmits < limit64 then
    .ok (s.srejRetransmits + s.timeoutRetransmits)
  else .error .overflow

/-- Bytes of the file in a second; zero if no time has passed. -/
def throughput (s : Statistics) (nanoseconds : Nat) : Float :=
  if seconds nanoseconds == 0.0 then 0.0
  else Float.ofNat s.payloadBytes / seconds nanoseconds

/-- The summary's account of the file: how many bytes, and their digest. -/
def bytesText (s : Statistics) : String := s!"Bytes: {s.payloadBytes}"

def digestText (s : Statistics) : String := "CRC32: " ++ Hexadecimal.ofNat 8 s.digest.toNat

/-- One line with all counters. -/
def summary (s : Statistics) (nanoseconds : Nat) : String :=
  String.intercalate " | "
    ["Elapsed: " ++ Decimal.fixed 2 (seconds nanoseconds) ++ "s",
     s.bytesText,
     "Throughput: " ++ Decimal.fixed 2 (s.throughput nanoseconds / 1000.0) ++ " KB/s",
     s!"Sent: {s.packetsSent} (data {s.dataPackets}, srej-re {s.srejRetransmits}, " ++
       s!"timeout-re {s.timeoutRetransmits})",
     s!"ACK/SREJ out: {s.acksSent}/{s.srejsSent} in: {s.acksReceived}/{s.srejsReceived}",
     s!"Corrupt: {s.corruptPackets}",
     s!"Dup: {s.duplicatePackets}",
     s!"Injected drop/flip: {s.injectedDrops}/{s.injectedFlips}",
     s.digestText]

end Statistics

end SelectiveReject
