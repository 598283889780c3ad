import SelectiveReject.Checksum
import SelectiveReject.Error

/-!
# Packets

A packet has a number, a flag that says what it is for, and a payload of at most 1400 bytes.  On
the wire it is a header of seven bytes and the payload:

```
number (32 bits) | checksum (16 bits) | flag (8 bits) | payload
```

The checksum covers the whole datagram with its own field taken as zero, so the checksum of a
datagram that arrives intact is `0`.  `encode` frames a packet; `decode` reads a datagram and says
what is wrong with it otherwise: too short for a header, damaged, or of an unknown kind, in this
order.
-/

namespace SelectiveReject

/-- What a packet is for. -/
inductive Flag where
  /-- Everything up to this number has been written. -/
  | ack
  /-- Exactly this number is asked for again. -/
  | srej
  /-- A file is asked for. -/
  | fname
  /-- The file has been opened. -/
  | fnameOk
  /-- The file has no packet of this number: it ends before. -/
  | endOfFile
  | data
  /-- Data sent again because it was asked for. -/
  | srejData
  /-- Data sent again because no answer came. -/
  | timeoutData
  /-- The file cannot be opened. -/
  | fnameBad
  /-- The end of the file has been reached. -/
  | eofAck
  deriving DecidableEq, Repr

namespace Flag

/-- The byte that stands for a flag. -/
def code : Flag → UInt8
  | .ack => 5
  | .srej => 6
  | .fname => 8
  | .fnameOk => 9
  | .endOfFile => 10
  | .data => 16
  | .srejData => 17
  | .timeoutData => 18
  | .fnameBad => 32
  | .eofAck => 33

def all : List Flag :=
  [.ack, .srej, .fname, .fnameOk, .endOfFile, .data, .srejData, .timeoutData, .fnameBad, .eofAck]

/-- The flag that a byte stands for. -/
def ofCode (value : UInt8) : Except Error Flag :=
  match all.find? (·.code = value) with
  | some flag => .ok flag
  | none => .error (.unknownFlag value)

/-- Whether a packet with this flag carries bytes of the file. -/
def isData : Flag → Bool
  | .data | .srejData | .timeoutData => true
  | _ => false

theorem ofCode_code (flag : Flag) : ofCode flag.code = .ok flag := by
  cases flag <;> rfl

end Flag

structure Packet where
  number : UInt32
  flag : Flag
  payload : Bytes
  deriving DecidableEq, Repr

namespace Packet

/-- The bytes in front of the payload. -/
def headerLength : Nat := 7

/-- The longest payload. -/
def maxPayload : Nat := 1400

/-- The longest packet. -/
def maxLength : Nat := headerLength + maxPayload

/-- A packet without payload. -/
def control (flag : Flag) (number : Nat) : Packet := ⟨UInt32.ofNat number, flag, []⟩

/-- The number of a packet, for arithmetic. -/
def seq (p : Packet) : Nat := p.number.toNat

/-- The bytes of a packet with the given checksum field. -/
def frameWith (field : UInt16) (p : Packet) : Bytes :=
  bigEndian32 p.number ++ bigEndian16 field ++ p.flag.code :: p.payload

/-- The bytes of a packet: the checksum is taken over the bytes with a zero field. -/
def frame (p : Packet) : Bytes :=
  p.frameWith (checksum (p.frameWith 0))

/-- Frames a packet, unless its payload is too long. -/
def encode (p : Packet) : Except Error Bytes :=
  if maxPayload < p.payload.length then .error (.payloadTooLarge p.payload.length maxPayload)
  else .ok p.frame

/-- Reads a datagram. -/
def decode (datagram : Bytes) : Except Error Packet :=
  match datagram with
  | a :: b :: c :: d :: _ :: _ :: flag :: payload =>
      if checksum datagram ≠ 0 then .error .corrupt
      else (Flag.ofCode flag).map fun flag => ⟨readBigEndian32 a b c d, flag, payload⟩
  | short => .error (.truncated short.length)

theorem length_frame (p : Packet) : p.frame.length = headerLength + p.payload.length := by
  simp only [frame, frameWith, bigEndian32, bigEndian16, List.length_append, List.length_cons,
    List.length_nil, headerLength]
  omega

end Packet

end SelectiveReject
