import SelectiveReject.Bytes

/-!
# The digest of a file

The 32-bit cyclic redundancy check with the reflected polynomial `0xEDB88320`: the register starts
with all bits set, takes the bytes one at a time, low bit first, and is complemented at the end.
A file may be fed in pieces: `update_append` says that cutting it differently changes nothing.
-/

namespace SelectiveReject

/-- The register of a running check. -/
structure Crc32 where
  register : UInt32
  deriving DecidableEq, Repr

namespace Crc32

def polynomial : UInt32 := 0xEDB88320

/-- Nothing has been fed yet. -/
def start : Crc32 := ⟨0xFFFFFFFF⟩

/-- One bit: the register moves down, and the polynomial is added when a set bit falls out. -/
def shift (register : UInt32) : UInt32 :=
  if register &&& 1 = 1 then (register >>> 1) ^^^ polynomial else register >>> 1

/-- One byte: it is added to the low bits, which then fall out one by one. -/
def feed (register : UInt32) (byte : UInt8) : UInt32 :=
  shift (shift (shift (shift (shift (shift (shift (shift (register ^^^ byte.toUInt32))))))))

/-- The check after some more bytes. -/
def update (crc : Crc32) (bytes : Bytes) : Crc32 :=
  ⟨bytes.foldl feed crc.register⟩

/-- The digest of the bytes fed so far. -/
def digest (crc : Crc32) : UInt32 :=
  ~~~ crc.register

/-- The digest of a byte string. -/
def ofBytes (bytes : Bytes) : UInt32 :=
  (start.update bytes).digest

theorem update_append (crc : Crc32) (a b : Bytes) :
    crc.update (a ++ b) = (crc.update a).update b := by
  simp [update, List.foldl_append]

-- the check value of the code, of the digits from 1 to 9, fed in two pieces
example : ((start.update [49, 50, 51, 52]).update [53, 54, 55, 56, 57]).digest = 0xCBF43926 := by
  decide +kernel

end Crc32

end SelectiveReject
