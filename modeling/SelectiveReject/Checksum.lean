import SelectiveReject.Bytes

/-!
# The checksum of a packet

The data are read as 16-bit words, high byte first; an odd last byte is the high byte of a last
word.  The words are added in a 32-bit accumulator, the carries above 16 bits are added back in
until none is left, and the checksum is the complement of what remains.

A datagram whose words, the checksum included, add up to `0xFFFF` in this arithmetic has the
checksum `0`: this is how a receiver tells that it is intact.
-/

namespace SelectiveReject

namespace Checksum

/-- The exact sum of the 16-bit words of the data. -/
def wordSum : Bytes → Nat
  | a :: b :: rest => (a.toNat * 256 + b.toNat) + wordSum rest
  | [a] => a.toNat * 256
  | [] => 0

/-- The sum of the words as a 32-bit accumulator that starts at `sum` holds it.  It is exact as
long as the sum stays below `2 ^ 32`. -/
def accumulate (sum : UInt32) : Bytes → UInt32
  | a :: b :: rest => accumulate (sum + UInt32.ofNat (a.toNat * 256 + b.toNat)) rest
  | [a] => sum + UInt32.ofNat (a.toNat * 256)
  | [] => sum

/-- The carries above 16 bits are added to the low 16 bits until none is left. -/
def foldCarries (sum : Nat) : Nat :=
  if sum ≤ 0xFFFF then sum else foldCarries (sum % 65536 + sum / 65536)
termination_by sum
decreasing_by omega

theorem foldCarries_le (sum : Nat) : foldCarries sum ≤ 0xFFFF := by
  fun_induction foldCarries sum with
  | case1 sum h => exact h
  | case2 sum h ih => exact ih

theorem toNat_accumulate (sum : UInt32) (data : Bytes) :
    (accumulate sum data).toNat = (sum.toNat + wordSum data) % limit32 := by
  fun_induction accumulate sum data with
  | case1 sum a b rest ih =>
      rw [ih]
      simp only [UInt32.toNat_add, UInt32.toNat_ofNat', wordSum, limit32]
      omega
  | case2 sum a =>
      simp only [UInt32.toNat_add, UInt32.toNat_ofNat', wordSum, limit32]
      omega
  | case3 sum =>
      have := sum.toNat_lt
      simp only [wordSum, limit32]
      omega

end Checksum

/-- The one's-complement checksum of the data. -/
def checksum (data : Bytes) : UInt16 :=
  UInt16.ofNat (0xFFFF - Checksum.foldCarries (Checksum.accumulate 0 data).toNat)

end SelectiveReject
