import SelectiveReject.Bytes
import SelectiveReject.Error

/-!
# Counters in words

Packet numbers, window bounds and retry counts are natural numbers that must fit 32 bits.  Adding
and subtracting on them is checked: leaving the word is an `Abort`.

```
plus a b  = .ok (a + b)   while  a + b < 2 ^ 32
minus a b = .ok (a - b)   while  b ≤ a
```
-/

namespace SelectiveReject.Word

/-- The number of the first data packet. -/
def firstNumber : Nat := 1

/-- Addition within 32 bits. -/
def plus (a b : Nat) : Except Abort Nat :=
  if a + b < limit32 then .ok (a + b) else .error .overflow

/-- Subtraction that does not fall below zero. -/
def minus (a b : Nat) : Except Abort Nat :=
  if b ≤ a then .ok (a - b) else .error .underflow

theorem plus_of_lt {a b : Nat} (h : a + b < limit32) : plus a b = .ok (a + b) := if_pos h

theorem minus_of_le {a b : Nat} (h : b ≤ a) : minus a b = .ok (a - b) := if_pos h

end SelectiveReject.Word
