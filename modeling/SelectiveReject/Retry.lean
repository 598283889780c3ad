import SelectiveReject.Word

/-!
# Patience

Waits that end without an answer are counted.  Before each wait the count goes up by one, and when
it has passed the limit the peer is given up; a datagram sets it back to zero.
-/

namespace SelectiveReject

structure Retry where
  /-- How many waits have begun since the last datagram. -/
  count : Nat := 0
  maxTries : Nat
  deriving DecidableEq, Repr

/-- How a wait ends. -/
inductive Wait where
  | timeout
  | ready
  | giveUp
  deriving DecidableEq, Repr

namespace Retry

def reset (r : Retry) : Retry := { r with count := 0 }

/-- Begins a wait: whether there is still patience for it, and the new count. -/
def attempt (r : Retry) : Except Abort (Bool × Retry) :=
  (Word.plus r.count 1).map fun n => (n ≤ r.maxTries, { r with count := n })

/-- A whole wait, at whose end there is a datagram or not. -/
def wait (r : Retry) (ready : Bool) : Except Abort (Wait × Retry) :=
  r.attempt.map fun (patient, r) =>
    if !patient then (.giveUp, r)
    else if ready then (.ready, r.reset)
    else (.timeout, r)

end Retry

end SelectiveReject
