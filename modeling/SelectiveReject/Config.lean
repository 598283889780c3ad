import SelectiveReject.Error

/-!
# Settings of one side

Timers, patience, and the faults that a side adds to what it sends.
-/

namespace SelectiveReject

structure Config where
  /-- How many milliseconds to wait for an answer. -/
  shortTimeout : Nat := 1000
  /-- How many milliseconds a receiver waits for data before it takes the sender for dead. -/
  longTimeout : Nat := 10000
  /-- How many times in a row an answer may stay away. -/
  maxTries : Nat := 10
  /-- The probability that a packet is lost, and that it is damaged if it is not. -/
  rate : Float := 0.0
  /-- The seed of the faults; without one they differ from run to run. -/
  seed : Option UInt64 := none
  deriving Repr

namespace Config

/-- The ordinary settings. -/
def standard : Config := {}

/-- The ordinary settings on a channel that damages packets. -/
def lossy (rate : Float) : Config := { standard with rate := rate }

/-- Short timers, for two sides on one machine. -/
def loopback : Config := { standard with shortTimeout := 100, longTimeout := 2000 }

/-- The rate is at least zero and below one. -/
def check (config : Config) : Except Error Unit :=
  if 0.0 ≤ config.rate ∧ config.rate < 1.0 then .ok () else .error (.invalidRate config.rate)

end Config

end SelectiveReject
