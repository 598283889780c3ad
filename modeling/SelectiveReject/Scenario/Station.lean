import SelectiveReject.Upload
import SelectiveReject.Download

/-!
# Machines on sockets

A station is a machine with the queue of its socket, the channel it sends through, and the time at
which its present wait is over.  `settle` lets it run until it waits or has ended; computing takes
no time.

A scenario needs a network: peers cannot be set up on a host that does not reach itself.
-/

namespace SelectiveReject.Scenario

/-- Sets up the scripted peers of a scenario, which are on the host itself. -/
def connect (link : Link) : Except Abort Unit :=
  if (link.refusal ⟨"localhost", 0⟩).isNone then .ok () else .error .noNetwork

structure Station (σ : Type) where
  machine : σ
  channel : Channel
  queue : List Arrival := []
  /-- When the present wait is over; none before the first. -/
  deadline : Option Nat := none
  /-- How the machine ended, once it has. -/
  result : Option (Except Stop Statistics) := none

namespace Station

variable {σ : Type} [Machine σ]

/-- A station whose machine has not moved yet. -/
def start (machine : σ) : Station σ := ⟨machine, { peer := Machine.peer machine }, [], none, none⟩

def ended (s : Station σ) : Bool := s.result.isSome

/-- The machine has ended by itself: it was not broken off. -/
def returned (s : Station σ) : Bool :=
  match s.result with
  | none | some (.error (.abort _)) => false
  | some _ => true

/-- The faults of the channel are added to the counters of a machine that has ended well. -/
def finish (s : Station σ) (result : Except Stop Statistics) : Station σ :=
  { s with
    deadline := none
    result := some (result.map fun t =>
      { t with injectedDrops := s.channel.dropped, injectedFlips := s.channel.flipped }) }

/-- Lets the machine take at most `count` steps, up to its next wait or its end. -/
def run (link : Link) (now : Nat) (s : Station σ) (faults : FaultModel) :
    Nat → Station σ × FaultModel × List Departure
  | 0 => (s, faults, [])
  | count + 1 =>
      match Machine.step s.machine s.queue with
      | .wait =>
          ({ s with deadline := some (now + Machine.patience s.machine) }, faults, [])
      | .stop result => (s.finish result, faults, [])
      | .next machine queue sent =>
          match { s.channel with peer := Machine.peer machine }.sendAll link faults sent with
          | (.error e, channel, faults, left) =>
              (finish ⟨machine, channel, queue, none, none⟩ (.error e), faults, left)
          | (.ok (), channel, faults, left) =>
              let (s, faults, more) :=
                run link now ⟨machine, channel, queue, s.deadline, none⟩ faults count
              (s, faults, left ++ more)

/-- Lets the machine run until it waits or has ended. -/
def settle (link : Link) (now : Nat) (s : Station σ) (faults : FaultModel) :
    Station σ × FaultModel × List Departure :=
  s.run link now faults (Machine.effort s.machine + 4 * s.queue.length)

/-- Puts datagrams at the end of the queue. -/
def enqueue (s : Station σ) (datagrams : List Arrival) : Station σ :=
  { s with queue := s.queue ++ datagrams }

/-- The timer of the present wait runs out. -/
def expire (s : Station σ) : Station σ :=
  { s with machine := Machine.expire s.machine, deadline := none }

/-- Whether the machine can move: it has not begun, or a datagram has arrived. -/
def canMove (s : Station σ) : Bool := !s.ended && (s.deadline.isNone || !s.queue.isEmpty)

/-- The time at which the wait is over, if that is not after `limit`. -/
def dueBy (s : Station σ) (limit : Nat) : Option Nat := s.deadline.filter (· ≤ limit)

end Station

end SelectiveReject.Scenario
