import SelectiveReject.Scenario.Station

/-!
# A channel by itself

A channel with the queue of its socket, as its peers see it: what leaves it, and what they put into
its queue.
-/

namespace SelectiveReject.Scenario

structure Socket (γ : Type := Generator) where
  link : Link
  channel : Channel
  faults : FaultModel γ
  queue : List Arrival := []

namespace Socket

variable {γ : Type}

/-- A socket on a network where peers can be reached. -/
def start (link : Link) (peer : Address) (faults : FaultModel γ) : Except Abort (Socket γ) :=
  (connect link).map fun _ => ⟨link, { peer := peer }, faults, []⟩

/-- Keeps what sending has left. -/
def sent (s : Socket γ) (outcome : Sent γ) : Socket γ × Except Stop Nat × Option Departure :=
  ({ s with channel := outcome.channel, faults := outcome.faults }, outcome.result,
    outcome.departure)

def send [Randomness γ] (s : Socket γ) (bytes : Bytes) :
    Socket γ × Except Stop Nat × Option Departure :=
  s.sent (s.channel.send s.link s.faults bytes)

def sendPacket [Randomness γ] (s : Socket γ) (p : Packet) :
    Socket γ × Except Stop Nat × Option Departure :=
  s.sent (s.channel.sendPacket s.link s.faults p)

def setPeer (s : Socket γ) (peer : Address) : Socket γ :=
  { s with channel := { s.channel with peer := peer } }

/-- A peer sends a datagram. -/
def inject (s : Socket γ) (datagram : Arrival) : Socket γ :=
  { s with queue := s.queue ++ [datagram] }

/-- Takes the first datagram; none arrives while one waits for it. -/
def receive (s : Socket γ) : Socket γ × Option Arrival :=
  match s.queue with
  | [] => (s, none)
  | first :: rest => ({ s with queue := rest }, some first)

/-- Takes all datagrams. -/
def receiveAll (s : Socket γ) : Socket γ × List Arrival :=
  ({ s with queue := [] }, s.queue)

def ready (s : Socket γ) : Bool := !s.queue.isEmpty

end Socket

end SelectiveReject.Scenario
