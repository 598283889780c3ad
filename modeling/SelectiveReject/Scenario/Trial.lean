import SelectiveReject.Scenario.Station

/-!
# One machine against a script

A trial runs one machine against peers that follow a script: they send datagrams, all at once, or
let time pass.  What left the machine is told for its start and for each action of the script, up
to the action in which it ended.

The peers know the machine's address from the start, or they learn it from the first datagram that
reaches them; before that nothing they send can arrive.
-/

namespace SelectiveReject.Scenario

/-- What the peers do. -/
inductive Action where
  | send (datagrams : List Arrival)
  | wait (milliseconds : Nat)

structure Trial (σ : Type) where
  link : Link
  station : Station σ
  faults : FaultModel
  now : Nat := 0
  /-- Whether the peers know the machine's address. -/
  known : Bool := false

/-- What a trial shows: the datagrams that left at the start and in each action, how the machine
ended, if it has, and the machine itself. -/
structure Record (σ : Type) where
  departures : List (List Departure)
  result : Option (Except Stop Statistics)
  machine : σ

namespace Trial

variable {σ : Type} [Machine σ]

/-- Lets the machine run. -/
def settle (t : Trial σ) : Trial σ × List Departure :=
  let (station, faults, left) := t.station.settle t.link t.now t.faults
  ({ t with station := station, faults := faults, known := t.known || !left.isEmpty }, left)

/-- Lets the timers that are due by `limit` run out, at most `count` of them. -/
def pass (t : Trial σ) (limit : Nat) : Nat → Trial σ × List Departure
  | 0 => (t, [])
  | count + 1 =>
      match t.station.dueBy limit with
      | none => (t, [])
      | some time =>
          let (t, left) := { t with now := time, station := t.station.expire }.settle
          let (t, more) := t.pass limit count
          (t, left ++ more)

def act (t : Trial σ) : Action → Trial σ × List Departure
  | .send datagrams =>
      if t.known && !datagrams.isEmpty then
        { t with station := t.station.enqueue datagrams }.settle
      else (t, [])
  | .wait milliseconds =>
      let limit := t.now + milliseconds
      let (t, left) := t.pass limit (Machine.expiries t.station.machine)
      ({ t with now := limit }, left)

/-- Goes through a script, up to the action in which the machine ends. -/
def play (t : Trial σ) : List Action → Trial σ × List (List Departure)
  | [] => (t, [])
  | action :: rest =>
      if t.station.ended then (t, [])
      else
        let (t, left) := t.act action
        let (t, more) := t.play rest
        (t, left :: more)

end Trial

/-- Runs a machine against a script. -/
def record {σ : Type} [Machine σ] (link : Link) (faults : FaultModel) (machine : σ)
    (script : List Action) (known : Bool := false) : Record σ :=
  let (t, first) := Trial.settle ⟨link, .start machine, faults, 0, known⟩
  let (t, rest) := t.play script
  ⟨first :: rest, t.station.result, t.station.machine⟩

end SelectiveReject.Scenario
