import SelectiveReject.Channel
import SelectiveReject.Statistics
import SelectiveReject.Retry

/-!
# Machines that exchange packets

Both sides of a transfer are machines that move in small steps.  In a step a machine may take the
first datagram from its queue and may send a few packets to its peer; or it cannot go on before a
datagram arrives or its timer runs out; or it has ended.  The time that a wait may take is part of
the machine, the clock is not.
-/

namespace SelectiveReject

/-- One step of a machine. -/
inductive Move (σ : Type) where
  /-- Nothing can be done before a datagram arrives or the timer runs out. -/
  | wait
  /-- The machine goes on, with these datagrams left in its queue, and sends these packets. -/
  | next (state : σ) (queue : List Arrival) (sent : List Packet)
  | stop (result : Except Stop Statistics)

class Machine (σ : Type) where
  /-- One step, given the datagrams that wait in the queue. -/
  step : σ → List Arrival → Move σ
  /-- The timer of the present wait has run out. -/
  expire : σ → σ
  /-- How many milliseconds the present wait may take. -/
  patience : σ → Nat
  /-- Where packets are sent. -/
  peer : σ → Address
  /-- No more steps than this follow each other without a wait, datagrams in the queue apart. -/
  effort : σ → Nat
  /-- No more timers than this run out in a row without a datagram in between. -/
  expiries : σ → Nat

namespace Move

variable {σ : Type}

def fail (e : Error) : Move σ := .stop (.error (.error e))

def abort (a : Abort) : Move σ := .stop (.error (.abort a))

end Move

end SelectiveReject
