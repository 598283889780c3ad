import SelectiveReject.Scenario.Network

/-!
# One machine among strangers

The other side of a machine may be anything.  In an encounter datagrams with any bytes arrive from
anywhere, the machine takes its steps, and its timer runs out, in any order.  A log keeps what the
machine read and which packets it handed to its channel:

```
arrival x    the datagram x is put into the queue
step         the machine takes a step, and sends what the step says
timer        the present wait is over
```
-/

namespace SelectiveReject.Scenario

/-- What a machine does that others can see, or have brought about. -/
inductive Deed where
  /-- It took a datagram from its queue. -/
  | read (datagram : Arrival)
  /-- It handed a packet to its channel. -/
  | sent (packet : Packet)
  deriving DecidableEq, Repr

structure Encounter (σ : Type) where
  station : Station σ
  faults : FaultModel
  log : List Deed := []

/-- What happens next. -/
inductive Incident where
  | arrival (datagram : Arrival)
  | step
  | timer
  deriving DecidableEq, Repr

/-- What a step does that finds one queue and leaves another: it reads before it sends. -/
def deeds (queue queue' : List Arrival) (sent : List Packet) : List Deed :=
  (queue.take (queue.length - queue'.length)).map .read ++ sent.map .sent

@[simp] theorem deeds_same (queue : List Arrival) (sent : List Packet) :
    deeds queue queue sent = sent.map .sent := by
  simp [deeds]

@[simp] theorem deeds_read (x : Arrival) (queue : List Arrival) (sent : List Packet) :
    deeds (x :: queue) queue sent = .read x :: sent.map .sent := by
  have hlength : (x :: queue).length - queue.length = 1 := by
    rw [List.length_cons, Nat.add_sub_cancel_left]
  rw [deeds, hlength]
  rfl

theorem sent_mem_deeds {queue queue' : List Arrival} {sent : List Packet} {p : Packet} :
    .sent p ∈ deeds queue queue' sent ↔ p ∈ sent := by
  simp only [deeds, List.mem_append, List.mem_map, reduceCtorEq, and_false, exists_false, false_or,
    Deed.sent.injEq, exists_eq_right]

namespace Encounter

variable {σ : Type} [Machine σ]

/-- A machine that has not moved yet. -/
def start (machine : σ) (faults : FaultModel) : Encounter σ where
  station := .start machine
  faults := faults

/-- What the next step of the machine does. -/
def next (e : Encounter σ) : List Deed :=
  match Machine.step e.station.machine e.station.queue with
  | .next _ queue sent => deeds e.station.queue queue sent
  | _ => []

def act (link : Link) (e : Encounter σ) : Incident → Option (Encounter σ)
  | .arrival datagram => some { e with station := e.station.enqueue [datagram] }
  | .step => (e.station.advance link e.faults).map fun (station, faults, _) =>
      ⟨station, faults, e.log ++ e.next⟩
  | .timer => if e.station.ended then none else some { e with station := e.station.expire }

/-- Lets one incident happen after the other. -/
def run (link : Link) (e : Encounter σ) : List Incident → Option (Encounter σ)
  | [] => some e
  | incident :: rest => (e.act link incident).bind fun e => e.run link rest

/-- The states that an encounter can be in. -/
inductive Reaches (link : Link) (e : Encounter σ) : Encounter σ → Prop
  | refl : Reaches link e e
  | step {now next : Encounter σ} (incident : Incident) (h : Reaches link e now)
      (hact : now.act link incident = some next) : Reaches link e next

/-- A state that a run of incidents leads to can be reached. -/
theorem reaches_of_run {link : Link} {e now next : Encounter σ} {incidents : List Incident}
    (h : Reaches link e now) (hrun : now.run link incidents = some next) :
    Reaches link e next := by
  induction incidents generalizing now with
  | nil =>
      rw [run, Option.some.injEq] at hrun
      subst hrun
      exact h
  | cons incident rest ih =>
      rw [run, Option.bind_eq_some_iff] at hrun
      obtain ⟨between, hact, hrest⟩ := hrun
      exact ih (.step incident h hact) hrest

end Encounter

end SelectiveReject.Scenario
